import OpenRelay.Target.Targets

/-!
# Walking through targets

A cursor stands at a place of an enumeration. Reading a target moves it one place on; a cursor
that has passed the last target stays there.

* `Range.Cursor`: jumps to any place at once, up to the largest place a 64-bit word can name.
* `Targets.Cursor`: jumps by reading the targets in between.
* `bounds`: what a cursor says of how much is still to come.
-/

namespace OpenRelay

/-- The largest place that a 64-bit word can name. -/
def lastPlace : Nat := 0xFFFFFFFFFFFFFFFF

/-- A lower and an upper bound of a number: the number itself, or, if no 64-bit word can name it, the
largest word and no upper bound. -/
def boundsOf (n : Nat) : Nat × Option Nat :=
  if n ≤ lastPlace then (n, some n) else (lastPlace, none)

namespace Range

/-- A place in the enumeration of a range. -/
structure Cursor where
  range : Range
  place : Nat := 0

namespace Cursor

/-- The number of addresses still to come. -/
def remaining (c : Cursor) : Nat := c.range.count - c.place

/-- What is said of that number. -/
def bounds (c : Cursor) : Nat × Option Nat := boundsOf c.remaining

/-- The address at the cursor. Only a cursor that has one moves on. -/
def next (c : Cursor) : Option Address × Cursor :=
  match c.range.nth? c.place with
  | some x => (some x, { c with place := c.place + 1 })
  | none => (none, c)

/-- Skips `n` places, as far as places go, and reads the address there. -/
def nth (c : Cursor) (n : Nat) : Option Address × Cursor :=
  ({ c with place := min (c.place + n) lastPlace } : Cursor).next

end Cursor

end Range

namespace Targets

/-- A place in the enumeration of some targets. -/
structure Cursor where
  targets : Targets
  place : Nat := 0

namespace Cursor

/-- The number of targets still to come. -/
def remaining (c : Cursor) : Nat := c.targets.count - c.place

/-- What is said of that number. A list always knows how many are left. -/
def bounds (c : Cursor) : Nat × Option Nat :=
  match c.targets with
  | .range _ => boundsOf c.remaining
  | .list _ => (c.remaining, some c.remaining)

/-- The target at the cursor. Only a cursor that has one moves on. -/
def next (c : Cursor) : Option Address × Cursor :=
  match c.targets.nth? c.place with
  | some x => (some x, { c with place := c.place + 1 })
  | none => (none, c)

/-- Reads `n` targets and then one more, stopping where the targets end. -/
def nth (c : Cursor) : Nat → Option Address × Cursor
  | 0 => c.next
  | n + 1 =>
    match c.next with
    | (some _, c) => c.nth n
    | (none, c) => (none, c)

end Cursor

end Targets

end OpenRelay
