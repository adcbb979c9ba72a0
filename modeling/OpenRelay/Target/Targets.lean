import OpenRelay.Target.Range

/-!
# Targets of a scan

The targets are a range or a list of addresses. A list keeps its order and its duplicates.

* `Targets.count`, `Targets.nth?`, `Targets.toList`: how many, which one, all of them.
* `Targets.readList`: an address list, one address a line.
-/

namespace OpenRelay

/-- The addresses that a scan visits. -/
inductive Targets where
  | range (r : Range)
  | list (addresses : List Address)
deriving DecidableEq

namespace Targets

instance : Inhabited Targets := ⟨.list []⟩

/-- The number of targets. -/
def count : Targets → Nat
  | .range r => r.count
  | .list xs => xs.length

/-- Whether there is nothing to visit. -/
def isEmpty (t : Targets) : Bool := t.count = 0

/-- Whether the targets are a range without any bound. -/
def isUnbounded : Targets → Bool
  | .range r => r.isUnbounded
  | .list _ => false

/-- The target at a place of the enumeration. -/
def nth? : Targets → Nat → Option Address
  | .range r, i => r.nth? i
  | .list xs, i => xs[i]?

/-- The first `n` targets. -/
def take (n : Nat) : Targets → List Address
  | .range r => r.take n 0
  | .list xs => xs.take n

/-- All targets in the order of enumeration. -/
def toList : Targets → List Address
  | .range r => r.toList
  | .list xs => xs

/-! ## Address lists -/

/-- A line up to the sign that starts a comment, without blanks at its ends. -/
def entry (line : List Char) : List Char :=
  Text.trimmed (line.takeWhile (· ≠ '#'))

/-- Reads the lines of an address list; `number` is the number of the first one. -/
def readEntries (number : Nat) : List (List Char) → Except TargetError (List Address)
  | [] => .ok []
  | line :: rest =>
    match entry line with
    | [] => readEntries (number + 1) rest
    | cs =>
      match Address.read? cs with
      | some x => do return x :: (← readEntries (number + 1) rest)
      | none => .error (.badEntry number (String.ofList cs))

/-- Reads an address list: one address a line, where a number sign starts a comment and blank
lines do not count. -/
def readList (s : String) : Except TargetError Targets :=
  match readEntries 1 (Text.lines s.toList) with
  | .ok [] => .error .emptyList
  | .ok xs => .ok (.list xs)
  | .error e => .error e

end Targets

end OpenRelay
