/-!
# Durations

A duration is a number of nanoseconds. The longest one has `2 ^ 64 - 1` whole seconds. Sums and
products that would be longer are refused by `add?` and `scale?`, and cut off by `scaleSaturating`.
-/

namespace OpenRelay

/-- A length of time in nanoseconds. -/
structure Duration where
  nanos : Nat
deriving DecidableEq, Inhabited

namespace Duration

/-- Nanoseconds in a second. -/
def perSecond : Nat := 1000000000

/-- The longest duration. -/
def longest : Duration := ⟨0xFFFFFFFFFFFFFFFF * perSecond + (perSecond - 1)⟩

/-- No time at all. -/
def zero : Duration := ⟨0⟩

/-- So many seconds. -/
def ofSeconds (n : Nat) : Duration := ⟨n * perSecond⟩

/-- So many milliseconds. -/
def ofMillis (n : Nat) : Duration := ⟨n * 1000000⟩

/-- The whole seconds. -/
def seconds (d : Duration) : Nat := d.nanos / perSecond

/-- The nanoseconds beyond the whole seconds. -/
def subsecond (d : Duration) : Nat := d.nanos % perSecond

/-- The whole milliseconds. -/
def millis (d : Duration) : Nat := d.nanos / 1000000

/-- A duration, if it is not longer than the longest one. -/
def check? (nanos : Nat) : Option Duration :=
  if nanos ≤ longest.nanos then some ⟨nanos⟩ else none

/-- The sum, if it is not too long. -/
def add? (d e : Duration) : Option Duration := check? (d.nanos + e.nanos)

/-- A multiple, if it is not too long. -/
def scale? (d : Duration) (n : Nat) : Option Duration := check? (d.nanos * n)

/-- A multiple, or the longest duration in place of one that is too long. -/
def scaleSaturating (d : Duration) (n : Nat) : Duration :=
  ⟨min (d.nanos * n) longest.nanos⟩

end Duration

end OpenRelay
