/-!
# Octet spans

A span is the set of values that one octet of a target address may take, from a lowest to a
highest one. A span whose bounds are the wrong way round is empty.
-/

namespace OpenRelay

/-- The octets from `lo` to `hi`, both included. -/
structure Span where
  lo : UInt8
  hi : UInt8
deriving DecidableEq, Inhabited

namespace Span

/-- The span of an octet for which no bounds are given. Zero is left out: it names a network. -/
def full : Span := ⟨1, 255⟩

/-- The span of one octet. -/
def single (o : UInt8) : Span := ⟨o, o⟩

/-- Whether the bounds are the wrong way round. -/
def isEmpty (s : Span) : Bool := s.hi < s.lo

/-- The number of octets in the span. -/
def size (s : Span) : Nat := s.hi.toNat + 1 - s.lo.toNat

/-- The octet at place `i`, counted round and round, and the number of full rounds before it. -/
def pick (s : Span) (i : Nat) : UInt8 × Nat := (s.lo + UInt8.ofNat (i % s.size), i / s.size)

/-- One number for a span of one octet, else the two bounds with a hyphen. -/
protected def toString (s : Span) : String :=
  if s.lo = s.hi then toString s.lo.toNat else s!"{s.lo.toNat}-{s.hi.toNat}"

instance : ToString Span := ⟨Span.toString⟩

instance : Membership UInt8 Span := ⟨fun s o => s.lo ≤ o ∧ o ≤ s.hi⟩

instance (o : UInt8) (s : Span) : Decidable (o ∈ s) :=
  inferInstanceAs (Decidable (s.lo ≤ o ∧ o ≤ s.hi))

theorem mem_def {o : UInt8} {s : Span} : o ∈ s ↔ s.lo ≤ o ∧ o ≤ s.hi := Iff.rfl

theorem size_pos {s : Span} (h : s.lo ≤ s.hi) : 0 < s.size := by
  have := UInt8.le_iff_toNat_le.1 h
  unfold size; omega

theorem size_le (s : Span) : s.size ≤ 256 := by
  have := s.hi.toNat_lt
  unfold size; omega

end Span

end OpenRelay
