import OpenRelay.Address
import OpenRelay.Target.Span
import OpenRelay.Target.Error

/-!
# Address ranges

A range is the product of four octet spans, none of them empty: it holds every address whose
octets lie in the four spans. Addresses are counted off in ascending order, the last octet
running fastest, so `10.0.0.1-10.0.1.2` is `10.0.0.1`, `10.0.0.2`, `10.0.1.1`, `10.0.1.2`.

* `Range.between?`, `Range.ofSpans?`: ranges built from bounds; a descending octet is refused.
* `Range.nth?`: the address at a place of the enumeration.
* `Range.toString`, `Range.read?`: the notation written and read.
-/

namespace OpenRelay

/-- Four octet spans, most significant first, none of them empty. -/
structure Range where
  a : Span
  b : Span
  c : Span
  d : Span
  a_le : a.lo ≤ a.hi := by decide
  b_le : b.lo ≤ b.hi := by decide
  c_le : c.lo ≤ c.hi := by decide
  d_le : d.lo ≤ d.hi := by decide
deriving DecidableEq

namespace Range

/-- The four spans in the order in which they are written. -/
def spans (r : Range) : List Span := [r.a, r.b, r.c, r.d]

/-- The range with no bound given for any octet. -/
def unbounded : Range := { a := .full, b := .full, c := .full, d := .full }

/-- Whether no octet has a bound. -/
def isUnbounded (r : Range) : Bool := r.spans.all (· = .full)

/-- The range of one address. -/
def single (x : Address) : Range where
  a := .single x.a
  b := .single x.b
  c := .single x.c
  d := .single x.d
  a_le := UInt8.le_refl _
  b_le := UInt8.le_refl _
  c_le := UInt8.le_refl _
  d_le := UInt8.le_refl _

/-- The range of four spans. The first descending one is reported with its place. -/
def ofSpans? (a b c d : Span) : Except TargetError Range :=
  if ha : a.lo ≤ a.hi then
    if hb : b.lo ≤ b.hi then
      if hc : c.lo ≤ c.hi then
        if hd : d.lo ≤ d.hi then .ok ⟨a, b, c, d, ha, hb, hc, hd⟩
        else .error (.descending 4 d.lo d.hi)
      else .error (.descending 3 c.lo c.hi)
    else .error (.descending 2 b.lo b.hi)
  else .error (.descending 1 a.lo a.hi)

/-- The range whose octets run from those of `first` to those of `last`. -/
def between? (first last : Address) : Except TargetError Range :=
  ofSpans? ⟨first.a, last.a⟩ ⟨first.b, last.b⟩ ⟨first.c, last.c⟩ ⟨first.d, last.d⟩

/-- The number of addresses. -/
def count (r : Range) : Nat := r.a.size * r.b.size * r.c.size * r.d.size

/-- The address at place `i` of the enumeration, if there are that many. The octets are the
digits of `i` in the mixed radix that the spans give, the last octet being the lowest digit. -/
def nth? (r : Range) (i : Nat) : Option Address :=
  if i < r.count then
    let (d, i) := r.d.pick i
    let (c, i) := r.c.pick i
    let (b, i) := r.b.pick i
    some ⟨(r.a.pick i).1, b, c, d⟩
  else none

/-- At most `n` addresses, from place `i` on. -/
def take (r : Range) (n i : Nat) : List Address :=
  (List.range (min n (r.count - i))).filterMap fun k => r.nth? (i + k)

/-- Every address of the range in the order of enumeration. -/
def toList (r : Range) : List Address := r.take r.count 0

instance : Membership Address Range :=
  ⟨fun r x => x.a ∈ r.a ∧ x.b ∈ r.b ∧ x.c ∈ r.c ∧ x.d ∈ r.d⟩

/-! ## Notation -/

/-- The four spans with dots between them. -/
protected def toString (r : Range) : String := ".".intercalate (r.spans.map toString)

instance : ToString Range := ⟨Range.toString⟩

/-- Reads one octet of a pattern: nothing or `*` for the full span, a number, or two numbers
with a hyphen. `text` is the whole pattern, for the report of a fault. -/
def readSpan (text octet : List Char) : Except TargetError Span :=
  if octet = [] ∨ octet = ['*'] then .ok .full
  else
    let read (cs : List Char) : Except TargetError UInt8 :=
      match Text.readUnsigned? 255 (Text.trimmed cs) with
      | some n => .ok (UInt8.ofNat n)
      | none => .error (.badOctet (String.ofList octet) (String.ofList text))
    match Text.splitFirst '-' octet with
    | some (lo, hi) => do return ⟨← read lo, ← read hi⟩
    | none => do return .single (← read octet)

/-- Reads the two ends of a range, if the text is two dotted quads with a hyphen between them. -/
def readEnds? (text : List Char) : Option (Address × Address) := do
  let (first, last) ← Text.splitFirst '-' text
  return (← Address.read? (Text.trimmed first), ← Address.read? (Text.trimmed last))

/-- Reads a pattern of four octets. -/
def readPattern (text : List Char) : Except TargetError Range :=
  match Text.pieces '.' text with
  | [a, b, c, d] => do
    ofSpans? (← readSpan text (Text.trimmed a)) (← readSpan text (Text.trimmed b))
      (← readSpan text (Text.trimmed c)) (← readSpan text (Text.trimmed d))
  | _ => .error (.octetCount (String.ofList text))

/-- Reads a range: two dotted quads with a hyphen, or else a pattern such as `10.0.*.1-20`. -/
def read? (s : String) : Except TargetError Range :=
  let text := Text.trimmed s.toList
  if text = [] then .error .blankRange
  else
    match readEnds? text with
    | some (first, last) => between? first last
    | none => readPattern text

end Range

end OpenRelay
