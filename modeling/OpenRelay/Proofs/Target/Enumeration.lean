import Mathlib.Data.List.Forall2
import Mathlib.Tactic.Tauto
import OpenRelay.Proofs.Target.Places
import OpenRelay.Target.Cursor

/-!
# The enumeration of a range

A place of a range is a number whose digits, in the mixed radix that the spans give, are the
distances of the octets from the lower bounds of their spans. The digits are taken one span after
the other, from the lowest, so what holds of them follows by induction on the spans.

* `Span.digits_mem`, `Span.exists_digits`: the digits of places are the octets of the spans, all of
  them.
* `Span.weight_digits_lt`: a higher place has the higher address.
* `Range.enumerated`: a range is walked through in ascending order, without an overflow.
-/

namespace OpenRelay

namespace Span

variable {s : Span} {ss : List Span} {o : UInt8} {os : List UInt8} {i j : Nat}

/-! ## One octet -/

/-- What is counted off in a span stays below the upper bound. -/
theorem offset_le (h : s.lo ≤ s.hi) (i : Nat) : s.lo.toNat + i % s.size ≤ s.hi.toNat := by
  have hmod := Nat.mod_lt i (size_pos h)
  have hle := UInt8.le_iff_toNat_le.1 h
  unfold size at hmod ⊢
  omega

/-- Neither the sum nor the conversion in a pick wraps round. -/
theorem toNat_pick (h : s.lo ≤ s.hi) (i : Nat) :
    (s.pick i).1.toNat = s.lo.toNat + i % s.size := by
  have hle := offset_le h i
  have hlt := s.hi.toNat_lt
  simp only [pick, UInt8.toNat_add, UInt8.toNat_ofNat']
  omega

theorem pick_mem (h : s.lo ≤ s.hi) (i : Nat) : (s.pick i).1 ∈ s := by
  have hpick := toNat_pick h i
  have hle := offset_le h i
  refine ⟨UInt8.le_iff_toNat_le.2 ?_, UInt8.le_iff_toNat_le.2 ?_⟩ <;> omega

/-- In each round every octet of a span is picked. -/
theorem exists_pick (ho : o ∈ s) (rounds : Nat) :
    ∃ k < s.size, s.pick (k + s.size * rounds) = (o, rounds) := by
  obtain ⟨hlo, hhi⟩ := ho
  have h : s.lo ≤ s.hi := UInt8.le_trans hlo hhi
  have hlo' := UInt8.le_iff_toNat_le.1 hlo
  have hhi' := UInt8.le_iff_toNat_le.1 hhi
  have hk : o.toNat - s.lo.toNat < s.size := by unfold size; omega
  refine ⟨o.toNat - s.lo.toNat, hk, Prod.ext (UInt8.toNat_inj.1 ?_) ?_⟩
  · rw [toNat_pick h, Nat.add_mul_mod_self_left, Nat.mod_eq_of_lt hk]
    exact Nat.add_sub_cancel' hlo'
  · show (_ + s.size * rounds) / s.size = rounds
    rw [Nat.add_mul_div_left _ _ (size_pos h), Nat.div_eq_of_lt hk, Nat.zero_add]

/-! ## Several octets -/

/-- The octets at a place of the product of spans, the one of the lowest digit first. -/
def digits : List Span → Nat → List UInt8
  | [], _ => []
  | s :: rest, i => (s.pick i).1 :: digits rest (s.pick i).2

/-- The number of places of the product of spans. -/
def places : List Span → Nat
  | [] => 1
  | s :: rest => s.size * places rest

/-- The number whose base-256 digits are the octets, the lowest first. -/
def weight : List UInt8 → Nat
  | [] => 0
  | o :: rest => weight rest * 256 + o.toNat

theorem digits_mem (h : ∀ s ∈ ss, s.lo ≤ s.hi) (i : Nat) :
    List.Forall₂ (fun o s => o ∈ s) (digits ss i) ss := by
  induction ss generalizing i with
  | nil => exact .nil
  | cons s rest ih =>
    obtain ⟨hs, hrest⟩ := List.forall_mem_cons.1 h
    exact .cons (pick_mem hs i) (ih hrest _)

/-- **All octets of the spans are digits of some place.** -/
theorem exists_digits (h : List.Forall₂ (fun o s => o ∈ s) os ss) :
    ∃ i < places ss, digits ss i = os := by
  induction h with
  | nil => exact ⟨0, Nat.zero_lt_one, rfl⟩
  | @cons o s os ss ho _ ih =>
    obtain ⟨rounds, hrounds, hdigits⟩ := ih
    obtain ⟨k, hk, hpick⟩ := exists_pick ho rounds
    refine ⟨k + s.size * rounds, ?_, ?_⟩
    · calc k + s.size * rounds
        _ < s.size + s.size * rounds := Nat.add_lt_add_right hk _
        _ = s.size * (rounds + 1) := by rw [Nat.mul_succ, Nat.add_comm]
        _ ≤ s.size * places ss := Nat.mul_le_mul_left _ hrounds
    · rw [digits, hpick, hdigits]

/-- **A higher place has the higher number.** The rounds decide, and within a round the octet. -/
theorem weight_digits_lt (h : ∀ s ∈ ss, s.lo ≤ s.hi) (hij : i < j) (hj : j < places ss) :
    weight (digits ss i) < weight (digits ss j) := by
  induction ss generalizing i j with
  | nil =>
    rw [places] at hj
    omega
  | cons s rest ih =>
    obtain ⟨hs, hrest⟩ := List.forall_mem_cons.1 h
    have hi := toNat_pick hs i
    have hj' := toNat_pick hs j
    have hlt := (s.pick i).1.toNat_lt
    rw [places, Nat.mul_comm] at hj
    simp only [digits, weight]
    have hle : i / s.size ≤ j / s.size := Nat.div_le_div_right (Nat.le_of_lt hij)
    rcases Nat.lt_or_eq_of_le hle with hdiv | hdiv
    · -- the rounds differ, so that the rest of the digits decides
      have hmore : weight (digits rest (s.pick i).2) < weight (digits rest (s.pick j).2) :=
        ih hrest hdiv (Nat.div_lt_of_lt_mul (by rwa [Nat.mul_comm]))
      omega
    · have hrounds : (s.pick i).2 = (s.pick j).2 := hdiv
      have hmod : i % s.size < j % s.size := by
        have h1 := Nat.div_add_mod i s.size
        have h2 := Nat.div_add_mod j s.size
        rw [hdiv] at h1
        omega
      rw [hrounds]
      omega

/-- Spans of all octets have the most places. -/
theorem places_le (ss : List Span) : places ss ≤ places (List.replicate ss.length ⟨0, 255⟩) := by
  induction ss with
  | nil => exact Nat.le_refl _
  | cons s rest ih => exact Nat.mul_le_mul s.size_le ih

end Span

namespace Range

variable {r : Range} {x y : Address} {i j : Nat}

/-- The spans in the order of their digits. -/
def radix (r : Range) : List Span := [r.d, r.c, r.b, r.a]

theorem lo_le_hi {s : Span} (h : s ∈ r.radix) : s.lo ≤ s.hi := by
  simp only [radix, List.mem_cons, List.not_mem_nil, or_false] at h
  rcases h with rfl | rfl | rfl | rfl
  · exact r.d_le
  · exact r.c_le
  · exact r.b_le
  · exact r.a_le

theorem count_eq_places (r : Range) : r.count = Span.places r.radix := by
  simp only [count, Span.places, radix, Nat.mul_one]
  ac_rfl

/-- **The address at a place** is the one whose octets are the digits of the place. -/
theorem nth?_eq_some_iff :
    r.nth? i = some x ↔ i < r.count ∧ Span.digits r.radix i = x.octets.reverse := by
  obtain ⟨a, b, c, d⟩ := x
  unfold nth?
  split
  case isTrue h =>
    simp only [h, true_and, Option.some.injEq, radix, Span.digits, Address.mk.injEq,
      Address.octets, List.reverse_cons, List.reverse_nil, List.nil_append, List.cons_append,
      List.cons.injEq, and_true]
    tauto
  case isFalse h => simp [h]

theorem toNat_eq_weight (x : Address) : x.toNat = Span.weight x.octets.reverse := by
  simp [Address.toNat, Address.octets, Span.weight]

theorem mem_iff : x ∈ r ↔ List.Forall₂ (fun o s => o ∈ s) x.octets.reverse r.radix := by
  show (x.a ∈ r.a ∧ x.b ∈ r.b ∧ x.c ∈ r.c ∧ x.d ∈ r.d) ↔ _
  simp only [Address.octets, radix, List.reverse_cons, List.reverse_nil, List.nil_append,
    List.cons_append, List.forall₂_cons, List.forall₂_nil_right_iff, and_true]
  tauto

/-- A range holds the addresses at its places, and no others. -/
theorem exists_nth?_iff : (∃ i, r.nth? i = some x) ↔ x ∈ r := by
  simp only [nth?_eq_some_iff, mem_iff]
  constructor
  · rintro ⟨i, -, hdigits⟩
    exact hdigits ▸ Span.digits_mem (fun s hs => lo_le_hi hs) i
  · intro h
    obtain ⟨i, hi, hdigits⟩ := Span.exists_digits h
    exact ⟨i, r.count_eq_places ▸ hi, hdigits⟩

/-- A higher place has the higher address. -/
theorem toNat_lt_of_nth? (hx : r.nth? i = some x) (hy : r.nth? j = some y) (hij : i < j) :
    x.toNat < y.toNat := by
  obtain ⟨-, hi⟩ := nth?_eq_some_iff.1 hx
  obtain ⟨hlt, hj⟩ := nth?_eq_some_iff.1 hy
  rw [toNat_eq_weight, toNat_eq_weight, ← hi, ← hj]
  exact Span.weight_digits_lt (fun s hs => lo_le_hi hs) hij (r.count_eq_places ▸ hlt)

/-- The answers to so many readings from a cursor. -/
def Cursor.readings (c : Cursor) : Nat → List (Option Address)
  | 0 => []
  | n + 1 => c.next.1 :: c.next.2.readings n

/-- A cursor reads one place after the other, and nothing once it has passed the last. -/
theorem Cursor.readings_eq (c : Cursor) (n : Nat) :
    c.readings n = (List.range n).map fun k => c.range.nth? (c.place + k) := by
  induction n generalizing c with
  | zero => rfl
  | succ n ih =>
    rw [readings, ih, List.range_succ_eq_map, List.map_cons, List.map_map]
    unfold next
    cases h : c.range.nth? c.place with
    | some x => simp [Function.comp_def, Nat.add_right_comm, ← Nat.add_assoc]
    | none =>
      have hle : c.range.count ≤ c.place := by
        rw [← Nat.not_lt, ← isSome_nth?, h]
        simp
      have hnone : ∀ k, c.range.nth? (c.place + k) = none := fun k => by
        rw [← Option.not_isSome_iff_eq_none, isSome_nth?]
        omega
      simp [hnone, Function.comp_def]

/-- What is true of the enumeration of a range. -/
structure Enumerated (r : Range) : Prop where
  /-- The addresses listed are those whose octets lie in the spans. -/
  mem_iff : ∀ x, x ∈ r.toList ↔ x.a ∈ r.a ∧ x.b ∈ r.b ∧ x.c ∈ r.c ∧ x.d ∈ r.d
  /-- They ascend, so that none of them is listed twice. -/
  ascending : r.toList.Pairwise fun x y => x.toNat < y.toNat
  once : r.toList.Nodup
  count : r.toList.length = r.count
  /-- Each place below the count has its address, and no other place has one. -/
  nth : ∀ i, r.nth? i = r.toList[i]?
  /-- A cursor reads them one after the other, and then nothing more. -/
  readings : ∀ n, ({ range := r } : Cursor).readings n = (List.range n).map fun i => r.toList[i]?
  /-- An octet is found without a division by zero, and neither its distance from the lower bound
  nor their sum is too large for an octet. -/
  octet : ∀ s ∈ r.spans, 0 < s.size ∧
    ∀ i, i % s.size < UInt8.size ∧ s.lo.toNat + i % s.size < UInt8.size
  /-- No product on the way to the count is too large for a 64-bit word. -/
  product : ∀ part, part <+: r.spans → Span.places part < UInt64.size

theorem mem_toList : x ∈ r.toList ↔ x ∈ r := by
  rw [List.mem_iff_getElem?, ← exists_nth?_iff]
  simp only [getElem?_toList]

theorem ascending_toList (r : Range) : r.toList.Pairwise fun x y => x.toNat < y.toNat := by
  refine List.pairwise_iff_getElem.2 fun i j hi hj hij => ?_
  have hx : r.nth? i = some r.toList[i] := by rw [← getElem?_toList, List.getElem?_eq_getElem hi]
  have hy : r.nth? j = some r.toList[j] := by rw [← getElem?_toList, List.getElem?_eq_getElem hj]
  exact toNat_lt_of_nth? hx hy hij

/-- **A range is walked through in ascending order**: each of its addresses comes once, at its
place, and nothing overflows on the way. -/
theorem enumerated (r : Range) : r.Enumerated where
  mem_iff _ := mem_toList
  ascending := r.ascending_toList
  once := r.ascending_toList.imp fun h heq => Nat.ne_of_lt h (congrArg Address.toNat heq)
  count := (Targets.range r).length_toList
  nth i := (r.getElem?_toList i).symm
  readings n := by
    rw [Cursor.readings_eq]
    simp only [Nat.zero_add, getElem?_toList]
  octet s hs := by
    have h : s.lo ≤ s.hi := lo_le_hi (List.mem_reverse.1 hs)
    refine ⟨Span.size_pos h, fun i => ?_⟩
    have hle := Span.offset_le h i
    have hlt := s.hi.toNat_lt
    unfold UInt8.size
    omega
  product part hpart := by
    have hmost : ∀ n ≤ 4, Span.places (List.replicate n ⟨0, 255⟩) < UInt64.size := by decide
    exact Nat.lt_of_le_of_lt (Span.places_le part) (hmost _ hpart.length_le)

/-- The last octet runs fastest. -/
example : ({ a := .single 10, b := .single 0, c := ⟨0, 1⟩, d := ⟨1, 2⟩ } : Range).toList =
    [⟨10, 0, 0, 1⟩, ⟨10, 0, 0, 2⟩, ⟨10, 0, 1, 1⟩, ⟨10, 0, 1, 2⟩] := by decide

end Range

end OpenRelay
