import OpenRelay.Proofs.Target.Enumeration

/-!
# Walks through addresses

A walk is asked for the next address, for one further on, or for how much is still to come. Walks jump
in different ways: a cursor of a range does so at once, and may come to stand far behind the last
address, where one that reads address by address stops. This is not seen in their answers, as these
depend on the addresses that are still to come, and on nothing else.

* `Walker.Reads`: a walk is what it does to that list.
* `Walker.Reads.answers_eq`: two walks with the same addresses still to come answer all calls alike.
* `Range.walks_agree`: a cursor of a range answers like the list of all its addresses, read from its
  head, and so does a cursor of targets.
-/

namespace OpenRelay

/-- A way to walk through addresses: reading the next one, reading one behind some others, and saying
how many are still to come. -/
structure Walker (σ : Type) where
  next : σ → Option Address × σ
  nth : σ → Nat → Option Address × σ
  bounds : σ → Nat × Option Nat

namespace Walker

/-- What a walk is asked. -/
inductive Call where
  | next
  /-- The address behind the next `n`. -/
  | nth (n : Nat)
  | bounds

/-- What it answers. -/
inductive Answer where
  | address (x : Option Address)
  | bounds (b : Nat × Option Nat)
deriving DecidableEq

variable {σ τ : Type} {w : Walker σ} {v : Walker τ} {rest : σ → List Address}
  {rest' : τ → List Address} {s : σ} {t : τ}

/-- The answer to a call, and where it leads. -/
def call (w : Walker σ) (s : σ) : Call → Answer × σ
  | .next => (.address (w.next s).1, (w.next s).2)
  | .nth n => (.address (w.nth s n).1, (w.nth s n).2)
  | .bounds => (.bounds (w.bounds s), s)

/-- The answers to calls that come one after the other. -/
def answers (w : Walker σ) (s : σ) : List Call → List Answer
  | [] => []
  | c :: calls => (w.call s c).1 :: w.answers (w.call s c).2 calls

/-- Where calls lead. -/
def after (w : Walker σ) (s : σ) : List Call → σ
  | [] => s
  | c :: calls => w.after (w.call s c).2 calls

/-- What no call changes holds after all of them. -/
theorem after_induction {p : σ → Prop} (hs : p s) (h : ∀ s c, p s → p (w.call s c).2)
    (calls : List Call) : p (w.after s calls) := by
  induction calls generalizing s with
  | nil => exact hs
  | cons c calls ih => exact ih (h s c hs)

/-- Reads `n` addresses and then one more, one after the other, and stops where they end. -/
def nthByNext (next : σ → Option Address × σ) (s : σ) : Nat → Option Address × σ
  | 0 => next s
  | n + 1 =>
    match next s with
    | (some _, s) => nthByNext next s n
    | (none, s) => (none, s)

/-! ## What is still to come -/

/-- Reading takes the first address off what is still to come. -/
def ReadsNext (next : σ → Option Address × σ) (rest : σ → List Address) : Prop :=
  ∀ s, (next s).1 = (rest s).head? ∧ rest (next s).2 = (rest s).tail

/-- **A walk is what it does to the addresses that are still to come.** -/
structure Reads (w : Walker σ) (rest : σ → List Address) : Prop where
  next : ReadsNext w.next rest
  nth : ∀ s n, (w.nth s n).1 = (rest s)[n]? ∧ rest (w.nth s n).2 = (rest s).drop (n + 1)
  bounds : ∀ s, w.bounds s = ((rest s).length, some (rest s).length)

/-- Reading address by address takes off what is skipped and one more. -/
theorem ReadsNext.nthByNext {next : σ → Option Address × σ} (h : ReadsNext next rest) (s : σ)
    (n : Nat) : (nthByNext next s n).1 = (rest s)[n]? ∧
      rest (nthByNext next s n).2 = (rest s).drop (n + 1) := by
  induction n generalizing s with
  | zero =>
    rw [← List.head?_eq_getElem?, Nat.zero_add, List.drop_one]
    exact h s
  | succ n ih =>
    obtain ⟨hread, hrest⟩ := h s
    rw [Walker.nthByNext]
    generalize next s = found at hread hrest
    obtain ⟨x, s'⟩ := found
    dsimp only at hread hrest
    cases hs : rest s with
    | nil =>
      rw [hs] at hread hrest
      cases hread
      exact ⟨rfl, hrest⟩
    | cons y ys =>
      rw [hs] at hread hrest
      cases hread
      have hlater := ih s'
      rw [hrest] at hlater
      exact hlater

/-- What is still to come for a state that knows its place in a list, if it moves on exactly when it
has read an address. -/
theorem readsNext_of_place {next : σ → Option Address × σ} {all : σ → List Address} {place : σ → Nat}
    (hread : ∀ s, (next s).1 = (all s)[place s]?) (hall : ∀ s, all (next s).2 = all s)
    (hplace : ∀ s, place (next s).2 = if (next s).1.isSome then place s + 1 else place s) :
    ReadsNext next fun s => (all s).drop (place s) := by
  intro s
  refine ⟨by rw [hread, List.head?_drop], ?_⟩
  show (all (next s).2).drop (place (next s).2) = _
  rw [List.tail_drop, hall, hplace, hread]
  cases h : (all s)[place s]? with
  | some x => rfl
  | none =>
    have hend : (all s).length ≤ place s := List.getElem?_eq_none_iff.1 h
    show (all s).drop (place s) = _
    rw [List.drop_of_length_le hend, List.drop_of_length_le (Nat.le_succ_of_le hend)]

/-- Each call is answered alike, and leaves the same addresses. -/
theorem Reads.call_eq (hw : w.Reads rest) (hv : v.Reads rest') (h : rest s = rest' t) (c : Call) :
    (w.call s c).1 = (v.call t c).1 ∧ rest (w.call s c).2 = rest' (v.call t c).2 := by
  cases c with
  | next =>
    simp only [call, (hw.next s).1, (hw.next s).2, (hv.next t).1, (hv.next t).2, h, and_self]
  | nth n =>
    simp only [call, (hw.nth s n).1, (hw.nth s n).2, (hv.nth t n).1, (hv.nth t n).2, h, and_self]
  | bounds => simp only [call, hw.bounds s, hv.bounds t, h, and_self]

/-- **Walks with the same addresses still to come answer all calls alike.** -/
theorem Reads.answers_eq (hw : w.Reads rest) (hv : v.Reads rest') (h : rest s = rest' t)
    (calls : List Call) : w.answers s calls = v.answers t calls := by
  induction calls generalizing s t with
  | nil => rfl
  | cons c calls ih =>
    obtain ⟨hanswer, hrest⟩ := hw.call_eq hv h c
    rw [answers, answers, hanswer, ih hrest]

/-- What is still to come is the end of what was. -/
theorem Reads.suffix (hw : w.Reads rest) (s : σ) (calls : List Call) :
    rest (w.after s calls) <:+ rest s := by
  refine after_induction (p := fun s' => rest s' <:+ rest s) List.suffix_rfl
    (fun s' c hs' => ?_) calls
  refine List.IsSuffix.trans ?_ hs'
  cases c with
  | next => exact (hw.next s').2 ▸ List.tail_suffix _
  | nth n => exact (hw.nth s' n).2 ▸ List.drop_suffix _ _
  | bounds => exact List.suffix_rfl

/-- The answers of a walk that has come to its end. -/
def Answer.IsLast (a : Answer) : Prop := a = .address none ∨ a = .bounds (0, some 0)

/-- A call that finds no address leaves none. -/
theorem Reads.ended (hw : w.Reads rest) {c : Call} (h : (w.call s c).1 = .address none) :
    rest (w.call s c).2 = [] := by
  cases c with
  | next =>
    have hnone : (rest s).head? = none := (hw.next s).1 ▸ Answer.address.inj h
    rw [call, (hw.next s).2, List.head?_eq_none_iff.1 hnone, List.tail_nil]
  | nth n =>
    have hnone : (rest s)[n]? = none := (hw.nth s n).1 ▸ Answer.address.inj h
    rw [call, (hw.nth s n).2, List.drop_eq_nil_iff]
    exact Nat.le_succ_of_le (List.getElem?_eq_none_iff.1 hnone)
  | bounds => cases h

/-- **A walk that has come to its end stays there.** -/
theorem Reads.isLast (hw : w.Reads rest) (h : rest s = []) (calls : List Call) :
    ∀ a ∈ w.answers s calls, a.IsLast := by
  induction calls generalizing s with
  | nil => simp [answers]
  | cons c calls ih =>
    rw [answers, List.forall_mem_cons]
    have hempty : rest (w.call s c).2 = [] := by
      cases c with
      | next => rw [call, (hw.next s).2, h, List.tail_nil]
      | nth n => rw [call, (hw.nth s n).2, h, List.drop_nil]
      | bounds => exact h
    refine ⟨?_, ih hempty⟩
    cases c with
    | next => exact .inl (by rw [call, (hw.next s).1, h, List.head?_nil])
    | nth n => exact .inl (by rw [call, (hw.nth s n).1, h, List.getElem?_nil])
    | bounds => exact .inr (by rw [call, hw.bounds s, h, List.length_nil])

end Walker

/-! ## Three walks -/

/-- A list is read from its head, address by address, and its length is known. -/
def listWalker : Walker (List Address) where
  next xs := (xs.head?, xs.tail)
  nth := Walker.nthByNext fun xs => (xs.head?, xs.tail)
  bounds xs := (xs.length, some xs.length)

theorem listWalker_readsNext : Walker.ReadsNext listWalker.next id := fun _ => ⟨rfl, rfl⟩

theorem listWalker_reads : listWalker.Reads id where
  next := listWalker_readsNext
  nth := listWalker_readsNext.nthByNext
  bounds _ := rfl

namespace Range

/-- The walk of a cursor of a range. -/
def walker : Walker Cursor := ⟨Cursor.next, Cursor.nth, Cursor.bounds⟩

theorem length_toList (r : Range) : r.toList.length = r.count := (Targets.range r).length_toList

/-- No range has more addresses than a 64-bit word can count. -/
theorem count_lt_lastPlace (r : Range) : r.count < lastPlace := by
  have hmost : Span.places (List.replicate 4 ⟨0, 255⟩) < lastPlace := by decide
  exact r.count_eq_places ▸ Nat.lt_of_le_of_lt (Span.places_le r.radix) hmost

/-- The addresses from the place of a cursor on. -/
def Cursor.rest (c : Cursor) : List Address := c.range.toList.drop c.place

theorem Cursor.readsNext : Walker.ReadsNext Cursor.next Cursor.rest := by
  refine Walker.readsNext_of_place (fun c => ?_) (fun c => ?_) (fun c => ?_) <;>
    unfold next <;> cases h : c.range.nth? c.place <;> simp [getElem?_toList, h]

theorem Cursor.length_rest (c : Cursor) : c.rest.length = c.remaining := by
  rw [rest, List.length_drop, length_toList, remaining]

/-- The number of addresses still to come is always told. -/
theorem Cursor.bounds_eq (c : Cursor) : c.bounds = (c.remaining, some c.remaining) := by
  have hfits : c.remaining ≤ lastPlace :=
    Nat.le_trans (Nat.sub_le _ _) (Nat.le_of_lt c.range.count_lt_lastPlace)
  exact if_pos hfits

/-- **A jump passes over what comes before its end**, though places go no further than a word. There
are no addresses so far out. -/
theorem Cursor.rest_jump (c : Cursor) (n : Nat) :
    ({ c with place := min (c.place + n) lastPlace } : Cursor).rest = c.rest.drop n := by
  rw [rest, rest, List.drop_drop]
  rcases Nat.le_total (c.place + n) lastPlace with hnear | hfar
  · rw [Nat.min_eq_left hnear]
  · have hlast : c.range.toList.length ≤ lastPlace :=
      c.range.length_toList ▸ Nat.le_of_lt c.range.count_lt_lastPlace
    rw [Nat.min_eq_right hfar, List.drop_of_length_le hlast,
      List.drop_of_length_le (Nat.le_trans hlast hfar)]

theorem walker_reads : walker.Reads Cursor.rest where
  next := Cursor.readsNext
  nth c n := by
    obtain ⟨hread, hrest⟩ := Cursor.readsNext { c with place := min (c.place + n) lastPlace }
    rw [Cursor.rest_jump] at hread hrest
    rw [List.head?_drop] at hread
    rw [List.tail_drop] at hrest
    exact ⟨hread, hrest⟩
  bounds c := c.length_rest ▸ c.bounds_eq

/-- Readings from a cursor are what is still to come, and then nothing. -/
theorem Cursor.readings_eq_rest (c : Cursor) (n : Nat) :
    c.readings n = (List.range n).map fun k => c.rest[k]? := by
  rw [readings_eq]
  refine List.map_congr_left fun k _ => ?_
  rw [rest, List.getElem?_drop, getElem?_toList]

/-- **No call takes a cursor to a place that a word cannot name.** A step is taken from an address, and
a jump goes no further than the last place before it. -/
theorem Cursor.place_call_le (c : Cursor) (call : Walker.Call) (h : c.place ≤ lastPlace) :
    (walker.call c call).2.place ≤ lastPlace := by
  have hstep : ∀ c : Cursor, c.place ≤ lastPlace → c.next.2.place ≤ lastPlace := by
    intro c hc
    rw [next]
    cases hread : c.range.nth? c.place with
    | none => exact hc
    | some x =>
      have hlt : c.place < c.range.count := by
        rw [← isSome_nth?, hread]
        rfl
      exact Nat.le_trans hlt (Nat.le_of_lt c.range.count_lt_lastPlace)
  cases call with
  | next => exact hstep c h
  | nth n => exact hstep { c with place := min (c.place + n) lastPlace } (Nat.min_le_right _ _)
  | bounds => exact h

end Range

namespace Targets

/-- The walk of a cursor of targets. -/
def walker : Walker Cursor := ⟨Cursor.next, Cursor.nth, Cursor.bounds⟩

/-- The targets from the place of a cursor on. -/
def Cursor.rest (c : Cursor) : List Address := c.targets.toList.drop c.place

theorem Cursor.readsNext : Walker.ReadsNext Cursor.next Cursor.rest := by
  refine Walker.readsNext_of_place (fun c => ?_) (fun c => ?_) (fun c => ?_) <;>
    unfold next <;> cases h : c.targets.nth? c.place <;> simp [getElem?_toList, h]

theorem Cursor.length_rest (c : Cursor) : c.rest.length = c.remaining := by
  rw [rest, List.length_drop, length_toList, remaining]

theorem Cursor.bounds_eq (c : Cursor) : c.bounds = (c.remaining, some c.remaining) := by
  obtain ⟨r | xs, place⟩ := c
  · exact Range.Cursor.bounds_eq ⟨r, place⟩
  · rfl

theorem Cursor.nth_eq_nthByNext (c : Cursor) (n : Nat) :
    c.nth n = Walker.nthByNext Cursor.next c n := by
  induction n generalizing c with
  | zero => rfl
  | succ n ih =>
    rw [nth, Walker.nthByNext]
    rcases c.next with ⟨_ | x, c'⟩
    · rfl
    · exact ih c'

theorem walker_reads : walker.Reads Cursor.rest where
  next := Cursor.readsNext
  nth c n := by
    have h := Cursor.readsNext.nthByNext c n
    rwa [← Cursor.nth_eq_nthByNext] at h
  bounds c := c.length_rest ▸ c.bounds_eq

end Targets

/-! ## Walks through a range -/

namespace Range

/-- What is true of the calls on a cursor of a range. -/
structure Walked (r : Range) : Prop where
  /-- They are answered as if all addresses stood in a list that is read from its head. -/
  cursor : ∀ calls, walker.answers { range := r } calls = listWalker.answers r.toList calls
  /-- So are those on a cursor of targets that are the range, which reads address by address. -/
  targets : ∀ calls,
    Targets.walker.answers { targets := .range r } calls = listWalker.answers r.toList calls
  /-- After any of them some addresses at the end of the range are still to come: so many as is said,
  and they are read one after the other, and then nothing more. -/
  bounds : ∀ calls, ∃ rest, rest <:+ r.toList ∧
    (walker.after { range := r } calls).bounds = (rest.length, some rest.length) ∧
    ∀ n, (walker.after { range := r } calls).readings n = (List.range n).map fun k => rest[k]?
  /-- A cursor that has found no address finds none later on. -/
  ended : ∀ calls c, (walker.call (walker.after { range := r } calls) c).1 = .address none →
    ∀ later, ∀ a ∈ walker.answers (walker.call (walker.after { range := r } calls) c).2 later,
      a.IsLast
  /-- None of them takes the place beyond what a 64-bit word can hold, though it is counted without a
  bound here. So a step never wraps round. -/
  place_lt : ∀ calls, (walker.after { range := r } calls).place < UInt64.size

/-- **A cursor that jumps is not told from one that reads address by address.** -/
theorem walks_agree (r : Range) : r.Walked where
  cursor calls := walker_reads.answers_eq listWalker_reads rfl calls
  targets calls := Targets.walker_reads.answers_eq listWalker_reads rfl calls
  bounds calls :=
    ⟨_, walker_reads.suffix _ calls, walker_reads.bounds _, Cursor.readings_eq_rest _⟩
  ended _ _ h later := walker_reads.isLast (walker_reads.ended h) later
  place_lt calls := Nat.lt_succ_of_le <|
    Walker.after_induction (p := fun c : Cursor => c.place ≤ lastPlace) (Nat.zero_le _)
      Cursor.place_call_le calls

/-- A jump beyond the last address, to the last place there is. -/
example : walker.answers { range := .single .unspecified }
    [.bounds, .nth 0xFFFFFFFFFFFFFFFF, .next, .bounds] =
      [.bounds (1, some 1), .address none, .address none, .bounds (0, some 0)] := by decide

end Range

end OpenRelay
