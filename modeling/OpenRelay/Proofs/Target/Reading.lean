import OpenRelay.Proofs.Target.Address
import OpenRelay.Target.Range

/-!
# Ranges written and read

A hyphen stands between the two ends of a range, but also between the two bounds of a span. A text
is first taken for two ends.

* `Range.readPattern_toString`: a range is read from the pattern that it is written as.
* `Range.Ends`, `Range.readEnds?_eq_some_iff`: the texts of two ends, and that they are read.
* `Range.Ends.length_pieces`: two ends have six dots, so they are no pattern, which has three.
* `Range.read_written`: what is written is read, and the two forms do not get into each other's way.
-/

namespace OpenRelay

variable {cs text : List Char} {x y : Address} {r : Range} {s : Span}

namespace Span

/-! ## Spans -/

theorem toList_toString (s : Span) : s.toString.toList =
    if s.lo = s.hi then Address.digits s.lo
    else Address.digits s.lo ++ '-' :: Address.digits s.hi := by
  have hhyphen : (toString "-").toList = ['-'] := rfl
  unfold Span.toString
  split <;> simp [Address.digits, Nat.repr, hhyphen]

/-- A span is written in digits and hyphens. -/
theorem isDigit_or_hyphen {c : Char} (hc : c ∈ s.toString.toList) :
    c.isDigit = true ∨ c = '-' := by
  have hdigit (o : UInt8) (h : c ∈ Address.digits o) : c.isDigit = true :=
    (Text.decimal_toDigits o.toNat).digits c h
  rw [toList_toString] at hc
  split at hc
  · exact .inl (hdigit _ hc)
  · rw [List.mem_append, List.mem_cons] at hc
    rcases hc with hc | rfl | hc
    · exact .inl (hdigit _ hc)
    · exact .inr rfl
    · exact .inl (hdigit _ hc)

theorem isBlank_of_mem {c : Char} (hc : c ∈ s.toString.toList) : Text.isBlank c = false := by
  rcases isDigit_or_hyphen hc with hdigit | rfl
  · exact Text.isBlank_of_isDigit hdigit
  · decide

theorem dot_not_mem_toString (s : Span) : '.' ∉ s.toString.toList := fun hc =>
  (isDigit_or_hyphen hc).elim (fun h => absurd h (by decide)) fun h => absurd h (by decide)

end Span

namespace Range

/-! ## Patterns -/

theorem readUnsigned?_digits (o : UInt8) :
    Text.readUnsigned? 255 (Text.trimmed (Address.digits o)) = some o.toNat := by
  have hdecimal := Text.decimal_toDigits o.toNat
  have hvisible : Text.trimmed (Address.digits o) = Address.digits o :=
    Text.trimmed_of_visible fun c hc => Text.isBlank_of_isDigit (hdecimal.digits c hc)
  have hlt := o.toNat_lt
  rw [hvisible, Text.readUnsigned?_eq_some_iff]
  exact ⟨by omega, .inl hdecimal⟩

theorem readSpan_digits (text : List Char) (o : UInt8) :
    readSpan text (Address.digits o) = .ok (.single o) := by
  have hdecimal : Text.Decimal (Address.digits o) o.toNat := Text.decimal_toDigits o.toNat
  have hfull : ¬ (Address.digits o = [] ∨ Address.digits o = ['*']) := by
    rintro (hnil | hstar)
    · exact hdecimal.nonempty hnil
    · exact absurd (hdecimal.digits '*' (hstar ▸ List.mem_singleton_self _)) (by decide)
  unfold readSpan
  rw [if_neg hfull, Text.splitFirst_eq_none (Address.not_mem_digits (by decide) o)]
  simp only [readUnsigned?_digits, UInt8.ofNat_toNat]
  rfl

theorem readSpan_bounds (text : List Char) (lo hi : UInt8) :
    readSpan text (Address.digits lo ++ '-' :: Address.digits hi) = .ok ⟨lo, hi⟩ := by
  have hfull : ¬ (Address.digits lo ++ '-' :: Address.digits hi = [] ∨
      Address.digits lo ++ '-' :: Address.digits hi = ['*']) := by
    have hmem : '-' ∈ Address.digits lo ++ '-' :: Address.digits hi := by simp
    rintro (h | h) <;> simp [h] at hmem
  unfold readSpan
  rw [if_neg hfull, Text.splitFirst_append (Address.not_mem_digits (by decide) lo)]
  simp only [readUnsigned?_digits, UInt8.ofNat_toNat]
  rfl

/-- **A span is read from what it is written as.** -/
theorem readSpan_toString (text : List Char) (s : Span) :
    readSpan text s.toString.toList = .ok s := by
  obtain ⟨lo, hi⟩ := s
  rw [Span.toList_toString]
  split
  · rename_i heq
    obtain rfl : lo = hi := heq
    exact readSpan_digits text lo
  · exact readSpan_bounds text lo hi

theorem toList_toString (r : Range) : r.toString.toList =
    r.a.toString.toList ++ '.' :: (r.b.toString.toList ++ '.' ::
      (r.c.toString.toList ++ '.' :: r.d.toString.toList)) := by
  simp [Range.toString, spans, toString]

theorem pieces_toString (r : Range) : Text.pieces '.' r.toString.toList =
    [r.a.toString.toList, r.b.toString.toList, r.c.toString.toList, r.d.toString.toList] := by
  have hdot := Span.dot_not_mem_toString
  rw [toList_toString, Text.pieces_append (hdot _), Text.pieces_append (hdot _),
    Text.pieces_append (hdot _), Text.pieces_eq_splitOn, List.splitOn_eq_singleton (hdot _)]

theorem trimmed_toString (r : Range) : Text.trimmed r.toString.toList = r.toString.toList := by
  refine Text.trimmed_of_visible fun c hc => ?_
  rw [toList_toString] at hc
  simp only [List.mem_append, List.mem_cons] at hc
  rcases hc with hc | rfl | hc | rfl | hc | rfl | hc
  all_goals first
    | exact Span.isBlank_of_mem hc
    | decide

/-- **A range is read from the pattern that it is written as.** -/
theorem readPattern_toString (r : Range) : readPattern r.toString.toList = .ok r := by
  have hspan (s : Span) : readSpan r.toString.toList (Text.trimmed s.toString.toList) = .ok s := by
    rw [Text.trimmed_of_visible fun _ => Span.isBlank_of_mem, readSpan_toString]
  unfold readPattern
  rw [pieces_toString]
  simp only [hspan]
  show ofSpans? r.a r.b r.c r.d = .ok r
  rw [ofSpans?, dif_pos r.a_le, dif_pos r.b_le, dif_pos r.c_le, dif_pos r.d_le]

/-- A pattern has three dots. -/
theorem length_pieces_of_readPattern (h : readPattern cs = .ok r) :
    (Text.pieces '.' cs).length = 4 := by
  unfold readPattern at h
  split at h
  · rename_i hpieces
    rw [hpieces]
    rfl
  · cases h

/-! ## Two ends -/

/-- A text of the two ends of a range: two addresses with a hyphen between them, and blanks around
each. -/
def Ends (x y : Address) (cs : List Char) : Prop :=
  ∃ first last, Text.Padded x.toString.toList first ∧ Text.Padded y.toString.toList last ∧
    cs = first ++ '-' :: last

/-- Two ends have six dots. -/
theorem Ends.length_pieces (h : Ends x y cs) : (Text.pieces '.' cs).length = 7 := by
  have hcount {x : Address} {text : List Char} (h : Text.Padded x.toString.toList text) :
      text.count '.' = 3 := by
    have hlength := Text.length_pieces '.' x.toString.toList
    rw [x.pieces_toString, List.length_cons, Nat.add_right_cancel_iff] at hlength
    rw [h.count_eq (by decide), ← hlength]
    rfl
  obtain ⟨first, last, hfirst, hlast, rfl⟩ := h
  rw [Text.length_pieces, List.count_append, List.count_cons_of_ne (by decide), hcount hfirst,
    hcount hlast]

/-- **The texts that give two ends.** -/
theorem readEnds?_eq_some_iff : readEnds? cs = some (x, y) ↔ Ends x y cs := by
  constructor
  · intro h
    unfold readEnds? at h
    simp only [bind, Option.bind_eq_some_iff, Address.read?_eq_some_iff,
      Address.trimmed_eq_iff] at h
    obtain ⟨⟨first, last⟩, hsplit, x', hfirst, y', hlast, heq⟩ := h
    cases heq
    exact ⟨first, last, hfirst, hlast, Text.eq_of_splitFirst hsplit⟩
  · rintro ⟨first, last, hfirst, hlast, rfl⟩
    have hhyphen : '-' ∉ first := by
      rw [hfirst.mem_iff (by decide)]
      exact Address.not_mem_toString (by decide) (by decide)
    have hread {x : Address} {text : List Char} (h : Text.Padded x.toString.toList text) :
        Address.read? (Text.trimmed text) = some x :=
      Address.read?_eq_some_iff.2 (Address.trimmed_eq_iff.2 h)
    unfold readEnds?
    rw [Text.splitFirst_append hhyphen]
    simp only [Option.bind_eq_bind, Option.bind_some, hread hfirst, hread hlast]
    rfl

/-- Blanks around the text do not matter. -/
theorem Ends.trimmed (h : Ends x y cs) : Ends x y (Text.trimmed cs) := by
  obtain ⟨first, last, hfirst, hlast, rfl⟩ := h
  obtain ⟨before, behind, hbefore, hbehind, rfl⟩ := hfirst
  obtain ⟨front, after, hfront, hafter, rfl⟩ := hlast
  -- the blanks at the hyphen stay, those at the two ends go
  have hinner : Text.trimmed (x.toString.toList ++ (behind ++ '-' :: front ++ y.toString.toList)) =
      x.toString.toList ++ (behind ++ '-' :: front ++ y.toString.toList) := by
    refine Text.trimmed_of_ends (fun c hc => ?_) fun c hc => ?_
    · rw [List.head?_append, Option.or_of_isSome (List.isSome_head?.2 x.toList_ne_nil)] at hc
      exact Address.isBlank_of_mem (List.mem_of_mem_head? hc)
    · rw [← List.append_assoc, List.getLast?_append,
        Option.or_of_isSome (List.getLast?_isSome.2 y.toList_ne_nil)] at hc
      exact Address.isBlank_of_mem (List.mem_of_mem_getLast? hc)
  have hcut := (Text.trimmed_append hbefore hafter).trans hinner
  have hfirst : Text.Padded x.toString.toList (x.toString.toList ++ behind) :=
    ⟨[], behind, nofun, hbehind, by rw [List.nil_append]⟩
  have hlast : Text.Padded y.toString.toList (front ++ y.toString.toList) :=
    ⟨front, [], hfront, nofun, by rw [List.append_nil]⟩
  exact ⟨_, _, hfirst, hlast, by simpa using hcut⟩

/-- Two ends are read as the range between them. -/
theorem read?_of_ends {s : String} (h : Ends x y s.toList) : read? s = between? x y := by
  have hends := readEnds?_eq_some_iff.2 h.trimmed
  have hne : Text.trimmed s.toList ≠ [] := by
    intro hnil
    rw [hnil] at hends
    cases hends
  unfold read?
  dsimp only
  rw [if_neg hne, hends]

/-- **No text is read in both forms.** -/
theorem readPattern_ne_of_readEnds? {ends : Address × Address} (h : readEnds? cs = some ends)
    (r : Range) : readPattern cs ≠ .ok r := by
  intro hpattern
  -- six dots against three
  have hsix := (readEnds?_eq_some_iff.1 h).length_pieces
  rw [length_pieces_of_readPattern hpattern] at hsix
  cases hsix

/-- So trying the two ends first does not matter. -/
theorem read?_of_readPattern {s : String} (h : readPattern (Text.trimmed s.toList) = .ok r) :
    read? s = .ok r := by
  have hends : readEnds? (Text.trimmed s.toList) = none :=
    Option.eq_none_iff_forall_ne_some.2 fun ends hends => readPattern_ne_of_readEnds? hends r h
  have hne : Text.trimmed s.toList ≠ [] := by
    intro hnil
    rw [hnil] at h
    cases h
  unfold read?
  dsimp only
  rw [if_neg hne, hends]
  exact h

theorem read?_toString (r : Range) : read? r.toString = .ok r := by
  refine read?_of_readPattern ?_
  rw [r.trimmed_toString]
  exact r.readPattern_toString

/-- There is a range between addresses of which no octet descends. -/
theorem exists_between? (h : List.Forall₂ (· ≤ ·) x.octets y.octets) :
    ∃ r, between? x y = .ok r := by
  simp only [Address.octets, List.forall₂_cons] at h
  obtain ⟨ha, hb, hc, hd, -⟩ := h
  refine ⟨⟨⟨x.a, y.a⟩, ⟨x.b, y.b⟩, ⟨x.c, y.c⟩, ⟨x.d, y.d⟩, ha, hb, hc, hd⟩, ?_⟩
  rw [between?, ofSpans?, dif_pos ha, dif_pos hb, dif_pos hc, dif_pos hd]

/-- **What is written is read.** A range is read back from its text. Two addresses with a hyphen
between them, whatever blanks stand around them, give the range from one to the other, if no octet
descends, and so does the text of that range. No text is read in both forms, so a pattern keeps its
meaning although the two ends are tried first. -/
theorem read_written :
    (∀ r : Range, read? r.toString = .ok r) ∧
    (∀ x y s, Ends x y s.toList → read? s = between? x y ∧
      (List.Forall₂ (· ≤ ·) x.octets y.octets →
        ∃ r, between? x y = .ok r ∧ read? s = .ok r ∧ read? r.toString = .ok r)) ∧
    (∀ cs ends, readEnds? cs = some ends → ∀ r, readPattern cs ≠ .ok r) ∧
    (∀ s r, readPattern (Text.trimmed s.toList) = .ok r → read? s = .ok r) := by
  refine ⟨read?_toString, fun x y s hends => ⟨read?_of_ends hends, fun hle => ?_⟩,
    fun _ _ hends r => readPattern_ne_of_readEnds? hends r, fun _ _ => read?_of_readPattern⟩
  obtain ⟨r, hr⟩ := exists_between? hle
  exact ⟨r, hr, (read?_of_ends hends).trans hr, r.read?_toString⟩

/-- Two ends, and the pattern of the range between them. -/
theorem read_written_ends :
    let x : Address := ⟨10, 0, 0, 1⟩
    let y : Address := ⟨10, 0, 1, 2⟩
    let s := " 10.0.0.1 - 10.0.1.2"
    let s' := " 10.0.0-1.1-2 "
    Ends x y s.toList ∧ List.Forall₂ (· ≤ ·) x.octets y.octets ∧
      (∀ r, readPattern s.toList ≠ .ok r) ∧
      ∃ r, r.toString = "10.0.0-1.1-2" ∧ read? s = .ok r ∧ read? r.toString = .ok r ∧
        readPattern (Text.trimmed s'.toList) = .ok r ∧ read? s' = .ok r := by
  intro x y s s'
  obtain ⟨-, hbetween, hapart, hpattern⟩ := read_written
  have hread : readEnds? s.toList = some (x, y) := by decide +kernel
  have hends : Ends x y s.toList := readEnds?_eq_some_iff.1 hread
  have hle : List.Forall₂ (· ≤ ·) x.octets y.octets := by simp [Address.octets, x, y]
  obtain ⟨r, hr, hreads, hwritten⟩ := (hbetween x y s hends).2 hle
  cases hr
  have hs' : readPattern (Text.trimmed s'.toList) = between? x y := by decide +kernel
  exact ⟨hends, hle, hapart _ _ hread, _, by decide +kernel, hreads, hwritten, hs',
    hpattern _ _ hs'⟩

end Range

end OpenRelay
