import Mathlib.Data.List.DropRight
import OpenRelay.Proofs.Text.Lines

/-!
# Blanks around a text

* `Padded`: a text with blanks around it.
* `trimmed_eq_iff`: trimming takes these blanks away, and nothing else.
* `trimmed_of_ends`: a text stays as it is if it neither begins nor ends with a blank.
* `map_trimmed_pieces`: pieces that are trimmed are the same if the text was trimmed before.
-/

namespace OpenRelay.Text

variable {text before after cs cs' : List Char} {c : Char}

/-- A text of blanks. -/
def AllBlank (cs : List Char) : Prop := ∀ c ∈ cs, isBlank c = true

instance (cs : List Char) : Decidable (AllBlank cs) :=
  decidable_of_iff (cs.all isBlank = true) List.all_eq_true

theorem AllBlank.part (h : AllBlank cs) (hpart : cs' <:+: cs) : AllBlank cs' :=
  fun c hc => h c (hpart.subset hc)

theorem AllBlank.append (h : AllBlank cs) (h' : AllBlank cs') : AllBlank (cs ++ cs') :=
  fun c hc => (List.mem_append.1 hc).elim (h c) (h' c)

theorem AllBlank.not_mem (h : AllBlank cs) (hc : isBlank c = false) : c ∉ cs := fun hmem => by
  simp [h c hmem] at hc

/-- A digit can be seen. -/
theorem isBlank_of_isDigit (hc : c.isDigit = true) : isBlank c = false := by
  obtain ⟨hlo, hhi⟩ := Char.isDigit_iff_toNat.1 hc
  simp only [Char.reduceToNat] at hlo hhi
  simp only [isBlank, blankRanges, List.any_eq_false, List.forall_mem_cons, Bool.and_eq_true,
    decide_eq_true_eq, not_and, List.not_mem_nil, false_imp_iff, implies_true, and_true]
  omega

/-- A text with blanks around it. -/
def Padded (text cs : List Char) : Prop :=
  ∃ before after, AllBlank before ∧ AllBlank after ∧ cs = before ++ text ++ after

/-- There may be no blanks at all. -/
theorem Padded.refl (cs : List Char) : Padded cs cs := ⟨[], [], nofun, nofun, by simp⟩

/-- Nothing but blanks was added. -/
theorem Padded.mem_iff (h : Padded text cs) (hc : isBlank c = false) : c ∈ cs ↔ c ∈ text := by
  obtain ⟨before, after, hbefore, hafter, rfl⟩ := h
  simp [hbefore.not_mem hc, hafter.not_mem hc]

theorem Padded.count_eq (h : Padded text cs) (hc : isBlank c = false) :
    cs.count c = text.count c := by
  obtain ⟨before, after, hbefore, hafter, rfl⟩ := h
  rw [List.count_append, List.count_append, List.count_eq_zero.2 (hbefore.not_mem hc),
    List.count_eq_zero.2 (hafter.not_mem hc), Nat.zero_add, Nat.add_zero]

/-! ## Trimming -/

theorem trimmed_eq (cs : List Char) : trimmed cs = (cs.dropWhile isBlank).rdropWhile isBlank := rfl

/-- Nothing but blanks is taken away. -/
theorem padded_trimmed (cs : List Char) : Padded (trimmed cs) cs := by
  refine ⟨cs.takeWhile isBlank, (cs.dropWhile isBlank).rtakeWhile isBlank, ?_, ?_, ?_⟩
  · exact fun c hc => List.mem_takeWhile_imp hc
  · exact fun c hc => List.mem_rtakeWhile_imp hc
  · rw [trimmed_eq, List.append_assoc, List.rdropWhile_append_rtakeWhile,
      List.takeWhile_append_dropWhile]

/-- **A text stays as it is** if it neither begins nor ends with a blank. -/
theorem trimmed_of_ends (hhead : ∀ c ∈ cs.head?, isBlank c = false)
    (hlast : ∀ c ∈ cs.getLast?, isBlank c = false) : trimmed cs = cs := by
  have hfront : cs.dropWhile isBlank = cs := by
    cases cs with
    | nil => rfl
    | cons c cs => exact List.dropWhile_cons_of_neg (by simp [hhead c rfl])
  rw [trimmed_eq, hfront, List.rdropWhile_eq_self_iff]
  intro hne
  rw [hlast _ (List.getLast?_eq_some_getLast hne)]
  exact Bool.false_ne_true

theorem trimmed_of_visible (h : ∀ c ∈ cs, isBlank c = false) : trimmed cs = cs :=
  trimmed_of_ends (fun c hc => h c (List.mem_of_mem_head? hc))
    fun c hc => h c (List.mem_of_mem_getLast? hc)

/-- Blanks around a text do not matter. -/
theorem trimmed_append (hbefore : AllBlank before) (hafter : AllBlank after) :
    trimmed (before ++ cs ++ after) = trimmed cs := by
  have hback (cs : List Char) : (cs ++ after).rdropWhile isBlank = cs.rdropWhile isBlank := by
    unfold List.rdropWhile
    rw [List.reverse_append, List.dropWhile_append_of_pos]
    exact fun c hc => hafter c (List.mem_reverse.1 hc)
  rw [trimmed_eq, List.append_assoc, List.dropWhile_append_of_pos hbefore, List.dropWhile_append,
    trimmed_eq]
  -- if nothing can be seen of the text, its blanks and those behind it go together
  split
  · rename_i hnil
    rw [List.isEmpty_iff.1 hnil, List.dropWhile_eq_nil_iff.2 hafter]
  · exact hback _

theorem trimmed_append_left (hbefore : AllBlank before) : trimmed (before ++ cs) = trimmed cs := by
  have h : trimmed (before ++ cs ++ []) = trimmed cs := trimmed_append hbefore nofun
  rwa [List.append_nil] at h

theorem trimmed_append_right (hafter : AllBlank after) : trimmed (cs ++ after) = trimmed cs :=
  trimmed_append (show AllBlank [] from nofun) hafter

theorem Padded.trimmed_eq (h : Padded text cs) : trimmed cs = trimmed text := by
  obtain ⟨before, after, hbefore, hafter, rfl⟩ := h
  exact trimmed_append hbefore hafter

theorem trimmed_trimmed (cs : List Char) : trimmed (trimmed cs) = trimmed cs :=
  (padded_trimmed cs).trimmed_eq.symm

/-- **Trimming takes the blanks around a text away**, and nothing else. -/
theorem trimmed_eq_iff : trimmed cs = text ↔ trimmed text = text ∧ Padded text cs := by
  constructor
  · rintro rfl
    exact ⟨trimmed_trimmed cs, padded_trimmed cs⟩
  · rintro ⟨htext, hpadded⟩
    rw [hpadded.trimmed_eq, htext]

theorem trimmed_eq_nil_iff : trimmed cs = [] ↔ AllBlank cs := by
  rw [trimmed_eq_iff, and_iff_right trimmed_nil]
  constructor
  · rintro ⟨before, after, hbefore, hafter, rfl⟩
    rw [List.append_nil]
    exact hbefore.append hafter
  · exact fun h => ⟨cs, [], h, nofun, by simp⟩

/-- What is trimmed begins with the first character that is not blank. -/
theorem head?_trimmed (cs : List Char) : (trimmed cs).head? = cs.find? (! isBlank ·) := by
  rw [List.find?_eq_head?_dropWhile_not, trimmed_eq]
  simp only [Bool.not_not]
  cases hfront : cs.dropWhile isBlank with
  | nil => rfl
  | cons c rest =>
    have hc : isBlank c = false := by simpa [hfront] using List.head?_dropWhile_not isBlank cs
    -- so the blanks at the other end are not everything
    have hne : (c :: rest).rdropWhile isBlank ≠ [] := by
      rw [ne_eq, List.rdropWhile_eq_nil_iff]
      exact fun h => by simpa [hc] using h c List.mem_cons_self
    obtain ⟨d, left, hleft⟩ := List.exists_cons_of_ne_nil hne
    obtain ⟨behind, hrest⟩ := List.rdropWhile_prefix isBlank (c :: rest)
    rw [hleft] at hrest ⊢
    cases hrest
    rfl

/-! ## Pieces -/

/-- A text in front of another goes into its first piece, if there is no separator in it. -/
theorem exists_pieces_before {sep : Char} (hsep : sep ∉ before) (cs : List Char) :
    ∃ first rest, pieces sep cs = first :: rest ∧
      pieces sep (before ++ cs) = (before ++ first) :: rest := by
  obtain ⟨first, rest, hcs⟩ := List.exists_cons_of_ne_nil (pieces_ne_nil sep cs)
  refine ⟨first, rest, hcs, ?_⟩
  induction before with
  | nil => exact hcs
  | cons c before ih =>
    rw [List.mem_cons, not_or] at hsep
    rw [List.cons_append, pieces, if_neg (Ne.symm hsep.1), ih hsep.2]
    rfl

/-- A text behind another goes into its last piece. -/
theorem exists_pieces_behind {sep : Char} (hsep : sep ∉ after) (cs : List Char) :
    ∃ front last, pieces sep cs = front ++ [last] ∧
      pieces sep (cs ++ after) = front ++ [last ++ after] := by
  induction cs with
  | nil =>
    rw [List.nil_append, pieces_eq_splitOn, pieces_eq_splitOn, List.splitOn_eq_singleton hsep]
    exact ⟨[], [], rfl, rfl⟩
  | cons c cs ih =>
    obtain ⟨front, last, hcs, hafter⟩ := ih
    rw [List.cons_append, pieces, pieces, hcs, hafter]
    split
    · exact ⟨[] :: front, last, rfl, rfl⟩
    · cases front with
      | nil => exact ⟨[], c :: last, rfl, rfl⟩
      | cons p front => exact ⟨(c :: p) :: front, last, rfl, rfl⟩

/-- **Trimmed pieces do not depend on the blanks around the text** that they are pieces of. -/
theorem map_trimmed_pieces {sep : Char} (hsep : isBlank sep = false) (cs : List Char) :
    (pieces sep (trimmed cs)).map trimmed = (pieces sep cs).map trimmed := by
  obtain ⟨before, after, hbefore, hafter, hcs⟩ := padded_trimmed cs
  conv_rhs => rw [hcs]
  generalize trimmed cs = text
  obtain ⟨front, last, hlast, hbehind⟩ :=
    exists_pieces_behind (hafter.not_mem hsep) (before ++ text)
  obtain ⟨first, rest, hfirst, hfront⟩ := exists_pieces_before (hbefore.not_mem hsep) text
  calc (pieces sep text).map trimmed
      = (pieces sep (before ++ text)).map trimmed := by
        rw [hfirst, hfront, List.map_cons, List.map_cons, trimmed_append_left hbefore]
    _ = (pieces sep (before ++ text ++ after)).map trimmed := by
        rw [hlast, hbehind, List.map_append, List.map_append, List.map_singleton,
          List.map_singleton, trimmed_append_right hafter]

end OpenRelay.Text
