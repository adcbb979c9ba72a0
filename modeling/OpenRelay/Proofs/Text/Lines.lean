import OpenRelay.Text.Pieces

/-!
# The pieces and lines of a text

* `pieces_eq_iff`: pieces are what stands between the separators.
* `lines_append`: a line and its ending are cut off the text that follows.
* `lines_append_crlf`: also if a carriage return stands before the line feed.
* `lines_concat`: the lines of a text that ends with a line feed.
-/

namespace OpenRelay.Text

variable {cs line rest : List Char}

/-- The pieces are those of the library. -/
theorem pieces_eq_splitOn (sep : Char) (cs : List Char) : pieces sep cs = cs.splitOn sep := by
  induction cs with
  | nil => rfl
  | cons c cs ih =>
    rw [pieces, List.splitOn_cons_eq_if_modifyHead, ih]
    by_cases hc : c = sep
    · rw [if_pos hc, if_pos (beq_iff_eq.2 hc)]
    · rw [if_neg hc, if_neg fun h => hc (beq_iff_eq.1 h)]
      cases hps : cs.splitOn sep with
      | nil => exact absurd hps (List.splitOn_ne_nil sep cs)
      | cons p ps => rfl

/-- The pieces are the stretches without a separator that make up the text. -/
theorem pieces_eq_iff {sep : Char} {ps : List (List Char)} : pieces sep cs = ps ↔
    ps ≠ [] ∧ (∀ p ∈ ps, sep ∉ p) ∧ cs = [sep].intercalate ps := by
  constructor
  · rintro rfl
    refine ⟨pieces_ne_nil sep cs, fun p hp => not_mem_of_mem_pieces hp, ?_⟩
    rw [pieces_eq_splitOn, List.intercalate_splitOn]
  · rintro ⟨hne, hplain, rfl⟩
    rw [pieces_eq_splitOn, List.splitOn_intercalate sep hplain hne]

/-- A text is cut at the first separator. -/
theorem splitFirst_append {sep : Char} (h : sep ∉ cs) :
    splitFirst sep (cs ++ sep :: rest) = some (cs, rest) := by
  induction cs with
  | nil => rw [List.nil_append, splitFirst, if_pos rfl]
  | cons c cs ih =>
    rw [List.mem_cons, not_or] at h
    rw [List.cons_append, splitFirst, if_neg (Ne.symm h.1), ih h.2, Option.map_some]

theorem splitFirst_eq_none {sep : Char} (h : sep ∉ cs) : splitFirst sep cs = none := by
  induction cs with
  | nil => rfl
  | cons c cs ih =>
    rw [List.mem_cons, not_or] at h
    rw [splitFirst, if_neg (Ne.symm h.1), ih h.2, Option.map_none]

/-- There is one piece more than there are separators. -/
theorem length_pieces (sep : Char) (cs : List Char) :
    (pieces sep cs).length = cs.count sep + 1 := by
  induction cs with
  | nil => rfl
  | cons c cs ih =>
    rw [pieces]
    split
    · rename_i hc
      rw [List.length_cons, ih, hc, List.count_cons_self]
    · rename_i hc
      rw [List.count_cons_of_ne (by simpa using hc), ← ih]
      cases hps : pieces sep cs with
      | nil => exact absurd hps (pieces_ne_nil sep cs)
      | cons p ps => rfl

/-- A stretch without the separator is the first piece. -/
theorem pieces_append {sep : Char} (h : sep ∉ cs) :
    pieces sep (cs ++ sep :: rest) = cs :: pieces sep rest := by
  induction cs with
  | nil => rw [List.nil_append, pieces, if_pos rfl]
  | cons c cs ih =>
    rw [List.mem_cons, not_or] at h
    rw [List.cons_append, pieces, if_neg (Ne.symm h.1), ih h.2, consFirst]

theorem dropReturn_concat (cs : List Char) : dropReturn (cs ++ ['\r']) = cs := by
  induction cs with
  | nil => rfl
  | cons c cs ih =>
    have hne : cs ++ ['\r'] ≠ [] := by simp
    rw [List.cons_append, dropReturn.eq_3 _ _ (fun _ h => hne h), ih]

/-- No other character goes with the end of a line. -/
theorem dropReturn_of_ne {c : Char} (h : c ≠ '\r') (cs : List Char) :
    dropReturn (cs ++ [c]) = cs ++ [c] := by
  induction cs with
  | nil => exact dropReturn.eq_3 c [] fun hc _ => h hc
  | cons d cs ih =>
    have hne : cs ++ [c] ≠ [] := by simp
    rw [List.cons_append, dropReturn.eq_3 _ _ fun _ h => hne h, ih]

/-- **A line is cut off** with its line feed. -/
theorem lines_append (h : '\n' ∉ line) (rest : List Char) :
    lines (line ++ '\n' :: rest) = dropReturn line :: lines rest := by
  unfold lines
  rw [pieces_append h]
  cases hrest : pieces '\n' rest with
  | nil => exact absurd hrest (pieces_ne_nil '\n' rest)
  | cons p ps => rfl

/-- The carriage return before it goes as well. -/
theorem lines_append_crlf (h : '\n' ∉ line) (rest : List Char) :
    lines (line ++ '\r' :: '\n' :: rest) = line :: lines rest := by
  have hline : '\n' ∉ line ++ ['\r'] := by simpa using h
  rw [List.append_cons, lines_append hline, dropReturn_concat]

/-- **The lines of a text that ends with a line feed** are the pieces before it. -/
theorem lines_concat (cs : List Char) :
    lines (cs ++ ['\n']) = (cs.splitOn '\n').map dropReturn := by
  -- nothing stands behind the line feed, and that is no line
  have key : ∀ ps : List (List Char), linesOfPieces (ps ++ [[]]) = ps.map dropReturn := by
    intro ps
    induction ps with
    | nil => rfl
    | cons p ps ih =>
      have hne : ps ++ [[]] ≠ [] := by simp
      rw [List.cons_append, linesOfPieces.eq_3 _ _ hne, ih, List.map_cons]
  rw [lines, pieces_eq_splitOn, List.splitOn_append_cons_self]
  exact key _

end OpenRelay.Text
