import OpenRelay.Text.Blank

/-!
# Cutting texts apart

* `pieces`: the stretches between separators.
* `splitFirst`, `splitLast`: the two sides of the first or last separator.
* `lines`: the lines of a text, for either kind of line ending.
* `contains`, `replaceAll`: occurrences of one text in another.
-/

namespace OpenRelay.Text

/-- Puts a character in front of the first of some pieces. -/
def consFirst (c : Char) : List (List Char) → List (List Char)
  | [] => [[c]]
  | p :: ps => (c :: p) :: ps

/-- The stretches between the separators, one more than there are separators. -/
def pieces (sep : Char) : List Char → List (List Char)
  | [] => [[]]
  | c :: cs => if c = sep then [] :: pieces sep cs else consFirst c (pieces sep cs)

/-- What stands before and after the first separator, if there is one. -/
def splitFirst (sep : Char) : List Char → Option (List Char × List Char)
  | [] => none
  | c :: cs =>
    if c = sep then some ([], cs)
    else (splitFirst sep cs).map fun (before, rest) => (c :: before, rest)

/-- What stands before and after the last separator, if there is one. -/
def splitLast (sep : Char) (cs : List Char) : Option (List Char × List Char) :=
  (splitFirst sep cs.reverse).map fun (after, before) => (before.reverse, after.reverse)

/-- A line without the carriage return that ends it, if one does. -/
def dropReturn : List Char → List Char
  | [] => []
  | ['\r'] => []
  | c :: cs => c :: dropReturn cs

/-- Pieces between line feeds as lines. A piece that a line feed follows loses its carriage
return; the last piece ends with the text, so it stays as it is, and is no line if empty. -/
def linesOfPieces : List (List Char) → List (List Char)
  | [] => []
  | [last] => if last = [] then [] else [last]
  | p :: ps => dropReturn p :: linesOfPieces ps

/-- The lines of a text. A line ends with a line feed, or a carriage return and a line feed. -/
def lines (cs : List Char) : List (List Char) := linesOfPieces (pieces '\n' cs)

/-- Whether `pattern` occurs in a text. -/
def contains (pattern : List Char) : List Char → Bool
  | [] => pattern.isEmpty
  | c :: cs => pattern.isPrefixOf (c :: cs) || contains pattern cs

/-- Replaces the occurrences of `pattern`, taken from the left without overlap. `skip` counts the
characters that still belong to the occurrence replaced last. -/
def replaceFrom (pattern value : List Char) : Nat → List Char → List Char
  | _, [] => []
  | skip + 1, _ :: cs => replaceFrom pattern value skip cs
  | 0, c :: cs =>
    if pattern.isPrefixOf (c :: cs) then value ++ replaceFrom pattern value (pattern.length - 1) cs
    else c :: replaceFrom pattern value 0 cs

/-- A text in which `value` stands for every occurrence of the nonempty `pattern`. -/
def replaceAll (pattern value cs : List Char) : List Char := replaceFrom pattern value 0 cs

/-- The two sides of the first separator, with it between them, are the text. -/
theorem eq_of_splitFirst {sep : Char} {cs before rest : List Char}
    (h : splitFirst sep cs = some (before, rest)) : cs = before ++ sep :: rest := by
  induction cs generalizing before with
  | nil => cases h
  | cons c cs ih =>
    rw [splitFirst] at h
    split at h
    · rename_i hc
      cases h
      rw [hc, List.nil_append]
    · obtain ⟨⟨before', rest'⟩, hsplit, heq⟩ := Option.map_eq_some_iff.1 h
      cases heq
      rw [ih hsplit, List.cons_append]

/-- So are the two sides of the last one. -/
theorem eq_of_splitLast {sep : Char} {cs before rest : List Char}
    (h : splitLast sep cs = some (before, rest)) : cs = before ++ sep :: rest := by
  obtain ⟨⟨after', before'⟩, hsplit, heq⟩ := Option.map_eq_some_iff.1 h
  cases heq
  rw [← List.reverse_reverse cs, eq_of_splitFirst hsplit]
  simp

theorem consFirst_ne_nil (c : Char) (ps : List (List Char)) : consFirst c ps ≠ [] := by
  cases ps <;> simp [consFirst]

theorem pieces_ne_nil (sep : Char) (cs : List Char) : pieces sep cs ≠ [] := by
  cases cs with
  | nil => simp [pieces]
  | cons c cs =>
    rw [pieces]
    split
    · simp
    · exact consFirst_ne_nil c _

/-- No piece holds the separator. -/
theorem not_mem_of_mem_pieces {sep : Char} {cs p : List Char} (h : p ∈ pieces sep cs) :
    sep ∉ p := by
  induction cs generalizing p with
  | nil => simp_all [pieces]
  | cons c cs ih =>
    rw [pieces] at h
    split at h
    · rcases List.mem_cons.1 h with rfl | h
      · simp
      · exact ih h
    · rename_i hc
      match hps : pieces sep cs, h with
      | [], _ => exact absurd hps (pieces_ne_nil sep cs)
      | q :: qs, h =>
        rw [consFirst] at h
        rcases List.mem_cons.1 h with rfl | h
        · have := ih (p := q) (by simp [hps])
          simp only [List.mem_cons, not_or]
          exact ⟨fun e => hc e.symm, this⟩
        · exact ih (by simp [hps, h])

end OpenRelay.Text
