import Mathlib.Data.List.Infix
import OpenRelay.Text.Pieces

/-!
# Replacing several patterns

Patterns can be replaced one after the other, each throughout the result of those before it, or all
at once, in one pass over the text. The two can differ: a value that was put in may complete a
pattern of a later replacement, or contain one. They agree if no occurrence of a pattern reaches
into a value (`Inert`), and if the occurrences in the text keep clear of each other.

* `replaceEach`: all replacements of a table in one pass.
* `replaceAll_append_cons`: a character of no pattern parts a text for every replacement.
* `infix_of_replaceEach`: inert values bring no occurrence in.
* `replaceAll_replaceEach`: one more replacement after a pass is a pass with one more replacement.
* `foldl_replaceAll`: so replacements one after the other are one pass.
-/

namespace OpenRelay.Text

/-- Patterns with their values. -/
abbrev Table := List (List Char × List Char)

/-- The first entry of a table whose pattern a text opens with. -/
def opening? (table : Table) (cs : List Char) : Option (List Char × List Char) :=
  table.find? fun x => x.1.isPrefixOf cs

/-- Replaces the patterns of a table by their values in one pass from the left, and copies
everything else. `skip` counts the characters that still belong to the pattern replaced last. -/
def replaceEachFrom (table : Table) : Nat → List Char → List Char
  | _, [] => []
  | skip + 1, _ :: cs => replaceEachFrom table skip cs
  | 0, c :: cs =>
    match opening? table (c :: cs) with
    | some (pattern, value) => value ++ replaceEachFrom table (pattern.length - 1) cs
    | none => c :: replaceEachFrom table 0 cs

/-- A text in which the values of a table stand for its nonempty patterns. -/
def replaceEach (table : Table) (cs : List Char) : List Char := replaceEachFrom table 0 cs

variable {table : Table} {pattern value cs tail : List Char} {x : List Char × List Char}

/-! ## Occurrences -/

theorem contains_iff : contains pattern cs = true ↔ pattern <:+: cs := by
  induction cs with
  | nil => simp [contains]
  | cons c cs ih => rw [contains, Bool.or_eq_true, List.isPrefixOf_iff_prefix, ih, List.infix_cons_iff]

theorem opening?_cons (x : List Char × List Char) (table : Table) (cs : List Char) :
    opening? (x :: table) cs = if x.1 <+: cs then some x else opening? table cs := by
  unfold opening?
  rw [List.find?_cons]
  by_cases h : x.1 <+: cs
  · rw [if_pos h, List.isPrefixOf_iff_prefix.2 h]
  · rw [if_neg h, Bool.eq_false_iff.2 fun h' => h (List.isPrefixOf_iff_prefix.1 h')]

theorem opening?_eq_none_iff : opening? table cs = none ↔ ∀ x ∈ table, ¬ x.1 <+: cs := by
  simp [opening?, List.isPrefixOf_iff_prefix]

/-- The entry that a text opens with. -/
theorem of_opening? (h : opening? table cs = some x) : x ∈ table ∧ x.1 <+: cs := by
  unfold opening? at h
  have hopens := List.find?_some h
  exact ⟨List.mem_of_find?_eq_some h, List.isPrefixOf_iff_prefix.1 hopens⟩

theorem opening?_append (table table' : Table) (cs : List Char) :
    opening? (table ++ table') cs = (opening? table cs).or (opening? table' cs) :=
  List.find?_append

/-! ## One pass -/

@[simp] theorem replaceEach_nil (table : Table) : replaceEach table [] = [] := rfl

theorem replaceEachFrom_eq (table : Table) (skip : Nat) (cs : List Char) :
    replaceEachFrom table skip cs = replaceEach table (cs.drop skip) := by
  induction skip generalizing cs with
  | zero => rfl
  | succ skip ih =>
    cases cs with
    | nil => rfl
    | cons c cs => exact ih cs

/-- **A pattern is replaced**, and the pass goes on behind it. -/
theorem replaceEach_of_opening (h : opening? table cs = some x) (hne : x.1 ≠ []) :
    replaceEach table cs = x.2 ++ replaceEach table (cs.drop x.1.length) := by
  obtain ⟨-, hpre⟩ := of_opening? h
  cases cs with
  | nil => exact absurd (List.prefix_nil.1 hpre) hne
  | cons c cs =>
    obtain ⟨n, hn⟩ : ∃ n, x.1.length = n + 1 :=
      Nat.exists_eq_succ_of_ne_zero fun h0 => hne (List.length_eq_zero_iff.1 h0)
    rw [replaceEach, replaceEachFrom, h, hn]
    show x.2 ++ replaceEachFrom table (x.1.length - 1) cs = _
    rw [replaceEachFrom_eq, hn, List.drop_succ_cons, Nat.add_sub_cancel]

/-- **A character is copied** where no pattern begins. -/
theorem replaceEach_of_none {c : Char} (h : opening? table (c :: cs) = none) :
    replaceEach table (c :: cs) = c :: replaceEach table cs := by
  rw [replaceEach, replaceEachFrom, h]
  rfl

/-- A stretch within which no pattern begins is copied. -/
theorem replaceEach_copies {n : Nat} (h : ∀ i < n, opening? table (cs.drop i) = none) :
    replaceEach table cs = cs.take n ++ replaceEach table (cs.drop n) := by
  induction n generalizing cs with
  | zero => rfl
  | succ n ih =>
    cases cs with
    | nil => rfl
    | cons c cs =>
      have hrest : ∀ i < n, opening? table (cs.drop i) = none := fun i hi =>
        h (i + 1) (Nat.succ_lt_succ hi)
      rw [replaceEach_of_none (h 0 (Nat.succ_pos n)), ih hrest, List.take_succ_cons,
        List.drop_succ_cons, List.cons_append]

/-- A text in which no pattern occurs stays as it is. -/
theorem replaceEach_eq_self (h : ∀ x ∈ table, ¬ x.1 <:+: cs) : replaceEach table cs = cs := by
  have hnone : ∀ i < cs.length, opening? table (cs.drop i) = none := by
    intro i _
    rw [opening?_eq_none_iff]
    intro x hx hpre
    exact h x hx (hpre.isInfix.trans (List.drop_suffix i cs).isInfix)
  rw [replaceEach_copies hnone, List.take_length, List.drop_length, replaceEach_nil,
    List.append_nil]

/-- Replacing one pattern is a pass with a table of one entry. -/
theorem replaceAll_eq (pattern value cs : List Char) :
    replaceAll pattern value cs = replaceEach [(pattern, value)] cs := by
  have key : ∀ skip, replaceFrom pattern value skip cs =
      replaceEachFrom [(pattern, value)] skip cs := by
    induction cs with
    | nil => intro skip; cases skip <;> rfl
    | cons c cs ih =>
      intro skip
      cases skip with
      | succ skip => exact ih skip
      | zero =>
        rw [replaceFrom, replaceEachFrom, opening?_cons, ih, ih]
        by_cases h : pattern <+: c :: cs
        · rw [if_pos h, if_pos (List.isPrefixOf_iff_prefix.2 h)]
        · rw [if_neg h, if_neg fun h' => h (List.isPrefixOf_iff_prefix.1 h')]
          rfl
  exact key 0

theorem replaceAll_eq_self (h : ¬ pattern <:+: cs) : replaceAll pattern value cs = cs := by
  rw [replaceAll_eq]
  refine replaceEach_eq_self fun x hx => ?_
  rw [List.mem_singleton.1 hx]
  exact h

/-- An occurrence is replaced, and what follows it by itself. -/
theorem replaceAll_found (hne : pattern ≠ []) (rest : List Char) :
    replaceAll pattern value (pattern ++ rest) = value ++ replaceAll pattern value rest := by
  have hopen : opening? [(pattern, value)] (pattern ++ rest) = some (pattern, value) := by
    rw [opening?_cons, if_pos (List.prefix_append pattern rest)]
  rw [replaceAll_eq, replaceAll_eq, replaceEach_of_opening hopen hne, List.drop_left]

/-- A text that is the pattern becomes the value. -/
theorem replaceAll_self (hne : pattern ≠ []) : replaceAll pattern value pattern = value :=
  calc replaceAll pattern value pattern
      = replaceAll pattern value (pattern ++ []) := by rw [List.append_nil]
    _ = value ++ replaceAll pattern value [] := replaceAll_found hne []
    _ = value := List.append_nil value

/-- A character at which none begins is copied. -/
theorem replaceAll_copied {c : Char} (h : ¬ pattern <+: c :: cs) :
    replaceAll pattern value (c :: cs) = c :: replaceAll pattern value cs := by
  have hnone : opening? [(pattern, value)] (c :: cs) = none := by
    rw [opening?_cons, if_neg h]
    rfl
  rw [replaceAll_eq, replaceAll_eq, replaceEach_of_none hnone]

/-- Induction along a text as it is replaced: an occurrence is passed at once, and a character at
which none begins by itself. -/
theorem scan_induction {P : List Char → Prop} (hne : pattern ≠ []) (nil : P [])
    (found : ∀ rest, P rest → P (pattern ++ rest))
    (copied : ∀ c cs, ¬ pattern <+: c :: cs → P cs → P (c :: cs)) (cs : List Char) : P cs := by
  induction hn : cs.length using Nat.strong_induction_on generalizing cs with
  | _ n ih =>
  subst hn
  cases cs with
  | nil => exact nil
  | cons c cs =>
    by_cases hpre : pattern <+: c :: cs
    · obtain ⟨rest, hrest⟩ := hpre
      have hlt : rest.length < (c :: cs).length := by
        rw [← hrest, List.length_append]
        exact Nat.lt_add_of_pos_left (List.length_pos_iff.2 hne)
      rw [← hrest]
      exact found rest (ih _ hlt rest rfl)
    · exact copied c cs hpre (ih _ (Nat.lt_succ_self _) cs rfl)

/-- A pattern that occurs puts its value in. -/
theorem infix_replaceAll (hne : pattern ≠ []) (h : pattern <:+: cs) :
    value <:+: replaceAll pattern value cs := by
  induction cs using scan_induction hne with
  | nil => exact absurd (List.infix_nil.1 h) hne
  | found rest _ =>
    rw [replaceAll_found hne]
    exact (List.prefix_append value _).isInfix
  | copied c cs hpre ih =>
    rw [replaceAll_copied hpre]
    exact (ih ((List.infix_cons_iff.1 h).resolve_left hpre)).trans (List.suffix_cons c _).isInfix

/-- **What neither a pattern nor its value can be a part of** is not made or undone by the
replacement. -/
theorem replaceAll_iff {P : List Char → Prop} (hne : pattern ≠ [])
    (hpattern : ∀ cs, P cs → ¬ pattern <:+: cs) (hvalue : ∀ cs, P cs → ¬ value <:+: cs) :
    P (replaceAll pattern value cs) ↔ P cs := by
  by_cases hocc : pattern <:+: cs
  · exact iff_of_false (fun h => hvalue _ h (infix_replaceAll hne hocc)) fun h => hpattern _ h hocc
  · rw [replaceAll_eq_self hocc]

/-- Nor do replacements of several patterns change a text in which none occurs. -/
theorem foldl_replaceAll_eq_self (h : ∀ x ∈ table, ¬ x.1 <:+: cs) :
    table.foldl (fun cs (pattern, value) => replaceAll pattern value cs) cs = cs := by
  induction table with
  | nil => rfl
  | cons x table ih =>
    obtain ⟨hx, htable⟩ := List.forall_mem_cons.1 h
    have hself : replaceAll x.1 x.2 cs = cs := replaceAll_eq_self hx
    show table.foldl _ (replaceAll x.1 x.2 cs) = cs
    rw [hself]
    exact ih htable

/-! ## Characters of no pattern -/

/-- An occurrence at the head of a text ends before a character that is none of its own. -/
theorem prefix_append_cons_iff {c : Char} (hc : c ∉ pattern) :
    pattern <+: cs ++ c :: tail ↔ pattern <+: cs := by
  refine ⟨fun h => ?_, fun h => h.trans (List.prefix_append cs _)⟩
  rcases List.prefix_or_prefix_of_prefix h (List.prefix_append cs _) with hp | ⟨rest, rfl⟩
  · exact hp
  · cases rest with
    | nil => rw [List.append_nil]
    | cons d rest =>
      obtain ⟨rfl, -⟩ := List.cons_prefix_cons.1 ((List.prefix_append_right_inj cs).1 h)
      exact absurd (List.mem_append_right cs List.mem_cons_self) hc

/-- So an occurrence stands on one side of such a character. -/
theorem infix_append_cons_iff {c : Char} (hc : c ∉ pattern) :
    pattern <:+: cs ++ c :: tail ↔ pattern <:+: cs ∨ pattern <:+: tail := by
  induction cs with
  | nil =>
    have hpre : pattern <+: [] ++ c :: tail ↔ pattern <+: [] := prefix_append_cons_iff hc
    rw [List.nil_append] at hpre ⊢
    rw [List.infix_cons_iff, hpre, List.prefix_nil, List.infix_nil]
  | cons d cs ih =>
    have hpre : pattern <+: d :: cs ++ c :: tail ↔ pattern <+: d :: cs := prefix_append_cons_iff hc
    rw [List.cons_append] at hpre ⊢
    rw [List.infix_cons_iff, List.infix_cons_iff, hpre, ih, or_assoc]

/-- **The two sides are replaced by themselves.** -/
theorem replaceAll_append_cons {c : Char} (hne : pattern ≠ []) (hc : c ∉ pattern) :
    replaceAll pattern value (cs ++ c :: tail) =
      replaceAll pattern value cs ++ c :: replaceAll pattern value tail := by
  induction cs using scan_induction hne with
  | nil =>
    have hpre : ¬ pattern <+: [] ++ c :: tail := fun h =>
      hne (List.prefix_nil.1 ((prefix_append_cons_iff hc).1 h))
    exact replaceAll_copied hpre
  | found rest ih =>
    rw [List.append_assoc, replaceAll_found hne, replaceAll_found hne, ih, List.append_assoc]
  | copied d cs hpre ih =>
    have hpre' : ¬ pattern <+: d :: cs ++ c :: tail := fun h =>
      hpre ((prefix_append_cons_iff hc).1 h)
    rw [List.cons_append] at hpre' ⊢
    rw [replaceAll_copied hpre', ih, replaceAll_copied hpre, List.cons_append]

/-- So they are by replacements of several patterns. -/
theorem foldl_replaceAll_append_cons {c : Char} (h : ∀ x ∈ table, x.1 ≠ [] ∧ c ∉ x.1) :
    table.foldl (fun cs (pattern, value) => replaceAll pattern value cs) (cs ++ c :: tail) =
      table.foldl (fun cs (pattern, value) => replaceAll pattern value cs) cs ++
        c :: table.foldl (fun cs (pattern, value) => replaceAll pattern value cs) tail := by
  induction table generalizing cs tail with
  | nil => rfl
  | cons x table ih =>
    obtain ⟨⟨hne, hc⟩, htable⟩ := List.forall_mem_cons.1 h
    have hcut : replaceAll x.1 x.2 (cs ++ c :: tail) =
        replaceAll x.1 x.2 cs ++ c :: replaceAll x.1 x.2 tail := replaceAll_append_cons hne hc
    show table.foldl _ (replaceAll x.1 x.2 (cs ++ c :: tail)) = _
    rw [hcut]
    exact ih htable

/-- **A text that is one of the patterns** becomes its value, if no other pattern occurs in it, and
none of those behind in the value. -/
theorem foldl_replaceAll_pattern (hlater : table.Pairwise fun x y => ¬ y.1 <:+: x.2)
    (hapart : ∀ x ∈ table, x.1 = cs ∨ ¬ x.1 <:+: cs) (hne : cs ≠ [])
    (hmem : ∃ x ∈ table, x.1 = cs) :
    ∃ x ∈ table, x.1 = cs ∧
      table.foldl (fun cs (pattern, value) => replaceAll pattern value cs) cs = x.2 := by
  induction table with
  | nil =>
    obtain ⟨x, hx, -⟩ := hmem
    exact absurd hx List.not_mem_nil
  | cons x table ih =>
    obtain ⟨hx, htable⟩ := List.pairwise_cons.1 hlater
    obtain ⟨hxcs, hrest⟩ := List.forall_mem_cons.1 hapart
    by_cases heq : x.1 = cs
    · have hvalue : replaceAll x.1 x.2 cs = x.2 := by
        rw [heq, replaceAll_self hne]
      refine ⟨x, List.mem_cons_self, heq, ?_⟩
      show table.foldl _ (replaceAll x.1 x.2 cs) = x.2
      rw [hvalue]
      exact foldl_replaceAll_eq_self hx
    · have hself : replaceAll x.1 x.2 cs = cs := replaceAll_eq_self (hxcs.resolve_left heq)
      have hmem' : ∃ y ∈ table, y.1 = cs := by
        obtain ⟨y, hy, hycs⟩ := hmem
        rcases List.mem_cons.1 hy with rfl | hy
        · exact absurd hycs heq
        · exact ⟨y, hy, hycs⟩
      obtain ⟨y, hy, hycs, hfold⟩ := ih htable hrest hmem'
      refine ⟨y, List.mem_cons_of_mem x hy, hycs, ?_⟩
      show table.foldl _ (replaceAll x.1 x.2 cs) = y.2
      rw [hself]
      exact hfold

/-! ## Inert values -/

/-- No occurrence of a pattern reaches into a value, whatever stands before and behind it. -/
structure Inert (pattern value : List Char) : Prop where
  /-- The value does not complete the pattern as a part of it. -/
  not_part : ¬ value <:+: pattern
  /-- The pattern is not a part of the value. -/
  not_whole : ¬ pattern <:+: value
  /-- The pattern does not begin in the value and end behind it. -/
  not_begun : ∀ u, u ≠ [] → u <:+ value → ¬ u <+: pattern
  /-- The pattern does not begin before the value and end in it. -/
  not_ended : ∀ u, u ≠ [] → u <+: value → ¬ u <:+ pattern

namespace Inert

/-- A value without a character is inert for that character. -/
theorem of_not_mem {c : Char} (hne : value ≠ []) (h : c ∉ value) : Inert [c] value := by
  have hcontains : ∀ u, u ≠ [] → u <:+: [c] → ¬ u <:+: value := by
    intro u hu hsingle hvalue
    have hmem : c ∈ u := by
      obtain ⟨d, hd⟩ := List.exists_mem_of_ne_nil u hu
      rwa [← List.mem_singleton.1 (hsingle.subset hd)]
    exact h (hvalue.subset hmem)
  exact {
    not_part := fun hpart => hcontains value hne hpart List.infix_rfl
    not_whole := hcontains [c] (List.cons_ne_nil c []) List.infix_rfl
    not_begun := fun u hu hvalue hpre => hcontains u hu hpre.isInfix hvalue.isInfix
    not_ended := fun u hu hvalue hsuf => hcontains u hu hsuf.isInfix hvalue.isInfix }

/-- A value is inert for a pattern if it is inert for what the pattern opens and closes with. -/
theorem of_ends {opening closing : List Char} (ho : Inert opening value)
    (hc : Inert closing value) (hopening : opening <+: pattern) (hclosing : closing <:+ pattern)
    (hpart : ¬ value <:+: pattern) : Inert pattern value where
  not_part := hpart
  not_whole := fun h => ho.not_whole (hopening.isInfix.trans h)
  not_begun := by
    intro u hne hu hpre
    rcases List.prefix_or_prefix_of_prefix hpre hopening with h | h
    · exact ho.not_begun u hne hu h
    · exact ho.not_whole (h.isInfix.trans hu.isInfix)
  not_ended := by
    intro u hne hu hsuf
    rcases List.suffix_or_suffix_of_suffix hsuf hclosing with h | h
    · exact hc.not_ended u hne hu h
    · exact hc.not_whole (h.isInfix.trans hu.isInfix)

/-- No occurrence begins within the value. -/
theorem not_prefix_append (h : Inert pattern value) {u : List Char} (hne : u ≠ [])
    (hu : u <:+ value) (tail : List Char) : ¬ pattern <+: u ++ tail := by
  intro hpre
  rcases List.prefix_or_prefix_of_prefix hpre (List.prefix_append u tail) with hp | hp
  · exact h.not_whole (hp.isInfix.trans hu.isInfix)
  · exact h.not_begun u hne hu hp

/-- An occurrence that ends at a value or behind it does not begin before it. -/
theorem not_prefix_of_suffix (h : Inert pattern value) {u : List Char} (hne : u ≠ [])
    (hu : u <:+ pattern) (tail : List Char) : ¬ u <+: value ++ tail := by
  intro hpre
  rcases List.prefix_or_prefix_of_prefix hpre (List.prefix_append value tail) with hp | hp
  · exact h.not_ended u hne hp hu
  · exact h.not_part (hp.isInfix.trans hu.isInfix)

/-- A pass with one pattern copies an inert value. -/
theorem replaceAll_append (h : Inert pattern value) (other tail : List Char) :
    replaceAll pattern other (value ++ tail) = value ++ replaceAll pattern other tail := by
  rw [replaceAll_eq, replaceAll_eq]
  have key : ∀ u, u <:+ value → replaceEach [(pattern, other)] (u ++ tail) =
      u ++ replaceEach [(pattern, other)] tail := by
    intro u
    induction u with
    | nil => intro _; rfl
    | cons c u ih =>
      intro hu
      have hnone : opening? [(pattern, other)] (c :: (u ++ tail)) = none := by
        rw [opening?_eq_none_iff]
        intro x hx
        rw [List.mem_singleton.1 hx]
        exact h.not_prefix_append (List.cons_ne_nil c u) hu tail
      rw [List.cons_append, replaceEach_of_none hnone, ih ((List.suffix_cons c u).trans hu),
        List.cons_append]
  exact key value List.suffix_rfl

/-- An occurrence behind an inert value is one of the text that follows it. -/
theorem infix_of_append (h : Inert pattern value) (hocc : pattern <:+: value ++ tail) :
    pattern <:+: tail := by
  have key : ∀ u, u <:+ value → pattern <:+: u ++ tail → pattern <:+: tail := by
    intro u
    induction u with
    | nil => intro _ h; exact h
    | cons c u ih =>
      intro hu hocc
      rw [List.cons_append, List.infix_cons_iff] at hocc
      rcases hocc with hpre | hocc
      · exact absurd hpre (h.not_prefix_append (List.cons_ne_nil c u) hu tail)
      · exact ih ((List.suffix_cons c u).trans hu) hocc
  exact key value List.suffix_rfl hocc

end Inert

/-- **A pattern at the head of the result** of a pass with inert values stands at the head of the
text, and no pattern of the table begins within it. -/
theorem prefix_of_replaceEach (hne : ∀ x ∈ table, x.1 ≠ []) (hinert : ∀ x ∈ table, Inert pattern x.2)
    (hpre : pattern <+: replaceEach table cs) :
    pattern <+: cs ∧ ∀ i < pattern.length, opening? table (cs.drop i) = none := by
  -- along the text, for what is left of the pattern
  have key : ∀ u, u <:+ pattern → u <+: replaceEach table cs →
      u <+: cs ∧ ∀ i < u.length, opening? table (cs.drop i) = none := by
    clear hpre
    induction cs with
    | nil =>
      intro u _ hpre
      rw [List.prefix_nil.1 hpre]
      exact ⟨List.nil_prefix, fun i hi => absurd hi (Nat.not_lt_zero i)⟩
    | cons c cs ih =>
      intro u hu hpre
      cases u with
      | nil => exact ⟨List.nil_prefix, fun i hi => absurd hi (Nat.not_lt_zero i)⟩
      | cons d u =>
        cases hopen : opening? table (c :: cs) with
        | some x =>
          obtain ⟨hx, -⟩ := of_opening? hopen
          rw [replaceEach_of_opening hopen (hne x hx)] at hpre
          exact absurd hpre ((hinert x hx).not_prefix_of_suffix (List.cons_ne_nil d u) hu _)
        | none =>
          rw [replaceEach_of_none hopen, List.cons_prefix_cons] at hpre
          obtain ⟨rfl, hpre⟩ := hpre
          obtain ⟨hcs, hnone⟩ := ih u ((List.suffix_cons d u).trans hu) hpre
          refine ⟨List.cons_prefix_cons.2 ⟨rfl, hcs⟩, fun i hi => ?_⟩
          cases i with
          | zero => exact hopen
          | succ i => exact hnone i (Nat.lt_of_succ_lt_succ hi)
  exact key pattern List.suffix_rfl hpre

/-- **Inert values bring no occurrence in**: one in the result of a pass is one of the text, within
which no pattern of the table begins. -/
theorem infix_of_replaceEach (hne : ∀ x ∈ table, x.1 ≠ []) (hinert : ∀ x ∈ table, Inert pattern x.2)
    (hocc : pattern <:+: replaceEach table cs) :
    ∃ j, pattern <+: cs.drop j ∧
      ∀ i < pattern.length, opening? table (cs.drop (j + i)) = none := by
  induction hn : cs.length using Nat.strong_induction_on generalizing cs with
  | _ n ih =>
  subst hn
  cases cs with
  | nil =>
    refine ⟨0, List.infix_nil.1 hocc ▸ List.nil_prefix, fun i hi => ?_⟩
    rw [List.infix_nil.1 hocc] at hi
    exact absurd hi (Nat.not_lt_zero i)
  | cons c cs =>
    cases hopen : opening? table (c :: cs) with
    | some x =>
      -- the occurrence stands behind the value, so behind the pattern that was replaced
      obtain ⟨hx, hpre⟩ := of_opening? hopen
      rw [replaceEach_of_opening hopen (hne x hx)] at hocc
      have hlength : 0 < x.1.length := List.length_pos_iff.2 (hne x hx)
      have hshorter : ((c :: cs).drop x.1.length).length < (c :: cs).length := by
        rw [List.length_drop, List.length_cons]
        omega
      obtain ⟨j, hj, hnone⟩ := ih _ hshorter ((hinert x hx).infix_of_append hocc) rfl
      rw [List.drop_drop] at hj
      refine ⟨x.1.length + j, hj, fun i hi => ?_⟩
      rw [Nat.add_assoc, ← List.drop_drop]
      exact hnone i hi
    | none =>
      have hcopied := replaceEach_of_none hopen
      rw [hcopied, List.infix_cons_iff] at hocc
      rcases hocc with hpre | hocc
      · rw [← hcopied] at hpre
        obtain ⟨hcs, hnone⟩ := prefix_of_replaceEach hne hinert hpre
        exact ⟨0, hcs, fun i hi => by rw [Nat.zero_add]; exact hnone i hi⟩
      · obtain ⟨j, hj, hnone⟩ := ih _ (Nat.lt_succ_self _) hocc rfl
        refine ⟨j + 1, hj, fun i hi => ?_⟩
        rw [Nat.add_right_comm]
        exact hnone i hi

/-- An inert value brings no occurrence in. -/
theorem Inert.not_infix_replaceAll {other : List Char} (h : Inert pattern value) (hne : other ≠ [])
    (hcs : ¬ pattern <:+: cs) : ¬ pattern <:+: replaceAll other value cs := by
  rw [replaceAll_eq]
  intro hocc
  have hnonempty : ∀ x ∈ [(other, value)], x.1 ≠ [] := List.forall_mem_singleton.2 hne
  have hinert : ∀ x ∈ [(other, value)], Inert pattern x.2 := List.forall_mem_singleton.2 h
  obtain ⟨j, hj, -⟩ := infix_of_replaceEach hnonempty hinert hocc
  exact hcs (hj.isInfix.trans (List.drop_suffix j cs).isInfix)

/-- A pattern whose value is inert is replaced throughout. -/
theorem Inert.not_infix_replaced (h : Inert pattern value) (hne : pattern ≠ []) :
    ¬ pattern <:+: replaceAll pattern value cs := by
  rw [replaceAll_eq]
  intro hocc
  have hnonempty : ∀ x ∈ [(pattern, value)], x.1 ≠ [] := List.forall_mem_singleton.2 hne
  have hinert : ∀ x ∈ [(pattern, value)], Inert pattern x.2 := List.forall_mem_singleton.2 h
  obtain ⟨j, hj, hnone⟩ := infix_of_replaceEach hnonempty hinert hocc
  exact opening?_eq_none_iff.1 (hnone 0 (List.length_pos_iff.2 hne)) _ (List.mem_singleton_self _) hj

/-! ## One after the other -/

/-- Within an occurrence of a pattern of the table, behind its beginning, none begins. -/
def Separate (table : Table) (cs : List Char) : Prop :=
  ∀ x ∈ table, ∀ y ∈ table, ∀ i j, x.1 <+: cs.drop i → 0 < j → j < x.1.length →
    ¬ y.1 <+: cs.drop (i + j)

/-- **One more replacement after a pass** is a pass with one more replacement. -/
theorem replaceAll_replaceEach (hpattern : pattern ≠ []) (hne : ∀ x ∈ table, x.1 ≠ [])
    (hinert : ∀ x ∈ table, Inert pattern x.2)
    (hclear : ∀ x ∈ table, ∀ i j, pattern <+: cs.drop i → 0 < j → j < pattern.length →
      ¬ x.1 <+: cs.drop (i + j)) :
    replaceAll pattern value (replaceEach table cs) =
      replaceEach (table ++ [(pattern, value)]) cs := by
  induction hn : cs.length using Nat.strong_induction_on generalizing cs with
  | _ n ih =>
  subst hn
  -- the rest of the text keeps the patterns apart as well
  have hrest : ∀ k, 0 < k → cs ≠ [] →
      replaceAll pattern value (replaceEach table (cs.drop k)) =
        replaceEach (table ++ [(pattern, value)]) (cs.drop k) := by
    intro k hk hcs
    have hlength : 0 < cs.length := List.length_pos_iff.2 hcs
    refine ih (cs.drop k).length (by rw [List.length_drop]; omega) ?_ rfl
    intro x hx i j hi hj hlt
    rw [List.drop_drop] at hi
    rw [List.drop_drop, ← Nat.add_assoc]
    exact hclear x hx (k + i) j hi hj hlt
  cases cs with
  | nil => rfl
  | cons c cs =>
    have hstart := opening?_append table [(pattern, value)] (c :: cs)
    cases hopen : opening? table (c :: cs) with
    | some x =>
      obtain ⟨hx, -⟩ := of_opening? hopen
      rw [hopen, Option.some_or] at hstart
      rw [replaceEach_of_opening hopen (hne x hx), (hinert x hx).replaceAll_append,
        replaceEach_of_opening hstart (hne x hx),
        hrest _ (List.length_pos_iff.2 (hne x hx)) (List.cons_ne_nil c cs)]
    | none =>
      rw [hopen, Option.none_or, opening?_cons] at hstart
      by_cases hpre : pattern <+: c :: cs
      · -- the first pass copies the pattern whole
        rw [if_pos hpre] at hstart
        have hnone : ∀ i < pattern.length, opening? table ((c :: cs).drop i) = none := by
          intro i hi
          rcases Nat.eq_zero_or_pos i with rfl | hpos
          · exact hopen
          · rw [opening?_eq_none_iff]
            intro x hx hbegins
            refine hclear x hx 0 i hpre hpos hi ?_
            rwa [Nat.zero_add]
        have hcopied := replaceEach_copies hnone
        rw [← List.prefix_iff_eq_take.1 hpre] at hcopied
        have hopens : opening? [(pattern, value)] (replaceEach table (c :: cs)) =
            some (pattern, value) := by
          rw [hcopied, opening?_cons, if_pos (List.prefix_append _ _)]
        rw [replaceAll_eq, replaceEach_of_opening hopens hpattern, hcopied, List.drop_left,
          ← replaceAll_eq, hrest _ (List.length_pos_iff.2 hpattern) (List.cons_ne_nil c cs),
          replaceEach_of_opening hstart hpattern]
      · -- no pattern begins here, in the text or in what the first pass made of it
        rw [if_neg hpre] at hstart
        have hnone : opening? [(pattern, value)] (replaceEach table (c :: cs)) = none := by
          rw [opening?_cons, if_neg fun h => hpre (prefix_of_replaceEach hne hinert h).1]
          rfl
        rw [replaceEach_of_none hopen] at hnone ⊢
        rw [replaceAll_eq, replaceEach_of_none hnone, ← replaceAll_eq, replaceEach_of_none hstart]
        exact congrArg (c :: ·) (hrest 1 Nat.one_pos (List.cons_ne_nil c cs))

/-- **Replacements one after the other are one pass**, if the values are inert and the patterns
keep apart in the text. -/
theorem foldl_replaceAll (hne : ∀ x ∈ table, x.1 ≠ [])
    (hinert : ∀ x ∈ table, ∀ y ∈ table, Inert x.1 y.2) (hsep : Separate table cs) :
    table.foldl (fun cs (pattern, value) => replaceAll pattern value cs) cs =
      replaceEach table cs := by
  -- the replacements made so far are a pass over the text
  have key : ∀ done, done <+: table →
      done.foldl (fun cs (pattern, value) => replaceAll pattern value cs) cs =
        replaceEach done cs := by
    intro done
    induction done using List.reverseRecOn with
    | nil =>
      intro _
      exact (replaceEach_eq_self fun x hx => absurd hx List.not_mem_nil).symm
    | append_singleton done x ih =>
      intro hdone
      have hx : x ∈ table := hdone.subset (List.mem_append_right done (List.mem_singleton.2 rfl))
      have hbefore : ∀ y ∈ done, y ∈ table := fun y hy => hdone.subset (List.mem_append_left _ hy)
      rw [List.foldl_append, ih ((List.prefix_append done [x]).trans hdone)]
      exact replaceAll_replaceEach (hne x hx) (fun y hy => hne y (hbefore y hy))
        (fun y hy => hinert x hx y (hbefore y hy)) (fun y hy => hsep x hx y (hbefore y hy))
  exact key table List.prefix_rfl

end OpenRelay.Text
