import OpenRelay.Proofs.Rule.Placeholder

/-!
# Where the characters of an expanded template come from

The characters of an expanded template were put in for a macro of the mailbox, or kept: they are
those of the template, or of the address or the host name, which are put in before. Replacing goes
by the characters alone, so tracing changes nothing. But only characters that were put in can stand
between characters that did not stand together before.

* `Glyph`: a character with its origin.
* `Bindings.traced`: an expanded template of such characters.
* `Glyph.kept_infix_foldl`: a word of kept characters was there from the beginning, and is none of
  those that were replaced.
* `Bindings.put_of_traced`: so every macro that is left holds a character that was put in.
-/

namespace OpenRelay

/-- A character of an expanded template, and whether it was put in for a macro of the mailbox. -/
structure Glyph where
  char : Char
  isPut : Bool
deriving DecidableEq

namespace Glyph

def kept (c : Char) : Glyph := ⟨c, false⟩

def put (c : Char) : Glyph := ⟨c, true⟩

/-- Replaces a pattern by a value, whose characters are put in. `skip` counts the characters that
still belong to the occurrence replaced last. -/
def fillFrom (pattern value : List Char) : Nat → List Glyph → List Glyph
  | _, [] => []
  | skip + 1, _ :: gs => fillFrom pattern value skip gs
  | 0, g :: gs =>
    if pattern <+: (g :: gs).map char then
      value.map put ++ fillFrom pattern value (pattern.length - 1) gs
    else g :: fillFrom pattern value 0 gs

/-- A text in which a value is put in for every occurrence of the nonempty pattern. -/
def fill (pattern value : List Char) (gs : List Glyph) : List Glyph := fillFrom pattern value 0 gs

variable {pattern value : List Char} {gs : List Glyph} {u v : List Char} {g : Glyph}

@[simp] theorem map_char_kept (cs : List Char) : (cs.map kept).map char = cs := by
  rw [List.map_map]
  exact List.map_id cs

@[simp] theorem map_char_put (cs : List Char) : (cs.map put).map char = cs := by
  rw [List.map_map]
  exact List.map_id cs

/-- Characters none of which was put in are kept. -/
theorem eq_map_kept (h : ∀ g ∈ gs, g.isPut = false) : gs = (gs.map char).map kept := by
  rw [List.map_map]
  refine ((List.map_congr_left fun g hg => ?_).trans (List.map_id gs)).symm
  obtain ⟨c, isPut⟩ := g
  obtain rfl : isPut = false := h _ hg
  rfl

/-! ## Replacing -/

theorem map_char_fillFrom (pattern value : List Char) (skip : Nat) (gs : List Glyph) :
    (fillFrom pattern value skip gs).map char =
      Text.replaceFrom pattern value skip (gs.map char) := by
  induction gs generalizing skip with
  | nil => cases skip <;> rfl
  | cons g gs ih =>
    cases skip with
    | succ skip => exact ih skip
    | zero =>
      rw [fillFrom, List.map_cons, Text.replaceFrom]
      by_cases h : pattern <+: g.char :: gs.map char
      · rw [if_pos h, if_pos (List.isPrefixOf_iff_prefix.2 h), List.map_append, map_char_put, ih]
      · rw [if_neg h, if_neg fun h' => h (List.isPrefixOf_iff_prefix.1 h'), List.map_cons, ih]

/-- **Tracing changes no character.** -/
theorem map_char_fill (pattern value : List Char) (gs : List Glyph) :
    (fill pattern value gs).map char = Text.replaceAll pattern value (gs.map char) :=
  map_char_fillFrom pattern value 0 gs

theorem map_char_foldl (table : Text.Table) (gs : List Glyph) :
    (table.foldl (fun gs (pattern, value) => fill pattern value gs) gs).map char =
      table.foldl (fun cs (pattern, value) => Text.replaceAll pattern value cs) (gs.map char) :=
  (List.foldl_hom (List.map char) fun gs x => (map_char_fill x.1 x.2 gs).symm).symm

theorem fillFrom_eq (pattern value : List Char) (skip : Nat) (gs : List Glyph) :
    fillFrom pattern value skip gs = fill pattern value (gs.drop skip) := by
  induction skip generalizing gs with
  | zero => rfl
  | succ skip ih =>
    cases gs with
    | nil => rfl
    | cons g gs => exact ih gs

theorem fill_of_opening (hne : pattern ≠ []) (h : pattern <+: gs.map char) :
    fill pattern value gs = value.map put ++ fill pattern value (gs.drop pattern.length) := by
  cases gs with
  | nil => exact absurd (List.prefix_nil.1 h) hne
  | cons g gs =>
    obtain ⟨n, hn⟩ : ∃ n, pattern.length = n + 1 :=
      Nat.exists_eq_succ_of_ne_zero fun h0 => hne (List.length_eq_zero_iff.1 h0)
    rw [fill, fillFrom, if_pos h, fillFrom_eq, hn, List.drop_succ_cons, Nat.add_sub_cancel]

theorem fill_of_none (h : ¬ pattern <+: (g :: gs).map char) :
    fill pattern value (g :: gs) = g :: fill pattern value gs := by
  rw [fill, fillFrom, if_neg h]
  rfl

/-! ## Kept words -/

/-- A kept word does not begin within a value. -/
theorem kept_infix_of_append (hu : u ≠ []) (h : u.map kept <:+: v.map put ++ gs) :
    u.map kept <:+: gs := by
  induction v with
  | nil => exact h
  | cons c v ih =>
    rw [List.map_cons, List.cons_append, List.infix_cons_iff] at h
    refine ih (h.resolve_left fun hpre => ?_)
    cases u with
    | nil => exact hu rfl
    | cons d u => cases (List.cons_prefix_cons.1 hpre).1

/-- A kept word at the head was there before. -/
theorem kept_prefix_fill (hne : pattern ≠ []) (hvalue : value ≠ [])
    (h : u.map kept <+: fill pattern value gs) :
    u.map kept <+: gs := by
  induction gs generalizing u with
  | nil => exact h
  | cons g gs ih =>
    cases u with
    | nil => exact List.nil_prefix
    | cons d u =>
      by_cases hpre : pattern <+: (g :: gs).map char
      · obtain ⟨c, value, rfl⟩ := List.exists_cons_of_ne_nil hvalue
        rw [fill_of_opening hne hpre] at h
        cases (List.cons_prefix_cons.1 h).1
      · rw [fill_of_none hpre] at h
        obtain ⟨hg, hu⟩ := List.cons_prefix_cons.1 h
        exact List.cons_prefix_cons.2 ⟨hg, ih hu⟩

/-- **A kept word was there before**, and is not the one that was replaced. -/
theorem kept_infix_fill (hne : pattern ≠ []) (hvalue : value ≠ []) (hu : u ≠ [])
    (h : u.map kept <:+: fill pattern value gs) : u.map kept <:+: gs ∧ u ≠ pattern := by
  induction hn : gs.length using Nat.strong_induction_on generalizing gs with
  | _ n ih =>
  subst hn
  cases gs with
  | nil => exact absurd (List.map_eq_nil_iff.1 (List.infix_nil.1 h)) hu
  | cons g gs =>
    by_cases hpre : pattern <+: (g :: gs).map char
    · rw [fill_of_opening hne hpre] at h
      have hlt : ((g :: gs).drop pattern.length).length < (g :: gs).length := by
        have hpos := List.length_pos_iff.2 hne
        rw [List.length_drop, List.length_cons]
        omega
      obtain ⟨hbefore, hother⟩ := ih _ hlt (kept_infix_of_append hu h) rfl
      exact ⟨hbefore.trans (List.drop_suffix _ _).isInfix, hother⟩
    · rw [fill_of_none hpre, List.infix_cons_iff] at h
      rcases h with hhead | hrest
      · have hfill : u.map kept <+: fill pattern value (g :: gs) := by
          rwa [fill_of_none hpre]
        have hkept := kept_prefix_fill hne hvalue hfill
        refine ⟨hkept.isInfix, ?_⟩
        rintro rfl
        have hchars := hkept.map char
        rw [map_char_kept] at hchars
        exact hpre hchars
      · obtain ⟨hbefore, hother⟩ := ih _ (Nat.lt_succ_self _) hrest rfl
        exact ⟨hbefore.trans (List.suffix_cons g gs).isInfix, hother⟩

/-- So it is with several replacements. -/
theorem kept_infix_foldl {table : Text.Table} (h : ∀ x ∈ table, x.1 ≠ [] ∧ x.2 ≠ []) (hu : u ≠ [])
    (hocc : u.map kept <:+: table.foldl (fun gs (pattern, value) => fill pattern value gs) gs) :
    u.map kept <:+: gs ∧ ∀ x ∈ table, u ≠ x.1 := by
  induction table generalizing gs with
  | nil => exact ⟨hocc, fun x hx => absurd hx List.not_mem_nil⟩
  | cons x table ih =>
    obtain ⟨⟨hne, hvalue⟩, htable⟩ := List.forall_mem_cons.1 h
    obtain ⟨hfill, hothers⟩ := ih htable hocc
    obtain ⟨hbefore, hother⟩ := kept_infix_fill hne hvalue hu hfill
    exact ⟨hbefore, List.forall_mem_cons.2 ⟨hother, hothers⟩⟩

end Glyph

namespace Bindings

open Placeholder (ofMailbox)

variable {b : Bindings} {m : Mailbox}

/-- A template in which the macros that every target has are replaced. -/
def addressed (b : Bindings) (template : List Char) : List Char :=
  b.targetSubstitutions.foldl
    (fun cs (spelling, value) => Text.replaceAll spelling.toList value.toList cs) template

/-- The macros of the mailbox, if there is one, with the halves that they stand for. -/
def halves (b : Bindings) : Text.Table :=
  b.mailboxSubstitutions.map fun (spelling, value) => (spelling.toList, value.toList)

/-- An expanded template whose characters know where they come from. -/
def traced (b : Bindings) (template : List Char) : List Glyph :=
  b.halves.foldl (fun gs (pattern, value) => Glyph.fill pattern value gs)
    ((b.addressed template).map Glyph.kept)

theorem applyAll_eq_halves (b : Bindings) (cs : List Char) : b.applyAll cs =
    b.halves.foldl (fun cs (pattern, value) => Text.replaceAll pattern value cs)
      (b.addressed cs) := by
  rw [halves, List.foldl_map]
  exact List.foldl_append

/-- **Its characters are those of the expanded template.** -/
theorem map_char_traced (b : Bindings) (template : String) :
    (b.traced template.toList).map Glyph.char = (b.apply template).toList := by
  rw [toList_apply, applyAll_eq_halves, traced, Glyph.map_char_foldl, Glyph.map_char_kept]

theorem halves_some (h : b.mailbox = some m) : b.halves =
    [(Placeholder.name.spelling.toList, m.name.toList),
     (Placeholder.dashedName.spelling.toList, m.name.toList),
     (Placeholder.domain.spelling.toList, m.domain.toList),
     (Placeholder.dashedDomain.spelling.toList, m.domain.toList)] := by
  rw [halves, mailboxSubstitutions, h]
  rfl

/-- **A macro that is left holds a character that was put in**: none is left as it was written. -/
theorem put_of_traced (h : b.mailbox = some m) (hm : m.Usable) {cs : List Char} {p : Placeholder}
    (hp : p ∈ ofMailbox) {shown : List Glyph} (hocc : shown <:+: b.traced cs)
    (hshown : shown.map Glyph.char = p.spelling.toList) : ∃ g ∈ shown, g.isPut = true := by
  by_contra hnone
  have hkept : ∀ g ∈ shown, g.isPut = false := by
    intro g hg
    rw [← Bool.not_eq_true]
    exact fun hput => hnone ⟨g, hg, hput⟩
  rw [Glyph.eq_map_kept hkept, hshown, traced, halves_some h] at hocc
  have hfilled : ∀ x ∈ b.halves, x.1 ≠ [] ∧ x.2 ≠ [] := by
    rw [halves_some h]
    simp only [List.forall_mem_cons, List.not_mem_nil, false_imp_iff, implies_true, and_true,
      ne_eq, hm.name_ne_nil, hm.domain_ne_nil, Placeholder.spelling_ne_nil, not_false_eq_true]
  rw [halves_some h] at hfilled
  obtain ⟨-, hother⟩ := Glyph.kept_infix_foldl hfilled p.spelling_ne_nil hocc
  simp only [List.forall_mem_cons] at hother
  obtain ⟨hname, hdashedName, hdomain, hdashedDomain, -⟩ := hother
  simp only [ofMailbox, List.mem_cons, List.not_mem_nil, or_false] at hp
  rcases hp with rfl | rfl | rfl | rfl
  · exact hname rfl
  · exact hdomain rfl
  · exact hdashedName rfl
  · exact hdashedDomain rfl

end Bindings

end OpenRelay
