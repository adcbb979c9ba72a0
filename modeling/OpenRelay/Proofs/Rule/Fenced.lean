import OpenRelay.Proofs.Rule.Placeholder

/-!
# Macros that stand apart

A character that stands in no macro is a fence: replacements on one side of it do not see the other
side. A template is fenced if a fence, or its end, stands on either side of every macro. What is
put in there cannot complete a macro together with the text around it.

* `Fenced`: between two fences there is one macro or none.
* `Bindings.applyAll_append_cons`: the two sides of a fence are expanded by themselves.
* `Bindings.usesMailbox_fenced`: no macro for the mailbox is left in a fenced template, unless a
  value holds one.
* `Rules.fenced_standardMailbox`: the classic attempts are fenced.
-/

namespace OpenRelay

open Placeholder

/-- A character that stands in no macro. -/
def Placeholder.isFence (c : Char) : Bool := all.all fun m => !m.spelling.toList.contains c

theorem Placeholder.not_mem_of_isFence {c : Char} (h : isFence c = true) (m : Placeholder) :
    c ∉ m.spelling.toList := by
  have hm := List.all_eq_true.1 h m m.mem_all
  simpa using hm

/-- No macro holds another one. -/
theorem Placeholder.not_infix_of_ne {p q : Placeholder} (h : q ≠ p) :
    ¬ q.spelling.toList <:+: p.spelling.toList := by
  cases p <;> cases q <;> first | exact absurd rfl h | decide

/-- With a mailbox every macro stands for something. -/
theorem Placeholder.exists_value {b : Bindings} {m : Mailbox} (hm : b.mailbox = some m)
    (p : Placeholder) : ∃ v, p.value? b = some v := by
  cases p with
  | literal | address | host => exact ⟨_, rfl⟩
  | name | dashedName | domain | dashedDomain => exact ⟨_, by rw [value?, hm]; rfl⟩

/-- A text with no macro in it, or nothing but one. -/
def Word (w : List Char) : Prop :=
  (∀ m ∈ all, ¬ m.spelling.toList <:+: w) ∨ ∃ m ∈ all, m.spelling.toList = w

instance (w : List Char) : Decidable (Word w) := inferInstanceAs (Decidable (_ ∨ _))

/-- Between two fences there is one macro or none. -/
def Fenced (cs : List Char) : Prop := ∀ w ∈ cs.splitOnP isFence, Word w

instance (cs : List Char) : Decidable (Fenced cs) :=
  inferInstanceAs (Decidable (∀ w ∈ cs.splitOnP isFence, Word w))

variable {c : Char} {cs tail : List Char}

theorem fenced_append_cons (hc : isFence c = true) :
    Fenced (cs ++ c :: tail) ↔ Fenced cs ∧ Fenced tail := by
  unfold Fenced
  rw [List.splitOnP_append_cons _ _ hc, List.forall_mem_append]

theorem fenced_iff_word (h : ∀ c ∈ cs, isFence c = false) : Fenced cs ↔ Word cs := by
  unfold Fenced
  rw [List.splitOnP_eq_singleton h, List.forall_mem_singleton]

theorem Tame.usesMailbox {value : String} (h : Tame value) : Template.usesMailbox value = false :=
  Template.usesMailbox_eq_false_iff.2 fun p _ => (h.inert p).not_whole

namespace Bindings

variable {b : Bindings} {m : Mailbox} {template : String}

/-- No value holds a macro for the mailbox. -/
structure Unspoken (b : Bindings) : Prop where
  hostname : ∀ name ∈ b.hostname, Template.usesMailbox name = false
  mailbox : ∀ m ∈ b.mailbox,
    Template.usesMailbox m.name = false ∧ Template.usesMailbox m.domain = false

theorem Unspoken.value (hb : b.Unspoken) {p : Placeholder} {v : String}
    (hv : p.value? b = some v) : Template.usesMailbox v = false :=
  forall_value (P := fun v => Template.usesMailbox v = false)
    (OpenRelay.Tame.literal b.address).usesMailbox (OpenRelay.Tame.address b.address).usesMailbox
    hb.hostname hb.mailbox hv

/-- A value holds no macro that is replaced later. -/
theorem Unspoken.later (hb : b.Unspoken) : b.meanings.Pairwise fun x y => ¬ y.1 <:+: x.2 := by
  -- behind the macros of the address, and behind the host name, only those of the mailbox matter
  have hall : all.Pairwise fun p q => q ∈ ofMailbox ∨ p ∈ [.literal, .address] := by decide
  refine List.pairwise_filterMap.2 (hall.imp ?_)
  intro p q hpq x hx y hy
  obtain ⟨v, hv, rfl⟩ := Option.map_eq_some_iff.1 hx
  obtain ⟨-, -, rfl⟩ := Option.map_eq_some_iff.1 hy
  show ¬ q.spelling.toList <:+: v.toList
  rcases hpq with hq | hp
  · exact Template.usesMailbox_eq_false_iff.1 (hb.value hv) q hq
  · have htame : OpenRelay.Tame v := by
      simp only [List.mem_cons, List.not_mem_nil, or_false] at hp
      rcases hp with rfl | rfl
      · cases hv
        exact .literal b.address
      · cases hv
        exact .address b.address
    exact (htame.inert q).not_whole

/-- **The two sides of a fence are expanded by themselves.** -/
theorem applyAll_append_cons (hc : isFence c = true) :
    b.applyAll (cs ++ c :: tail) = b.applyAll cs ++ c :: b.applyAll tail := by
  rw [applyAll_eq, applyAll_eq, applyAll_eq]
  refine Text.foldl_replaceAll_append_cons fun x hx => ?_
  obtain ⟨p, v, -, rfl⟩ := mem_meanings hx
  exact ⟨p.spelling_ne_nil, not_mem_of_isFence hc p⟩

/-- No macro for the mailbox is left of a word. -/
theorem Unspoken.word (hb : b.Unspoken) (hm : b.mailbox = some m) (hw : Word cs) :
    ∀ p ∈ ofMailbox, ¬ p.spelling.toList <:+: b.applyAll cs := by
  rw [applyAll_eq]
  rcases hw with hfree | ⟨p, -, rfl⟩
  · rw [Text.foldl_replaceAll_eq_self]
    · exact fun p _ => hfree p p.mem_all
    · intro x hx
      obtain ⟨p, v, -, rfl⟩ := mem_meanings hx
      exact hfree p p.mem_all
  · have hapart : ∀ x ∈ b.meanings,
        x.1 = p.spelling.toList ∨ ¬ x.1 <:+: p.spelling.toList := by
      intro x hx
      obtain ⟨q, v, -, rfl⟩ := mem_meanings hx
      by_cases hq : q = p
      · exact .inl (by rw [hq])
      · exact .inr (not_infix_of_ne hq)
    obtain ⟨v, hv⟩ := p.exists_value hm
    have hmem : ∃ x ∈ b.meanings, x.1 = p.spelling.toList :=
      ⟨_, List.mem_filterMap.2 ⟨p, p.mem_all, by rw [hv]; rfl⟩, rfl⟩
    obtain ⟨x, hx, -, hvalue⟩ :=
      Text.foldl_replaceAll_pattern hb.later hapart p.spelling_ne_nil hmem
    obtain ⟨q, w, hw, rfl⟩ := mem_meanings hx
    rw [hvalue]
    exact Template.usesMailbox_eq_false_iff.1 (hb.value hw)

/-- **No macro for the mailbox is left in a fenced template**, unless a value holds one. -/
theorem Unspoken.usesMailbox_fenced (hb : b.Unspoken) (hm : b.mailbox = some m)
    (h : Fenced template.toList) : Template.usesMailbox (b.apply template) = false := by
  rw [Template.usesMailbox_eq_false_iff, toList_apply]
  generalize template.toList = cs at h
  induction hn : cs.length using Nat.strong_induction_on generalizing cs with
  | _ n ih =>
  subst hn
  by_cases hfence : ∃ c ∈ cs, isFence c = true
  · -- a fence parts the text, and the macros with it
    obtain ⟨c, hmem, hc⟩ := hfence
    obtain ⟨before, behind, rfl⟩ := List.append_of_mem hmem
    obtain ⟨hbefore, hbehind⟩ := (fenced_append_cons hc).1 h
    intro p hp
    rw [applyAll_append_cons hc, Text.infix_append_cons_iff (not_mem_of_isFence hc p), not_or]
    refine ⟨ih _ ?_ _ hbefore rfl p hp, ih _ ?_ _ hbehind rfl p hp⟩
    · rw [List.length_append, List.length_cons]
      omega
    · rw [List.length_append, List.length_cons]
      omega
  · have hnone : ∀ c ∈ cs, isFence c = false := by
      intro c hc
      rw [← Bool.not_eq_true]
      exact fun hfenced => hfence ⟨c, hc, hfenced⟩
    exact hb.word hm ((fenced_iff_word hnone).1 h)

end Bindings

/-- A rule whose fields are fenced. -/
def Rule.Fenced (r : Rule) : Prop :=
  ∀ f ∈ [Field.helo, .mailFrom, .rcptTo], OpenRelay.Fenced (r.get f).toList

instance (r : Rule) : Decidable r.Fenced :=
  inferInstanceAs
    (Decidable (∀ f ∈ [Field.helo, .mailFrom, .rcptTo], OpenRelay.Fenced (r.get f).toList))

/-- **The classic attempts are fenced.** -/
theorem Rules.fenced_standardMailbox : ∀ r ∈ Rules.standardMailbox, r.Fenced := by
  decide +kernel

end OpenRelay
