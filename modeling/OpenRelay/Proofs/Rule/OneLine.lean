import OpenRelay.Rule.Basic

/-!
# Texts without line breaks

A line break in a command or a message would start another one. Nothing that is put into a rule
brings one in.

* `Mailbox.Usable`: what is known of a mailbox that was read.
* `Text.mem_replaceAll`: where the characters of a replaced text come from.
* `Bindings.oneLine_apply`, `Rule.oneLine_expand`: an expanded rule has no line breaks, if neither
  the rule nor the values have any.
-/

namespace OpenRelay

/-- A text without line breaks. -/
def OneLine (s : String) : Prop := Rule.breaksLine s = false

instance (s : String) : Decidable (OneLine s) :=
  inferInstanceAs (Decidable (Rule.breaksLine s = false))

theorem oneLine_iff {s : String} : OneLine s ↔ ∀ c ∈ s.toList, c ≠ '\r' ∧ c ≠ '\n' := by
  simp [OneLine, Rule.breaksLine]

theorem OneLine.feed_not_mem {s : String} (h : OneLine s) : '\n' ∉ s.toList := fun hc =>
  (oneLine_iff.1 h _ hc).2 rfl

theorem oneLine_append {s s' : String} : OneLine (s ++ s') ↔ OneLine s ∧ OneLine s' := by
  simp only [oneLine_iff, String.toList_append, List.forall_mem_append]

theorem OneLine.append {s s' : String} (h : OneLine s) (h' : OneLine s') : OneLine (s ++ s') :=
  oneLine_append.2 ⟨h, h'⟩

/-! ## Numbers and addresses -/

/-- A number is written in digits. -/
theorem isDigit_of_mem_toString {n : Nat} {c : Char} (hc : c ∈ (toString n).toList) :
    c.isDigit = true :=
  Nat.isDigit_of_mem_toDigits (b := 10) (by decide) (by decide) (by simpa [Nat.repr] using hc)

/-- An address is written in digits and dots. -/
theorem Address.isDigit_or_dot {x : Address} {c : Char} (hc : c ∈ x.toString.toList) :
    c.isDigit = true ∨ c = '.' := by
  have htext : x.toString = toString x.a.toNat ++ "." ++ toString x.b.toNat ++ "." ++
      toString x.c.toNat ++ "." ++ toString x.d.toNat := rfl
  have hdot : (".").toList = ['.'] := by decide
  simp only [htext, String.toList_append, List.mem_append, hdot, List.mem_singleton] at hc
  rcases hc with (((((hc | hc) | hc) | hc) | hc) | hc) | hc
  all_goals first
    | exact Or.inl (isDigit_of_mem_toString hc)
    | exact Or.inr hc

theorem ne_break_of_isDigit {c : Char} (h : c.isDigit = true) : c ≠ '\r' ∧ c ≠ '\n' := by
  constructor
  · rintro rfl
    cases h
  · rintro rfl
    cases h

theorem oneLine_toString (n : Nat) : OneLine (toString n) :=
  oneLine_iff.2 fun _ hc => ne_break_of_isDigit (isDigit_of_mem_toString hc)

theorem oneLine_address (x : Address) : OneLine x.toString := by
  rw [oneLine_iff]
  intro c hc
  rcases Address.isDigit_or_dot hc with hdigit | rfl
  · exact ne_break_of_isDigit hdigit
  · decide

theorem oneLine_literal (x : Address) : OneLine x.literal :=
  ((show OneLine "[" by decide).append (oneLine_address x)).append (by decide)

/-! ## Mailboxes -/

/-- A mailbox as it is accepted: neither half is empty, and no character of either is foreign. -/
structure Mailbox.Usable (m : Mailbox) : Prop where
  name_ne_nil : m.name.toList ≠ []
  domain_ne_nil : m.domain.toList ≠ []
  name_plain : ∀ c ∈ m.name.toList, isForeign c = false
  domain_plain : ∀ c ∈ m.domain.toList, isForeign c = false

/-- A mailbox that was read is usable. -/
theorem Mailbox.usable_of_read? {text : String} {m : Mailbox} (h : Mailbox.read? text = .ok m) :
    m.Usable := by
  unfold Mailbox.read? at h
  dsimp only at h
  split at h
  · cases h
  · rename_i name domain hsplit
    split at h
    · cases h
    · rename_i hgood
      cases h
      simp only [not_or, List.any_eq_true, not_exists, not_and, Bool.not_eq_true,
        Text.eq_of_splitLast hsplit] at hgood
      obtain ⟨hname, hdomain, hplain⟩ := hgood
      refine ⟨?_, ?_, fun c hc => hplain c ?_, fun c hc => hplain c ?_⟩
      · rwa [String.toList_ofList]
      · rwa [String.toList_ofList]
      · rw [String.toList_ofList] at hc
        exact List.mem_append_left _ hc
      · rw [String.toList_ofList] at hc
        exact List.mem_append_right _ (List.mem_cons_of_mem _ hc)

/-- So it has no line breaks: a line break is blank, and what is blank is foreign. -/
theorem Mailbox.Usable.oneLine {m : Mailbox} (hm : m.Usable) :
    OneLine m.name ∧ OneLine m.domain := by
  have hbreak : ∀ c, isForeign c = false → c ≠ '\r' ∧ c ≠ '\n' := by
    intro c hc
    constructor <;> rintro rfl <;> revert hc <;> decide
  rw [oneLine_iff, oneLine_iff]
  exact ⟨fun c hc => hbreak c (hm.name_plain c hc), fun c hc => hbreak c (hm.domain_plain c hc)⟩

/-! ## Replacements -/

/-- The characters of a replaced text are those of the text and of the value put into it. -/
theorem Text.mem_replaceAll {pattern value cs : List Char} {c : Char}
    (h : c ∈ Text.replaceAll pattern value cs) : c ∈ value ∨ c ∈ cs := by
  unfold Text.replaceAll at h
  generalize (0 : Nat) = skip at h
  induction cs generalizing skip with
  | nil => cases skip <;> simp [Text.replaceFrom] at h
  | cons d cs ih =>
    cases skip with
    | succ skip =>
      rw [Text.replaceFrom] at h
      exact (ih _ h).imp_right (List.mem_cons_of_mem d)
    | zero =>
      rw [Text.replaceFrom] at h
      split at h
      · rcases List.mem_append.1 h with h | h
        · exact Or.inl h
        · exact (ih _ h).imp_right (List.mem_cons_of_mem d)
      · rcases List.mem_cons.1 h with rfl | h
        · exact Or.inr List.mem_cons_self
        · exact (ih _ h).imp_right (List.mem_cons_of_mem d)

/-- Values without line breaks. -/
structure Bindings.OneLine (b : Bindings) : Prop where
  hostname : ∀ name ∈ b.hostname, OpenRelay.OneLine name
  mailbox : ∀ m ∈ b.mailbox, OpenRelay.OneLine m.name ∧ OpenRelay.OneLine m.domain

theorem Bindings.OneLine.value {b : Bindings} (hb : b.OneLine) :
    ∀ x ∈ b.substitutions, OpenRelay.OneLine x.2 := by
  intro x hx
  rcases List.mem_append.1 hx with hx | hx
  · simp only [targetSubstitutions, List.mem_cons, List.not_mem_nil, or_false] at hx
    rcases hx with rfl | rfl | rfl
    · exact oneLine_literal _
    · exact oneLine_address _
    · unfold host
      cases hname : b.hostname with
      | none => exact oneLine_literal _
      | some name => exact hb.hostname name hname
  · unfold mailboxSubstitutions at hx
    cases hm : b.mailbox with
    | none => simp [hm] at hx
    | some m =>
      obtain ⟨hname, hdomain⟩ := hb.mailbox m hm
      simp only [hm, List.mem_cons, List.not_mem_nil, or_false] at hx
      rcases hx with rfl | rfl | rfl | rfl
      · exact hname
      · exact hname
      · exact hdomain
      · exact hdomain

/-- **Replacements bring no line break in.** -/
theorem Bindings.oneLine_apply {b : Bindings} (hb : b.OneLine) {template : String}
    (h : OpenRelay.OneLine template) : OpenRelay.OneLine (b.apply template) := by
  rw [oneLine_iff] at h
  have hall : ∀ c ∈ b.applyAll template.toList, c ≠ '\r' ∧ c ≠ '\n' := by
    have hvalue := hb.value
    unfold applyAll
    generalize b.substitutions = substitutions at hvalue
    generalize template.toList = cs at h
    induction substitutions generalizing cs with
    | nil => exact h
    | cons x rest ih =>
      obtain ⟨hx, hrest⟩ := List.forall_mem_cons.1 hvalue
      refine ih hrest _ fun c hc => ?_
      exact (Text.mem_replaceAll hc).elim (oneLine_iff.1 hx c) (h c)
  unfold apply
  split
  · exact oneLine_iff.2 h
  · rw [oneLine_iff, String.toList_ofList]
    exact hall

/-! ## Rules -/

/-- A rule whose fields have no line breaks. -/
structure Rule.OneLine (r : Rule) : Prop where
  helo : OpenRelay.OneLine r.helo
  mailFrom : OpenRelay.OneLine r.mailFrom
  rcptTo : OpenRelay.OneLine r.rcptTo

/-- **When a rule can be sent**: it has no line breaks, a name to announce, and a recipient. -/
theorem Rule.fault?_eq_none_iff {r : Rule} :
    r.fault? = none ↔ r.OneLine ∧ isBlank r.helo = false ∧ isBlank r.rcptTo = false := by
  have hfields : r.OneLine ↔
      ∀ f ∈ [Field.helo, .mailFrom, .rcptTo], ¬ breaksLine (r.get f) = true := by
    simp only [List.forall_mem_cons, List.not_mem_nil, false_imp_iff, implies_true, and_true,
      Bool.not_eq_true]
    exact ⟨fun h => ⟨h.helo, h.mailFrom, h.rcptTo⟩, fun h => ⟨h.1, h.2.1, h.2.2⟩⟩
  rw [hfields, ← List.find?_eq_none]
  unfold fault?
  cases [Field.helo, .mailFrom, .rcptTo].find? fun f => breaksLine (r.get f) with
  | some f => simp
  | none => simp [Rule.get]

/-- A rule that can be sent has no line breaks. -/
theorem Rule.oneLine_of_fault? {r : Rule} (h : r.fault? = none) : r.OneLine :=
  (fault?_eq_none_iff.1 h).1

theorem Rule.oneLine_expand {r : Rule} {b : Bindings} (hr : r.OneLine) (hb : b.OneLine) :
    (r.expand b).OneLine :=
  ⟨Bindings.oneLine_apply hb hr.helo, Bindings.oneLine_apply hb hr.mailFrom,
    Bindings.oneLine_apply hb hr.rcptTo⟩

namespace Rule.OneLine

variable {r : Rule}

theorem heloCommand (hr : r.OneLine) : OpenRelay.OneLine r.heloCommand :=
  (show OpenRelay.OneLine "HELO " by decide).append hr.helo

theorem mailFromCommand (hr : r.OneLine) : OpenRelay.OneLine r.mailFromCommand :=
  ((show OpenRelay.OneLine "MAIL FROM:<" by decide).append hr.mailFrom).append (by decide)

theorem rcptToCommand (hr : r.OneLine) : OpenRelay.OneLine r.rcptToCommand :=
  ((show OpenRelay.OneLine "RCPT TO:<" by decide).append hr.rcptTo).append (by decide)

end Rule.OneLine

end OpenRelay
