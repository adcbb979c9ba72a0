import Mathlib.Data.List.Forall2
import OpenRelay.Proofs.Conversation.Course
import OpenRelay.Proofs.Conversation.Log

/-!
# What an attempt leaves in the log

* `Takes.answered`, `Takes.halted`: the log of one step.
* `Pursues.course`: the log of the steps of an attempt. Some steps are accepted; then all are, or
  the next is refused, or the next is cut off.
-/

namespace OpenRelay

variable {s : Settings} {stage : Stage} {st reset : Step} {steps : List Step} {a : Attempt}
  {c c' : Bool} {es : List Entry}

/-! ## What notes change -/

namespace Attempt

@[simp] theorem ruleIndex_noteRequest (a : Attempt) (st : Stage) (line : String) :
    (a.noteRequest st line).ruleIndex = a.ruleIndex := by cases st <;> rfl

@[simp] theorem rule_noteRequest (a : Attempt) (st : Stage) (line : String) :
    (a.noteRequest st line).rule = a.rule := by cases st <;> rfl

@[simp] theorem verdict_noteRequest (a : Attempt) (st : Stage) (line : String) :
    (a.noteRequest st line).verdict = a.verdict := by cases st <;> rfl

@[simp] theorem failure_noteRequest (a : Attempt) (st : Stage) (line : String) :
    (a.noteRequest st line).failure = a.failure := by cases st <;> rfl

@[simp] theorem reply?_noteRequest (a : Attempt) (st : Stage) (line : String) (st' : Stage) :
    (a.noteRequest st line).reply? st' = a.reply? st' := by cases st <;> rfl

@[simp] theorem ruleIndex_noteReply (a : Attempt) (st : Stage) (r : Reply) :
    (a.noteReply st r).ruleIndex = a.ruleIndex := by cases st <;> rfl

@[simp] theorem rule_noteReply (a : Attempt) (st : Stage) (r : Reply) :
    (a.noteReply st r).rule = a.rule := by cases st <;> rfl

@[simp] theorem verdict_noteReply (a : Attempt) (st : Stage) (r : Reply) :
    (a.noteReply st r).verdict = a.verdict := by cases st <;> rfl

@[simp] theorem failure_noteReply (a : Attempt) (st : Stage) (r : Reply) :
    (a.noteReply st r).failure = a.failure := by cases st <;> rfl

/-- A reply is noted under its stage and under no other. -/
theorem reply?_noteReply (a : Attempt) {st : Stage} (h : st ∈ Stage.ofAttempt) (r : Reply)
    (st' : Stage) :
    (a.noteReply st r).reply? st' = if st' = st then some r else a.reply? st' := by
  simp only [Stage.ofAttempt, List.mem_cons, List.not_mem_nil, or_false] at h
  rcases h with rfl | rfl | rfl | rfl | rfl | rfl <;> cases st' <;> rfl

end Attempt

/-! ## Lines -/

theorem Transmits.sentLines_prefix {lines : List String} {out : Except Halt Unit}
    (h : Transmits stage lines c es out c') : sentLines es <+: lines := by
  induction h with
  | done => exact List.prefix_refl _
  | cancelled => exact List.nil_prefix
  | failed => simp
  | sent _ ih => simpa using ih

theorem Transmits.speaks {lines : List String} {out : Except Halt Unit}
    (h : Transmits stage lines c es out c') : Speaks es := by
  cases h with
  | done => exact speaks_nil
  | cancelled => exact speaks_nil
  | failed => exact speaks_sent _ _ _ _
  | sent _ => exact speaks_sent _ _ _ _

theorem Transmits.reply?_eq_none {lines : List String} {out : Except Halt Unit}
    (h : Transmits stage lines c es out c') : ∀ e ∈ es, e.reply? = none := by
  induction h with
  | done => simp
  | cancelled => simp
  | failed => simp [Entry.reply?]
  | sent _ ih => simpa [Entry.reply?] using ih

/-- **Lines that all went out.** All but the last went out while the scan was going on. -/
theorem Transmits.eq_of_ok {lines : List String} {last : String}
    (h : Transmits stage (lines ++ [last]) c es (.ok ()) c') :
    c = false ∧ es = lines.map Entry.calm ++ [⟨.sent last (.ok ()), c'⟩] := by
  induction lines generalizing c es with
  | nil =>
    cases h with
    | sent h => cases h; exact ⟨rfl, rfl⟩
  | cons line rest ih =>
    cases h with
    | sent h =>
      obtain ⟨rfl, rfl⟩ := ih h
      exact ⟨rfl, rfl⟩

/-- **Lines that did not all go out.** The scan was cancelled before some line, or the last line
tried failed. -/
theorem Transmits.of_error {lines : List String} {h : Halt}
    (ht : Transmits stage lines c es (.error h) c') :
    (h = .cancelled stage ∧ c' = true ∧ (∀ e ∈ es, e.failed = false) ∧
        (sentLines es).length < lines.length) ∨
      ∃ e, h = .broken (.io stage e) ∧ ∃ x ∈ es, x.failed = true := by
  -- the result is an index of the relation, and must be a variable for the induction
  generalize hout : (Except.error h : Except Halt Unit) = out at ht
  induction ht with
  | done => cases hout
  | cancelled => cases hout; exact Or.inl ⟨rfl, rfl, by simp, by simp⟩
  | failed => cases hout; exact Or.inr ⟨_, rfl, _, List.mem_cons_self, rfl⟩
  | sent _ ih =>
    rcases ih hout with ⟨h1, h2, h3, h4⟩ | ⟨e, h1, x, h2, h3⟩
    · refine Or.inl ⟨h1, h2, ?_, by simpa using h4⟩
      simpa [Entry.failed] using h3
    · exact Or.inr ⟨e, h1, x, List.mem_cons_of_mem _ h2, h3⟩

/-! ## Steps -/

/-- The lines of a step. -/
def Step.lines (st : Step) : List String := st.body ++ [st.command]

theorem Takes.speaks {out : Except Halt Reply} (h : Takes st c es out c') : Speaks es := by
  cases h with
  | unsent h => exact h.speaks
  | sent h hr =>
    obtain ⟨-, rfl⟩ := h.eq_of_ok
    rw [List.append_assoc]
    refine Speaks.append ?_ (speaks_sent _ _ _ _)
    cases st.body with
    | nil => exact speaks_nil
    | cons line rest => exact speaks_sent _ _ _ _

/-- **The log of a step that was answered**: its lines, and the reply right after the last. -/
theorem Takes.answered {r : Reply} (h : Takes st c es (.ok r) c') :
    c = false ∧ ∃ c₁, (c₁ = true → c' = true) ∧ es = st.body.map Entry.calm ++
      [⟨.sent st.command (.ok ()), c₁⟩, ⟨.heard st.timeout (.ok r), c'⟩] := by
  cases h with
  | sent h hr =>
    obtain ⟨rfl, rfl⟩ := h.eq_of_ok
    cases hr with
    | answered hc => exact ⟨rfl, _, hc, by simp⟩

theorem sentLines_calm (lines : List String) : sentLines (lines.map Entry.calm) = lines := by
  induction lines with
  | nil => rfl
  | cons line rest ih => simpa using ih

theorem Takes.sentLines_answered {r : Reply} (h : Takes st c es (.ok r) c') :
    sentLines es = st.lines := by
  obtain ⟨-, c₁, -, rfl⟩ := h.answered
  simp [sentLines_calm, Step.lines]

theorem Takes.exchanges_answered {r : Reply} (h : Takes st c es (.ok r) c') :
    exchanges es = [(st.command, r)] := by
  obtain ⟨-, c₁, -, rfl⟩ := h.answered
  rw [exchanges_append (speaks_sent _ _ _ _), exchanges_eq_nil]
  · rfl
  · simp [Entry.reply?]

theorem Takes.heardReplies_answered {r : Reply} (h : Takes st c es (.ok r) c') :
    heardReplies es = [r] := by
  obtain ⟨-, c₁, -, rfl⟩ := h.answered
  simp [heardReplies, Entry.reply?, List.filterMap_cons]

theorem Takes.unfailed_answered {r : Reply} (h : Takes st c es (.ok r) c') :
    ∀ e ∈ es, e.failed = false := by
  obtain ⟨-, c₁, -, rfl⟩ := h.answered
  intro e he
  simp only [List.mem_append, List.mem_map, List.mem_cons, List.not_mem_nil, or_false] at he
  rcases he with ⟨line, -, rfl⟩ | rfl | rfl <;> rfl

/-- **The log of a step that was cut off.** It holds no reply. Either the scan was cancelled
before the command, or a send or a read failed. -/
theorem Takes.halted {h : Halt} (ht : Takes st c es (.error h) c') :
    (∀ e ∈ es, e.reply? = none) ∧ sentLines es <+: st.lines ∧
      ((h = .cancelled st.stage ∧ c' = true ∧ (∀ e ∈ es, e.failed = false) ∧
          sentLines es <+: st.body) ∨
        ∃ e, h = .broken (.io st.stage e) ∧ ∃ x ∈ es, x.failed = true) := by
  cases ht with
  | unsent ht =>
    have hp := ht.sentLines_prefix
    refine ⟨ht.reply?_eq_none, hp, ?_⟩
    rcases ht.of_error with ⟨h1, h2, h3, h4⟩ | h
    · refine Or.inl ⟨h1, h2, h3, ?_⟩
      refine List.prefix_of_prefix_length_le hp (List.prefix_append _ _) ?_
      rw [List.length_append, List.length_singleton] at h4
      omega
    · exact Or.inr h
  | sent hs hr =>
    obtain ⟨-, rfl⟩ := hs.eq_of_ok
    cases hr with
    | failed hc =>
      refine ⟨?_, ?_, Or.inr ⟨_, rfl, _, List.mem_append_right _ List.mem_cons_self, rfl⟩⟩
      · intro e he
        simp only [List.mem_append, List.mem_map, List.mem_cons, List.not_mem_nil,
          or_false] at he
        rcases he with (⟨line, -, rfl⟩ | rfl) | rfl <;> rfl
      · simp [sentLines_calm, Step.lines]

theorem heardReplies_eq_nil (h : ∀ e ∈ es, e.reply? = none) : heardReplies es = [] :=
  List.filterMap_eq_nil_iff.2 h

/-! ## Attempts -/

/-- What was exchanged in steps that were answered. -/
def exchanged (taken : List (Step × Reply)) : List (String × Reply) :=
  taken.map fun x => (x.1.command, x.2)

theorem Pursues.speaks {out : Attempt × Option Halt} (h : Pursues steps a c es out c') :
    Speaks es := by
  induction h with
  | through => exact speaks_nil
  | halted h => exact h.speaks
  | refused h _ => exact h.speaks
  | accepted h _ _ ih => exact h.speaks.append ih

/-- **The log of the steps of an attempt.** Steps are accepted one after the other, up to the last
step, to one that is refused, or to one that is cut off. -/
theorem Pursues.course {out : Attempt × Option Halt} (h : Pursues steps a c es out c') :
    ∃ (taken : List (Step × Reply)) (rest : List Step), steps = taken.map Prod.fst ++ rest ∧
      (∀ x ∈ taken, x.1.stage.accepts x.2 = true) ∧
      ((rest = [] ∧ out.2 = none ∧ out.1.verdict = .relayed ∧
          exchanges es = exchanged taken ∧
          sentLines es = taken.flatMap fun x => x.1.lines) ∨
        (∃ st r rest', rest = st :: rest' ∧ st.stage.accepts r = false ∧ out.2 = none ∧
          out.1.verdict = a.verdict ∧ exchanges es = exchanged taken ++ [(st.command, r)] ∧
          sentLines es = (taken.flatMap fun x => x.1.lines) ++ st.lines) ∨
        ∃ st halt rest' cut, rest = st :: rest' ∧ out.2 = some halt ∧
          out.1.verdict = a.verdict ∧ out.1.failure = a.failure ∧
          exchanges es = exchanged taken ∧
          sentLines es = (taken.flatMap fun x => x.1.lines) ++ cut ∧ cut <+: st.lines ∧
          ((halt = .cancelled st.stage ∧ c' = true ∧ (∀ e ∈ es, e.failed = false) ∧
              cut <+: st.body) ∨
            ∃ e, halt = .broken (.io st.stage e) ∧ ∃ x ∈ es, x.failed = true)) := by
  induction h with
  | through => exact ⟨[], [], rfl, by simp, Or.inl ⟨rfl, rfl, rfl, rfl, rfl⟩⟩
  | halted ht =>
    obtain ⟨hr, hl, h⟩ := ht.halted
    exact ⟨[], _, rfl, by simp, Or.inr (Or.inr ⟨_, _, _, _, rfl, rfl, by simp, by simp,
      exchanges_eq_nil hr, rfl, hl, h⟩)⟩
  | refused ht hr =>
    exact ⟨[], _, rfl, by simp, Or.inr (Or.inl ⟨_, _, _, rfl, hr, rfl, by simp,
      ht.exchanges_answered, ht.sentLines_answered⟩)⟩
  | @accepted st rest a c es r c' es' out c'' ht hr hp ih =>
    obtain ⟨taken, rest', rfl, hacc, h⟩ := ih
    have hx : exchanges (es ++ es') = (st.command, r) :: exchanges es' := by
      rw [exchanges_append hp.speaks, ht.exchanges_answered]; rfl
    have hl : sentLines (es ++ es') = st.lines ++ sentLines es' := by
      rw [sentLines_append, ht.sentLines_answered]
    refine ⟨(st, r) :: taken, rest', rfl, List.forall_mem_cons.2 ⟨hr, hacc⟩, ?_⟩
    rw [hx, hl]
    rcases h with ⟨h1, h2, h3, h4, h5⟩ | ⟨st', r', rest'', h1, h2, h3, h4, h5, h6⟩ |
      ⟨st', halt, rest'', cut, h1, h2, h3, h4, h5, h6, h7, h8⟩
    · exact Or.inl ⟨h1, h2, h3, by simp [h4, exchanged], by simp [h5]⟩
    · exact Or.inr (Or.inl ⟨st', r', rest'', h1, h2, h3, by simpa using h4,
        by simp [h5, exchanged], by simp [h6]⟩)
    · -- the steps after this one were cut off; this one was answered, so nothing failed in it
      refine Or.inr (Or.inr ⟨st', halt, rest'', cut, h1, h2, by simpa using h3,
        by simpa using h4, by simp [h5, exchanged], by simp [h6], h7, ?_⟩)
      rcases h8 with ⟨h9, h10, h11, h12⟩ | ⟨e, h9, x, h10, h11⟩
      · refine Or.inl ⟨h9, h10, fun e he => ?_, h12⟩
        rcases List.mem_append.1 he with he | he
        · exact ht.unfailed_answered e he
        · exact h11 e he
      · exact Or.inr ⟨e, h9, x, List.mem_append_right _ h10, h11⟩

end OpenRelay
