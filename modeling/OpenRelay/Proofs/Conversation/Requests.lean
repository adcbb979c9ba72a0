import OpenRelay.Proofs.Conversation.Failures
import OpenRelay.Proofs.Conversation.Stops

/-!
# Requests in the record and on the wire

The record of an attempt notes the commands of its envelope. Each is noted before the line is handed
over, and between the two it is asked whether the scan was cancelled. So the record says of a
command that it was sent if it was, and also if it was the one before which the scan stopped.

* `Takes.sentAs_iff`: what a step hands over as a command of the envelope.
* `Pursues.requests`: what the steps of an attempt note and hand over.
* `request_noted_iff_sent`: the commands that are noted are those that were sent, stage by stage,
  exactly if the attempt was not cut off before that stage.
* `request_noted_unsent`: such an attempt.
-/

namespace OpenRelay

variable {s : Settings} {address : Address} {index : Nat} {rule : Rule} {banner : Option Reply}
  {stage : Stage} {st : Step} {steps : List Step} {a b : Attempt} {c c' : Bool}
  {es es' : List Entry}

/-- The stages whose commands an attempt notes. -/
def Stage.ofEnvelope : List Stage := [.helo, .mailFrom, .rcptTo]

/-- The command noted for a stage. -/
def Attempt.request? (a : Attempt) : Stage → Option String
  | .helo => a.heloRequest
  | .mailFrom => a.mailFromRequest
  | .rcptTo => a.rcptToRequest
  | _ => none

/-- A line was handed over as the command of a stage, whether it came through or not. -/
def SentAs (es : List Entry) (stage : Stage) (line : String) : Prop :=
  line ∈ sentLines es ∧ Stage.ofLine? line = some stage

theorem sentAs_append {line : String} :
    SentAs (es ++ es') stage line ↔ SentAs es stage line ∨ SentAs es' stage line := by
  unfold SentAs
  rw [sentLines_append, List.mem_append, or_and_right]

namespace Attempt

theorem request?_noteRequest (a : Attempt) (h : stage ∈ Stage.ofEnvelope) (st : Stage)
    (line : String) :
    (a.noteRequest st line).request? stage = if st = stage then some line else a.request? stage := by
  simp only [Stage.ofEnvelope, List.mem_cons, List.not_mem_nil, or_false] at h
  rcases h with rfl | rfl | rfl <;> cases st <;> rfl

@[simp] theorem request?_noteReply (a : Attempt) (st : Stage) (r : Reply) (stage : Stage) :
    (a.noteReply st r).request? stage = a.request? stage := by
  cases st <;> cases stage <;> rfl

@[simp] theorem request?_setFailure (a : Attempt) (failure : Option Failure) (stage : Stage) :
    { a with failure }.request? stage = a.request? stage := by cases stage <;> rfl

@[simp] theorem request?_setVerdict (a : Attempt) (verdict : Verdict) (stage : Stage) :
    { a with verdict }.request? stage = a.request? stage := by cases stage <;> rfl

end Attempt

/-! ## Steps -/

/-- The commands of the envelope stand alone in their steps. -/
theorem body_eq_nil_of_envelope (hst : st ∈ s.stepsOf address index rule)
    (hstage : st.stage ∈ Stage.ofEnvelope) : st.body = [] := by
  have hdata : Stage.dataEnd ∉ Stage.ofEnvelope := by decide
  unfold Settings.stepsOf at hst
  split at hst
  · simp only [List.cons_append, List.nil_append, List.mem_cons, List.not_mem_nil, or_false] at hst
    rcases hst with rfl | rfl | rfl | rfl | rfl
    · rfl
    · rfl
    · rfl
    · rfl
    · exact absurd hstage hdata
  · simp only [List.append_nil, List.mem_cons, List.not_mem_nil, or_false] at hst
    rcases hst with rfl | rfl | rfl <;> rfl

/-- A step with one line hands it over, unless the scan was cancelled before. -/
theorem Takes.sent_iff {out : Except Halt Reply} (ht : Takes st c es out c')
    (hbody : st.body = []) :
    st.command ∈ sentLines es ↔ out ≠ .error (.cancelled st.stage) := by
  constructor
  · intro hmem hout
    subst hout
    obtain ⟨-, rfl, -⟩ := ht.of_cancelled hbody
    cases hmem
  · intro hout
    cases ht with
    | unsent ht =>
      rw [hbody, List.nil_append] at ht
      cases ht with
      | cancelled => exact absurd rfl hout
      | failed => exact List.mem_singleton_self _
      | sent ht => cases ht
    | sent ht _ =>
      obtain ⟨-, rfl⟩ := ht.eq_of_ok
      simp

/-- **What a step hands over as a command of the envelope** is its own command, unless the scan was
cancelled before. -/
theorem Takes.sentAs_iff {out : Except Halt Reply} (ht : Takes st c es out c')
    (hst : st ∈ s.stepsOf address index rule) (hstage : stage ∈ Stage.ofEnvelope) (line : String) :
    SentAs es stage line ↔
      st.stage = stage ∧ line = st.command ∧ out ≠ .error (.cancelled stage) := by
  have hcommand := ofLine?_command hst
  -- the other lines of a step are no commands
  have hline : SentAs es stage line → line = st.command := by
    rintro ⟨hmem, hof⟩
    rcases List.mem_append.1 (ht.sentLines_subset hmem) with hbody | hlast
    · rw [ofLine?_body hst line hbody] at hof
      cases hof
    · exact List.mem_singleton.1 hlast
  constructor
  · intro hsent
    have heq := hline hsent
    obtain ⟨hmem, hof⟩ := hsent
    rw [heq, hcommand] at hof
    obtain rfl := Option.some.inj hof
    rw [heq] at hmem
    exact ⟨rfl, heq, (ht.sent_iff (body_eq_nil_of_envelope hst hstage)).1 hmem⟩
  · rintro ⟨rfl, rfl, hout⟩
    exact ⟨(ht.sent_iff (body_eq_nil_of_envelope hst hstage)).2 hout, hcommand⟩

/-! ## Attempts -/

/-- Steps are cut off before one of themselves. -/
theorem Pursues.stage_of_cancelled {out : Attempt × Option Halt} (hp : Pursues steps a c es out c')
    (hout : out.2 = some (.cancelled stage)) : stage ∈ steps.map (·.stage) := by
  induction hp with
  | through => cases hout
  | halted ht =>
    obtain rfl := Option.some.inj hout
    rcases ht.halt_at with h | ⟨e, h⟩
    · obtain rfl := Halt.cancelled.inj h
      exact List.mem_cons_self
    · cases h
  | refused _ _ => cases hout
  | accepted _ _ _ ih => exact List.mem_cons_of_mem _ (ih hout)

/-- Steps neither note nor hand over the command of a stage that is not among them. -/
theorem Pursues.requests_other {out : Attempt × Option Halt} (hp : Pursues steps a c es out c')
    (hsteps : ∀ st ∈ steps, st ∈ s.stepsOf address index rule) (hstage : stage ∈ Stage.ofEnvelope)
    (hother : stage ∉ steps.map (·.stage)) :
    out.1.request? stage = a.request? stage ∧ ∀ line, ¬ SentAs es stage line := by
  -- the first of the steps is another one
  have key : ∀ {st : Step} {rest : List Step} {a : Attempt} {c c' : Bool} {es : List Entry}
      {out : Except Halt Reply}, Takes st c es out c' →
      (∀ x ∈ st :: rest, x ∈ s.stepsOf address index rule) →
      stage ∉ (st :: rest).map (·.stage) →
      (a.noteRequest st.stage st.command).request? stage = a.request? stage ∧
        ∀ line, ¬ SentAs es stage line := by
    intro st rest a c c' es out ht hsteps hother
    have hne : st.stage ≠ stage := fun heq => hother (heq ▸ List.mem_cons_self)
    refine ⟨by rw [Attempt.request?_noteRequest a hstage, if_neg hne], fun line hline => ?_⟩
    exact hne ((ht.sentAs_iff (hsteps st List.mem_cons_self) hstage line).1 hline).1
  induction hp with
  | through => exact ⟨Attempt.request?_setVerdict .., by simp [SentAs]⟩
  | halted ht => exact key ht hsteps hother
  | refused ht _ =>
    rw [Attempt.request?_setFailure, Attempt.request?_noteReply]
    exact key ht hsteps hother
  | @accepted st rest a c es r c' es' out c'' ht _ _ ih =>
    obtain ⟨hnoted, hunsent⟩ := key (a := a) ht hsteps hother
    obtain ⟨hrest, hunsent'⟩ := ih (fun x hx => hsteps x (List.mem_cons_of_mem _ hx))
      fun hmem => hother (List.mem_cons_of_mem _ hmem)
    rw [Attempt.request?_noteReply, hnoted] at hrest
    refine ⟨hrest, fun line hline => ?_⟩
    exact (sentAs_append.1 hline).elim (hunsent line) (hunsent' line)

/-- What is noted and handed over as the command of a stage agrees, unless the attempt was cut off
right before it. -/
structure Requested (rule : Rule) (stage : Stage) (es : List Entry) (noted : Option String)
    (cut : Prop) : Prop where
  noted_iff : ∀ line, noted = some line ↔ SentAs es stage line ∨ (cut ∧ line = rule.line stage)
  unsent : cut → ∀ line, ¬ SentAs es stage line

/-- **What the steps of an attempt note and hand over** as the command of a stage for which nothing
was noted before. -/
theorem Pursues.requests {out : Attempt × Option Halt} (hp : Pursues steps a c es out c')
    (hsteps : ∀ st ∈ steps, st ∈ s.stepsOf address index rule)
    (hnodup : (steps.map (·.stage)).Nodup) (hstage : stage ∈ Stage.ofEnvelope)
    (hnone : a.request? stage = none) :
    Requested rule stage es (out.1.request? stage) (out.2 = some (.cancelled stage)) := by
  induction hp with
  | through =>
    refine ⟨fun line => ?_, nofun⟩
    rw [Attempt.request?_setVerdict, hnone]
    simp [SentAs]
  | @halted st rest a c es halt c' ht =>
    have hst := hsteps st List.mem_cons_self
    have hsent := ht.sentAs_iff hst hstage
    have hcommand := command_of_mem_stepsOf hst
    refine ⟨fun line => ?_, fun hcut line hline => ?_⟩
    · rw [Attempt.request?_noteRequest a hstage, hsent]
      by_cases heq : st.stage = stage
      · -- the command of this step is noted, whether the step got to it or not
        rw [if_pos heq, hcommand, heq, Option.some.injEq, eq_comm]
        by_cases hhalt : halt = .cancelled stage <;> simp [hhalt]
      · have hcut : some halt ≠ some (.cancelled stage) := by
          intro h
          obtain rfl := Option.some.inj h
          rcases ht.halt_at with h | ⟨e, h⟩
          · exact heq (Halt.cancelled.inj h).symm
          · cases h
        simp [heq, hnone, hcut]
    · obtain rfl := Option.some.inj hcut
      exact ((hsent line).1 hline).2.2 rfl
  | @refused st rest a c es r c' ht _ =>
    have hst := hsteps st List.mem_cons_self
    refine ⟨fun line => ?_, nofun⟩
    rw [Attempt.request?_setFailure, Attempt.request?_noteReply,
      Attempt.request?_noteRequest a hstage, ht.sentAs_iff hst hstage]
    by_cases heq : st.stage = stage <;> simp [heq, hnone, eq_comm]
  | @accepted st rest a c es r c' es' out c'' ht _ hp ih =>
    have hst := hsteps st List.mem_cons_self
    have hsent := ht.sentAs_iff hst hstage
    have hrest : ∀ x ∈ rest, x ∈ s.stepsOf address index rule := fun x hx =>
      hsteps x (List.mem_cons_of_mem _ hx)
    obtain ⟨hfirst, hnodup'⟩ := List.nodup_cons.1 hnodup
    have hnoted := Attempt.request?_noteRequest a hstage st.stage st.command
    by_cases heq : st.stage = stage
    · -- this step hands the command over, and those after it neither take it back nor repeat it
      subst heq
      obtain ⟨hsame, hunsent⟩ := hp.requests_other hrest hstage hfirst
      have hcut : out.2 ≠ some (.cancelled st.stage) := fun h => hfirst (hp.stage_of_cancelled h)
      rw [Attempt.request?_noteReply, hnoted, if_pos rfl] at hsame
      refine ⟨fun line => ?_, fun h => absurd h hcut⟩
      rw [hsame, sentAs_append, hsent]
      simp [hunsent line, hcut, eq_comm]
    · rw [if_neg heq] at hnoted
      have hunsent : ∀ line, ¬ SentAs es stage line := fun line hline =>
        heq ((hsent line).1 hline).1
      obtain ⟨hiff, hcut⟩ := ih hrest hnodup' (by rw [Attempt.request?_noteReply, hnoted, hnone])
      refine ⟨fun line => ?_, fun h line hline => ?_⟩
      · rw [hiff line, sentAs_append, or_iff_right (hunsent line)]
      · exact (sentAs_append.1 hline).elim (hunsent line) (hcut h line)

/-- `RSET` is no command of the envelope. -/
theorem Takes.sentAs_reset {out : Except Halt Reply} (ht : Takes s.resetStep c es out c')
    (hstage : stage ∈ Stage.ofEnvelope) (line : String) : ¬ SentAs es stage line := by
  rintro ⟨hmem, hof⟩
  have heq : line = "RSET" := by
    simpa [Step.lines, Settings.resetStep] using ht.sentLines_subset hmem
  rw [heq, ofLine?_rset] at hof
  obtain rfl := Option.some.inj hof
  exact absurd hstage (by decide)

/-- An attempt was cut off before a stage of the envelope if its failure says so, and not
otherwise. -/
theorem Attempt.Pursued.failure_iff {halt : Option Halt} (hb : b.Pursued halt) :
    (b.ended halt).failure = some (.cancelled stage) ↔ halt = some (.cancelled stage) := by
  cases halt with
  | none =>
    refine ⟨fun hf => ?_, nofun⟩
    -- a refusal has a code, and this failure has none
    obtain ⟨-, ⟨r, -, hcode, -⟩, -⟩ := hb.refused _ hf
    cases hcode
  | some h =>
    obtain ⟨hnone, place, -, hat⟩ := hb.halted h rfl
    rw [ended, cutOff, hnone, Option.none_or, Option.some.injEq, Option.some.injEq]
    rcases hat with rfl | ⟨e, rfl⟩
    · constructor
      · intro heq
        rw [show place = stage from congrArg Failure.stage heq]
      · intro heq
        rw [heq]
        rfl
    · constructor
      · intro heq
        cases congrArg Failure.cause heq
      · intro heq
        cases heq

/-- What comes of `RSET` is never noted as a cancellation before another stage. -/
theorem Attempt.Pursued.failure_ne_of_reset {halt : Halt} (hb : b.Pursued none)
    (hat : halt.At .rset) (hstage : stage ∈ Stage.ofEnvelope) :
    (b.cutOff halt).failure ≠ some (.cancelled stage) := by
  intro hf
  cases hnone : b.failure with
  | none =>
    rw [cutOff, hnone, Option.none_or, Option.some.injEq] at hf
    have hplace : stage = .rset := (congrArg Failure.stage hf).symm.trans hat.failure.1
    rw [hplace] at hstage
    exact absurd hstage (by decide)
  | some f =>
    rw [cutOff, hnone] at hf
    have hcut : (b.ended none).failure = some (.cancelled stage) := hnone.trans hf
    exact Option.some_ne_none _ (hb.failure_iff.1 hcut).symm

/-- **What an attempt notes and hands over** in its round. -/
theorem Attempted.requests (hat : Attempted s address banner a es)
    (hstage : stage ∈ Stage.ofEnvelope) :
    Requested a.rule stage es (a.request? stage) (a.failure = some (.cancelled stage)) := by
  obtain ⟨b, halt, c', ht, ha⟩ := hat
  have hnodup : ((s.stepsOf address a.ruleIndex a.rule).map (·.stage)).Nodup := by
    rw [map_stage_stepsOf]
    exact nodup_stages s
  have hnone : ({ ruleIndex := a.ruleIndex, rule := a.rule, banner } : Attempt).request? stage
      = none := by cases stage <;> rfl
  have key : ∀ {es : List Entry} {b : Attempt} {halt : Option Halt} {c' : Bool},
      Pursues (s.stepsOf address a.ruleIndex a.rule)
        { ruleIndex := a.ruleIndex, rule := a.rule, banner } false es (b, halt) c' →
      Requested a.rule stage es (b.request? stage) (halt = some (.cancelled stage)) := fun hp =>
    hp.requests (fun _ hst => hst) hnodup hstage hnone
  -- with `RSET` behind them, whatever comes of it, the steps were not cut off
  have hreset : ∀ {es es' : List Entry} {b : Attempt} {c₁ c₂ : Bool} {out : Except Halt Reply},
      Pursues (s.stepsOf address a.ruleIndex a.rule)
        { ruleIndex := a.ruleIndex, rule := a.rule, banner } false es (b, none) c₁ →
      Takes s.resetStep c₁ es' out c₂ →
      Requested a.rule stage (es ++ es') (b.request? stage) False := by
    intro es es' b c₁ c₂ out hp hr
    refine ⟨fun line => ?_, False.elim⟩
    rw [(key hp).noted_iff, sentAs_append, or_iff_left (hr.sentAs_reset hstage line)]
    simp
  have hrequest : ∀ h, (b.cutOff h).request? stage = b.request? stage := fun h =>
    Attempt.request?_setFailure b _ stage
  cases ht with
  | @halted _ _ h _ hp =>
    have hcut : (a.failure = some (.cancelled stage)) = (some h = some (.cancelled stage)) := by
      rw [ha]
      exact propext hp.pursued.failure_iff
    rw [hcut, show a.request? stage = b.request? stage by rw [ha]; exact hrequest h]
    exact key hp
  | @unreset _ _ _ _ h _ hp hr =>
    have hcut : a.failure ≠ some (.cancelled stage) := by
      rw [ha]
      exact hp.pursued.failure_ne_of_reset hr.halt_at hstage
    rw [eq_false hcut, show a.request? stage = b.request? stage by rw [ha]; exact hrequest h]
    exact hreset hp hr
  | @reset _ b' _ _ r _ hp hr =>
    have hcut : a.failure ≠ some (.cancelled stage) := by
      rw [ha, Attempt.ended, Attempt.failure_noteReply]
      exact fun hf => Option.some_ne_none _ (hp.pursued.failure_iff.1 hf).symm
    have hsame : a.request? stage = b'.request? stage := by
      rw [ha, Attempt.ended, Attempt.request?_noteReply]
    rw [eq_false hcut, hsame]
    exact hreset hp hr

/-- A round opens with its `HELO`. -/
theorem Attempted.sentAs_helo (hat : Attempted s address banner a es) :
    SentAs es .helo a.rule.heloCommand := by
  obtain ⟨b, halt, c', ht, -⟩ := hat
  obtain ⟨res, c₁, es₁, rfl, -⟩ := ht.opens
  exact ⟨List.mem_cons_self, ofLine?_heloCommand a.rule⟩

/-- The commands noted for a stage are those that a round hands over. -/
def NotedAsSent (a : Attempt) (round : List Entry) (stage : Stage) : Prop :=
  ∀ line, a.request? stage = some line ↔ SentAs round stage line

/-- **The commands that are noted and those that were sent.** Whatever the peer does, and whenever
it cancels the scan, the record notes for a stage of the envelope what was handed over in the round
of the attempt, unless the attempt was cut off before that stage. Then it notes the command that was
due, and none was handed over; this does not happen to `HELO`. -/
theorem request_noted_iff_sent (s : Settings) (p : Peer) (index : Nat) (address : Address)
    (cancelled : Bool) :
    List.Forall₂
      (fun a round => ∀ stage ∈ Stage.ofEnvelope,
        (NotedAsSent a round stage ↔ a.failure ≠ some (.cancelled stage)) ∧
        (a.failure = some (.cancelled stage) →
          stage ≠ .helo ∧ a.request? stage = some (a.rule.line stage) ∧
            ∀ line, ¬ SentAs round stage line))
      (s.recordOf p index address cancelled).attempts
      (rounds (s.logOf p index address cancelled)) := by
  obtain ⟨c', h⟩ := s.checks p index address cancelled
  obtain ⟨hall, -⟩ := h.attempted
  refine hall.imp fun a round hat stage hstage => ?_
  obtain ⟨hnoted, hunsent⟩ := hat.requests hstage
  have hdue : a.failure = some (.cancelled stage) → a.request? stage = some (a.rule.line stage) :=
    fun hcut => (hnoted _).2 (Or.inr ⟨hcut, rfl⟩)
  constructor
  · constructor
    · intro hsent hcut
      exact hunsent hcut _ ((hsent _).1 (hdue hcut))
    · intro hcut line
      rw [hnoted line, or_iff_left fun h => hcut h.1]
  · intro hcut
    refine ⟨?_, hdue hcut, hunsent hcut⟩
    rintro rfl
    exact hunsent hcut _ hat.sentAs_helo

/-- A server that accepts everything. The scan is cancelled when it answers `HELO`. -/
def cancelsAtHelo : Script where
  send _ := { value := .ok () }
  read n := { value := .ok { code := 250, text := "" }, cancels := n = 1 }

/-- In a check of one rule against that server `MAIL FROM` is noted, and was not sent. -/
theorem request_noted_unsent :
    let s : Settings := { rules := [{ helo := "a", mailFrom := "b", rcptTo := "c" }] }
    let x : Address := { a := 192, b := 0, c := 2, d := 1 }
    ¬ List.Forall₂ (fun a round => ∀ stage ∈ Stage.ofEnvelope, NotedAsSent a round stage)
      (s.recordOf cancelsAtHelo.peer 0 x false).attempts
      (rounds (s.logOf cancelsAtHelo.peer 0 x false)) := by
  intro s x hall
  have hrequests : (s.recordOf cancelsAtHelo.peer 0 x false).attempts.map (·.mailFromRequest) =
      [some "MAIL FROM:<b>"] := by decide +kernel
  have hlines : (rounds (s.logOf cancelsAtHelo.peer 0 x false)).map sentLines = [["HELO a"]] := by
    decide +kernel
  obtain ⟨a, hattempts, hnoted⟩ := List.map_eq_singleton_iff.1 hrequests
  obtain ⟨round, hrounds, hsent⟩ := List.map_eq_singleton_iff.1 hlines
  rw [hattempts, hrounds, List.forall₂_cons] at hall
  obtain ⟨hmem, -⟩ := (hall.1 .mailFrom (by decide) "MAIL FROM:<b>").1 hnoted
  rw [hsent] at hmem
  exact absurd hmem (by decide)

end OpenRelay
