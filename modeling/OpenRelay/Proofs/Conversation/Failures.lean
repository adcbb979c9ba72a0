import OpenRelay.Proofs.Conversation.Decided
import OpenRelay.Proofs.Conversation.Verdict
import OpenRelay.Proofs.Conversation.Lockstep

/-!
# Why an attempt failed

An attempt notes one failure at most, though more than one thing can go wrong: a host refuses it,
and then the connection breaks before `RSET` is answered. A refusal is what is noted, with the reply
that decided, and no command of the attempt follows it.

* `Pursues.pursued`: what the steps of an attempt note, whether they are accepted, refused or cut
  off.
* `Tries.accountable`: what is noted in the end, whatever comes of `RSET`.
* `failures_accountable`: so it is with all attempts of a check.
-/

namespace OpenRelay

variable {s : Settings} {address : Address} {index : Nat} {rule : Rule} {banner : Option Reply}
  {st : Step} {steps : List Step} {a b : Attempt} {c c' : Bool} {es : List Entry}

/-- The stages at which a reply decides over an attempt. -/
def Stage.deciding : List Stage := [.helo, .mailFrom, .rcptTo, .dataStart, .dataEnd]

theorem Stage.ne_rset {stage : Stage} (h : stage ∈ Stage.deciding) : stage ≠ .rset := by
  rintro rfl
  exact absurd h (by decide)

/-- The place of a stage among all stages. -/
def Stage.place (stage : Stage) : Nat := Stage.all.idxOf stage

/-- A stop at this stage: the scan was cancelled before the stage, or the connection broke. -/
def Halt.At (h : Halt) (stage : Stage) : Prop :=
  h = .cancelled stage ∨ ∃ e, h = .broken (.io stage e)

theorem Halt.At.failure {h : Halt} {stage : Stage} (hat : h.At stage) :
    h.failure.stage = stage ∧ h.failure.cause ≠ .rejected := by
  rcases hat with rfl | ⟨e, rfl⟩
  · exact ⟨rfl, Cause.noConfusion⟩
  · exact ⟨rfl, Cause.noConfusion⟩

theorem Takes.halt_at {h : Halt} (ht : Takes st c es (.error h) c') : h.At st.stage := by
  obtain ⟨-, -, ⟨rfl, -⟩ | ⟨e, rfl, -⟩⟩ := ht.halted
  · exact Or.inl rfl
  · exact Or.inr ⟨e, rfl⟩

namespace Attempt

/-- The failure is the refusal of a stage: its reply is noted, is outside the class of replies that
the stage needs, and nothing but `RSET` was answered after it. -/
structure RefusedWith (a : Attempt) (f : Failure) : Prop where
  stage : f.stage ∈ Stage.deciding
  reply : ∃ r, a.reply? f.stage = some r ∧ f.code = some r.code ∧ f.message = r.text ∧
    (f.stage = .dataStart → ¬(300 ≤ r.code ∧ r.code ≤ 399)) ∧
    (f.stage ≠ .dataStart → ¬(200 ≤ r.code ∧ r.code ≤ 299))
  unfollowed : ∀ st, f.stage.place < st.place → st ≠ .rset → a.reply? st = none

/-- What the failure of an attempt says about it. -/
structure Accountable (a : Attempt) : Prop where
  failure_eq_none : a.failure = none ↔ a.verdict = .relayed ∧ a.rset.isSome = true
  refused : ∀ f ∈ a.failure, f.cause = .rejected → a.RefusedWith f
  /-- A reply that does not let the next step follow is the failure, whatever comes later. -/
  kept : ∀ st ∈ Stage.deciding, ∀ r, a.reply? st = some r → st.accepts r = false →
    a.failure = some (.rejected st r)
  /-- Only an attempt that went through fails at `RSET`. -/
  reset : ∀ f ∈ a.failure, f.stage = .rset → a.verdict = .relayed
  isTemporary_iff : a.isTemporary = true ↔ ∃ f ∈ a.failure, f.cause = .rejected ∧
    ∃ code, f.code = some code ∧ 400 ≤ code ∧ code ≤ 499

/-- What comes of `RSET` does not matter for a refusal. -/
theorem RefusedWith.congr {f : Failure} (h : a.RefusedWith f)
    (hreply : ∀ st, st ≠ .rset → b.reply? st = a.reply? st) : b.RefusedWith f := by
  obtain ⟨hstage, ⟨r, hr, hcode⟩, hlater⟩ := h
  exact ⟨hstage, ⟨r, (hreply _ (Stage.ne_rset hstage)).trans hr, hcode⟩,
    fun st hst hrset => (hreply st hrset).trans (hlater st hst hrset)⟩

/-- The code of a refusal is that of the reply that is noted, so it makes no difference which of
them says whether the refusal is for now. -/
theorem isTemporary_iff_of_refused (h : ∀ f ∈ a.failure, f.cause = .rejected → a.RefusedWith f) :
    a.isTemporary = true ↔ ∃ f ∈ a.failure, f.cause = .rejected ∧
      ∃ code, f.code = some code ∧ 400 ≤ code ∧ code ≤ 499 := by
  unfold isTemporary
  cases hf : a.failure with
  | none => simp
  | some f =>
    by_cases hcause : f.cause = .rejected
    · obtain ⟨r, hr, hcode, -⟩ := (h f hf hcause).reply
      simp [hcause, hr, hcode, Reply.isTransient, Nat.lt_succ_iff]
    · simp [hcause]

/-- An attempt whose steps up to these were accepted. -/
structure Awaits (a : Attempt) (steps : List Step) : Prop where
  verdict : a.verdict = .refused
  failure : a.failure = none
  accepted : ∀ st ∈ Stage.deciding, ∀ r, a.reply? st = some r → st.accepts r = true
  /-- The stages from the next step on have no reply. -/
  unanswered : ∀ x ∈ steps, ∀ st, x.stage.place ≤ st.place → a.reply? st = none
  reset : a.reply? .rset = none

/-- An attempt after its steps, before `RSET`, and what stopped it, if anything did. -/
structure Pursued (a : Attempt) (halt : Option Halt) : Prop where
  relayed_iff : a.verdict = .relayed ↔ a.failure = none ∧ halt = none
  refused : ∀ f ∈ a.failure, a.RefusedWith f
  kept : ∀ st ∈ Stage.deciding, ∀ r, a.reply? st = some r → st.accepts r = false →
    a.failure = some (.rejected st r)
  halted : ∀ h ∈ halt, a.failure = none ∧ ∃ stage ∈ Stage.deciding, h.At stage
  reset : a.reply? .rset = none

@[simp] theorem reply?_setFailure (a : Attempt) (failure : Option Failure) (stage : Stage) :
    { a with failure }.reply? stage = a.reply? stage := by cases stage <;> rfl

@[simp] theorem reply?_setVerdict (a : Attempt) (verdict : Verdict) (stage : Stage) :
    { a with verdict }.reply? stage = a.reply? stage := by cases stage <;> rfl

/-- A reply at a stage that decides is noted there, and nowhere else. -/
theorem reply?_answered (a : Attempt) (hst : st.stage ∈ Stage.deciding) (r : Reply)
    (stage : Stage) :
    ((a.noteRequest st.stage st.command).noteReply st.stage r).reply? stage =
      if stage = st.stage then some r else a.reply? stage := by
  rw [reply?_noteReply _ (List.dropLast_subset Stage.ofAttempt hst), reply?_noteRequest]

/-- So far there is no reply that does not accept. -/
theorem Awaits.not_refused {stage : Stage} {r : Reply} (h : a.Awaits steps)
    (hstage : stage ∈ Stage.deciding) (hr : a.reply? stage = some r) :
    stage.accepts r ≠ false := by
  rw [h.accepted stage hstage r hr]
  exact Bool.noConfusion

/-- **A reply that is accepted** leaves the attempt before its next step. -/
theorem Awaits.next {r : Reply} (h : a.Awaits (st :: steps))
    (horder : ∀ x ∈ steps, st.stage.place < x.stage.place) (hst : st.stage ∈ Stage.deciding)
    (hr : st.stage.accepts r = true) :
    ((a.noteRequest st.stage st.command).noteReply st.stage r).Awaits steps where
  verdict := by simpa using h.verdict
  failure := by simpa using h.failure
  accepted stage hstage r' hr' := by
    rw [reply?_answered a hst] at hr'
    split at hr'
    · next heq =>
      obtain rfl := Option.some.inj hr'
      rw [heq]
      exact hr
    · exact h.accepted stage hstage r' hr'
  unanswered x hx stage hle := by
    have hlt := horder x hx
    rw [reply?_answered a hst, if_neg]
    · exact h.unanswered st List.mem_cons_self stage (Nat.le_of_lt (Nat.lt_of_lt_of_le hlt hle))
    · rintro rfl
      omega
  reset := by
    rw [reply?_answered a hst, if_neg (Stage.ne_rset hst).symm]
    exact h.reset

/-- **A reply that is not accepted** is the failure. -/
theorem Awaits.refused {r : Reply} (h : a.Awaits (st :: steps)) (hst : st.stage ∈ Stage.deciding)
    (hr : st.stage.accepts r = false) :
    Pursued { (a.noteRequest st.stage st.command).noteReply st.stage r with
      failure := some (.rejected st.stage r) } none := by
  generalize hb : (a.noteRequest st.stage st.command).noteReply st.stage r = b
  have hreply : ∀ stage, b.reply? stage = if stage = st.stage then some r else a.reply? stage := by
    rw [← hb]
    exact reply?_answered a hst r
  have hverdict : b.verdict = .refused := by
    rw [← hb]
    simpa using h.verdict
  refine ⟨by simp [hverdict], ?_, ?_, nofun, ?_⟩
  · rintro f ⟨⟩
    refine ⟨hst, ⟨r, ?_, rfl, rfl, fun heq => ?_, fun hne => ?_⟩, fun stage hlt _ => ?_⟩
    · simp [Failure.rejected, hreply]
    · change st.stage = .dataStart at heq
      rw [← isIntermediate_iff]
      simpa [heq, Stage.accepts] using hr
    · change st.stage ≠ .dataStart at hne
      rw [← isCompletion_iff]
      simpa [hne, Stage.accepts] using hr
    · change st.stage.place < stage.place at hlt
      rw [reply?_setFailure, hreply, if_neg]
      · exact h.unanswered st List.mem_cons_self stage (Nat.le_of_lt hlt)
      · rintro rfl
        exact absurd hlt (Nat.lt_irrefl _)
  · intro stage hstage r' hr' haccepts
    rw [reply?_setFailure, hreply] at hr'
    split at hr'
    · next heq =>
      obtain rfl := Option.some.inj hr'
      rw [heq]
    · exact absurd haccepts (h.not_refused hstage hr')
  · rw [reply?_setFailure, hreply, if_neg (Stage.ne_rset hst).symm]
    exact h.reset

/-- **Steps leave an attempt** as one that went through, was refused, or was cut off. -/
theorem Awaits.pursued {halt : Option Halt} (h : a.Awaits steps)
    (hp : Pursues steps a c es (b, halt) c')
    (horder : steps.Pairwise fun x y => x.stage.place < y.stage.place)
    (hdeciding : ∀ x ∈ steps, x.stage ∈ Stage.deciding) : b.Pursued halt := by
  -- along the steps that are accepted, the attempt stays one that awaits its next step
  generalize hout : (b, halt) = out at hp
  induction hp with
  | through =>
    cases hout
    refine ⟨by simp [h.failure], by simp [h.failure], fun stage hstage r hr haccepts => ?_, nofun,
      h.reset⟩
    rw [reply?_setVerdict] at hr
    exact absurd haccepts (h.not_refused hstage hr)
  | halted ht =>
    cases hout
    refine ⟨by simp [h.verdict], by simp [h.failure], fun stage hstage r hr haccepts => ?_, ?_, ?_⟩
    · rw [reply?_noteRequest] at hr
      exact absurd haccepts (h.not_refused hstage hr)
    · rintro halt ⟨⟩
      exact ⟨by simp [h.failure], _, hdeciding _ List.mem_cons_self, ht.halt_at⟩
    · rw [reply?_noteRequest]
      exact h.reset
  | refused _ hr =>
    cases hout
    exact h.refused (hdeciding _ List.mem_cons_self) hr
  | accepted _ hr _ ih =>
    obtain ⟨hfirst, hrest⟩ := List.pairwise_cons.1 horder
    exact ih (h.next hfirst (hdeciding _ List.mem_cons_self) hr) hrest
      (fun x hx => hdeciding x (List.mem_cons_of_mem _ hx)) hout

/-- Nothing is answered before the first step. -/
theorem awaits_new (s : Settings) (address : Address) (index : Nat) (rule : Rule)
    (banner : Option Reply) :
    ({ ruleIndex := index, rule, banner } : Attempt).Awaits (s.stepsOf address index rule) where
  verdict := rfl
  failure := rfl
  accepted stage hstage r hr := by
    rw [reply?_new index rule banner stage (List.dropLast_subset Stage.ofAttempt hstage)] at hr
    cases hr
  unanswered x hx stage hle := by
    -- only the banner is known, and it comes before all steps
    have hbanner : Stage.banner.place < x.stage.place := by
      have : ∀ st ∈ Stage.deciding, Stage.banner.place < st.place := by decide
      exact this _ (stages_subset s (stage_mem_stages hx))
    cases stage with
    | banner => exact absurd hle (Nat.not_le.2 hbanner)
    | _ => rfl
  reset := rfl

/-! ## `RSET` -/

/-- A stop within the steps is the failure. -/
theorem Pursued.stopped {h : Halt} (ha : a.Pursued (some h)) : (a.cutOff h).Accountable := by
  obtain ⟨hnone, stage, hstage, hat⟩ := ha.halted h rfl
  obtain ⟨rfl, hcause⟩ := hat.failure
  have hfailure : (a.cutOff h).failure = some h.failure := by simp [cutOff, hnone]
  have hrefused : ∀ f ∈ (a.cutOff h).failure, f.cause = .rejected → (a.cutOff h).RefusedWith f := by
    rw [hfailure]
    rintro f ⟨⟩ hf
    exact absurd hf hcause
  refine ⟨?_, hrefused, fun st hst r hr haccepts => ?_, ?_, isTemporary_iff_of_refused hrefused⟩
  · have hverdict : a.verdict ≠ .relayed := fun hv => Option.some_ne_none h (ha.relayed_iff.1 hv).2
    simp [cutOff, hverdict]
  · rw [cutOff, reply?_setFailure] at hr
    rw [ha.kept st hst r hr haccepts] at hnone
    cases hnone
  · rw [hfailure]
    rintro f ⟨⟩ hf
    exact absurd hf (Stage.ne_rset hstage)

/-- A stop at `RSET` is the failure only of an attempt that went through. -/
theorem Pursued.stoppedAtReset {h : Halt} (ha : a.Pursued none) (hat : h.At .rset) :
    (a.cutOff h).Accountable := by
  obtain ⟨hstage, hcause⟩ := hat.failure
  have hreply : ∀ st, (a.cutOff h).reply? st = a.reply? st := reply?_setFailure a _
  have hfailure : ∀ f ∈ (a.cutOff h).failure,
      a.RefusedWith f ∨ (a.failure = none ∧ f = h.failure) := by
    intro f hf
    cases hnone : a.failure with
    | none => exact Or.inr ⟨rfl, by simpa [cutOff, hnone, eq_comm] using hf⟩
    | some f' =>
      obtain rfl : f' = f := by simpa [cutOff, hnone] using hf
      exact Or.inl (ha.refused f' hnone)
  have hrefused : ∀ f ∈ (a.cutOff h).failure, f.cause = .rejected → (a.cutOff h).RefusedWith f := by
    intro f hf hcause'
    rcases hfailure f hf with h' | ⟨-, rfl⟩
    · exact h'.congr fun st _ => hreply st
    · exact absurd hcause' hcause
  refine ⟨?_, hrefused, fun st hst r hr haccepts => ?_, fun f hf hrset => ?_,
    isTemporary_iff_of_refused hrefused⟩
  · have hrset : a.rset = none := ha.reset
    simp [cutOff, hrset]
  · have hkept := ha.kept st hst r ((hreply st).symm.trans hr) haccepts
    simp [cutOff, hkept]
  · rcases hfailure f hf with h' | ⟨hnone, -⟩
    · exact absurd hrset (Stage.ne_rset h'.stage)
    · exact ha.relayed_iff.2 ⟨hnone, rfl⟩

/-- An answer to `RSET` changes nothing else. -/
theorem Pursued.answered (ha : a.Pursued none) (r : Reply) :
    (a.noteReply .rset r).Accountable := by
  have hreply : ∀ st, st ≠ .rset → (a.noteReply .rset r).reply? st = a.reply? st := fun st hst => by
    rw [reply?_noteReply a (by decide), if_neg hst]
  have hrefused : ∀ f ∈ a.failure, (a.noteReply .rset r).RefusedWith f := fun f hf =>
    (ha.refused f hf).congr hreply
  refine ⟨?_, ?_, fun st hst r' hr haccepts => ?_, fun f hf hrset => ?_,
    isTemporary_iff_of_refused ?_⟩
  · rw [failure_noteReply, verdict_noteReply, ha.relayed_iff]
    simp [noteReply]
  · simpa using fun f hf _ => hrefused f hf
  · rw [hreply st (Stage.ne_rset hst)] at hr
    simpa using ha.kept st hst r' hr haccepts
  · exact absurd hrset (Stage.ne_rset (hrefused f (by simpa using hf)).stage)
  · simpa using fun f hf _ => hrefused f hf

end Attempt

theorem pairwise_place_stepsOf (s : Settings) (address : Address) (index : Nat) (rule : Rule) :
    (s.stepsOf address index rule).Pairwise fun x y => x.stage.place < y.stage.place := by
  have hstages : s.stages.Pairwise fun x y => x.place < y.place := by
    unfold Settings.stages
    split <;> decide
  rwa [← map_stage_stepsOf s address index rule, List.pairwise_map] at hstages

theorem Pursues.pursued {halt : Option Halt} (hp : Pursues (s.stepsOf address index rule)
    { ruleIndex := index, rule, banner } c es (b, halt) c') : b.Pursued halt :=
  (Attempt.awaits_new s address index rule banner).pursued hp
    (pairwise_place_stepsOf s address index rule) fun _ hx => stages_subset s (stage_mem_stages hx)

/-- **What an attempt notes**, whatever comes of `RSET`. -/
theorem Tries.accountable {halt : Option Halt}
    (ht : Tries (s.stepsOf address index rule) s.resetStep { ruleIndex := index, rule, banner } c es
      (b, halt) c') : (b.ended halt).Accountable := by
  cases ht with
  | halted hp => exact hp.pursued.stopped
  | unreset hp hr => exact hp.pursued.stoppedAtReset hr.halt_at
  | reset hp _ => exact hp.pursued.answered _

theorem Attempted.accountable (h : Attempted s address banner a es) : a.Accountable := by
  obtain ⟨b, halt, c', ht, rfl⟩ := h
  exact ht.accountable

/-- **The failures of a check.** Whatever the peer does, and whenever it cancels the scan, an
attempt notes a failure unless it went through and was reset. A refusal that is noted is that of the
one stage whose reply did not accept, and whether it is for now can be read off it. -/
theorem failures_accountable (s : Settings) (p : Peer) (index : Nat) (address : Address)
    (cancelled : Bool) :
    ∀ a ∈ (s.recordOf p index address cancelled).attempts, a.Accountable := by
  obtain ⟨c', h⟩ := s.checks p index address cancelled
  obtain ⟨hall, -⟩ := h.attempted
  exact ((List.forall₂_and_left _ _).1 (hall.imp fun _ _ ha => ⟨ha.accountable, ha⟩)).1

/-- A server that asks for patience, and whose connection breaks when `RSET` is due. -/
theorem refusal_kept_at_broken_reset :
    let s : Settings := { rules := [{ helo := "a", mailFrom := "b", rcptTo := "c" }] }
    let later : Reply := { code := 450, text := "later" }
    let breaks : Script :=
      { send := fun _ => { value := .ok () }
        read := fun n => { value :=
          if n < 3 then .ok { code := 250, text := "" }
          else if n = 3 then .ok later else .error "closed" } }
    ∃ a ∈ (s.recordOf breaks.peer 0 ⟨192, 0, 2, 1⟩ false).attempts,
      a.failure = some (.rejected .rcptTo later) ∧ a.rset = none ∧ a.isTemporary = true ∧
        a.Accountable := by
  intro s later breaks
  obtain ⟨a, ha, hfailure, hrset, htemporary⟩ :
      ∃ a ∈ (s.recordOf breaks.peer 0 ⟨192, 0, 2, 1⟩ false).attempts,
        a.failure = some (.rejected .rcptTo later) ∧ a.rset = none ∧ a.isTemporary = true := by
    decide +kernel
  exact ⟨a, ha, hfailure, hrset, htemporary, failures_accountable s breaks.peer 0 _ false a ha⟩

end OpenRelay
