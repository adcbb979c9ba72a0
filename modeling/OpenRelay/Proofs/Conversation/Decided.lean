import OpenRelay.Proofs.Conversation.Round

/-!
# Checks that come to their end

A check that is neither broken nor cut short has made an attempt with every rule, and each attempt
was decided by a reply: it went through, or a stage was answered outside the class that it requires.

* `Pursues.decided`, `Tries.decided`: an attempt that is not cut off.
* `Checks.decided`: a whole check.
-/

namespace OpenRelay

variable {s : Settings} {steps : List Step} {a b : Attempt} {c c' : Bool}
  {es : List Entry} {index : Nat} {address : Address} {h h' : HostRecord}

/-- The attempt failed at a stage of the attempt whose noted reply does not accept. -/
def Attempt.RejectedAt (stages : List Stage) (a : Attempt) : Prop :=
  a.verdict = .refused ∧ ∃ st ∈ stages, ∃ r, a.failure = some (.rejected st r) ∧
    a.reply? st = some r ∧ st.accepts r = false

/-- An attempt that a reply decided, one way or the other. -/
def Attempt.DecidedAt (stages : List Stage) (a : Attempt) : Prop :=
  a.verdict = .relayed ∨ a.RejectedAt stages

/-- **Steps that are not cut off** are all accepted, or some reply does not accept. -/
theorem Pursues.decided (hp : Pursues steps a c es (b, none) c') (ha : a.verdict = .refused)
    (hstages : ∀ st ∈ steps, st.stage ∈ Stage.ofAttempt) :
    b.DecidedAt (steps.map (·.stage)) := by
  generalize hout : (b, (none : Option Halt)) = out at hp
  induction hp with
  | through => cases hout; exact Or.inl rfl
  | halted _ => cases hout
  | @refused st rest a c es r c' ht hr =>
    cases hout
    refine Or.inr ⟨by simpa using ha, st.stage, by simp, r, rfl, ?_, hr⟩
    have := Attempt.reply?_noteReply (a.noteRequest st.stage st.command)
      (hstages st List.mem_cons_self) r st.stage
    rw [if_pos rfl] at this
    exact this
  | @accepted st rest a c es r c' es' out c'' ht hr hp ih =>
    have hrest := ih (by simpa using ha) (fun st hst => hstages st (List.mem_cons_of_mem _ hst)) hout
    exact hrest.imp_right fun ⟨hv, st', hst, h⟩ => ⟨hv, st', List.mem_cons_of_mem _ hst, h⟩

/-- Further replies do not undo a decision. -/
theorem Attempt.DecidedAt.noteReset {stages : List Stage} {r : Reply} (hb : b.DecidedAt stages)
    (hstages : .rset ∉ stages) : (b.noteReply .rset r).DecidedAt stages := by
  refine hb.imp id fun ⟨hv, st, hst, r', hf, hr', hacc⟩ => ⟨hv, st, hst, r', hf, ?_, hacc⟩
  rw [Attempt.reply?_noteReply b (by decide), if_neg]
  · exact hr'
  · rintro rfl
    exact hstages hst

/-- **An attempt that is not cut off** is decided, and its `RSET` is answered. -/
theorem Tries.decided {rule : Rule}
    (ht : Tries (s.stepsOf address index rule) s.resetStep a c es (b, none) c')
    (ha : a.verdict = .refused) : b.DecidedAt s.stages ∧ ∃ r, b.rset = some r := by
  cases ht with
  | reset hp _ =>
    have hdecided := hp.decided ha fun st hst =>
      List.dropLast_subset _ (stages_subset s (stage_mem_stages hst))
    rw [map_stage_stepsOf] at hdecided
    refine ⟨hdecided.noteReset fun hmem => ?_, _, rfl⟩
    exact absurd (stages_subset s hmem) (by decide)

/-! ## Hosts -/

/-- A conversation that stops early says why. -/
theorem Closes.flagged {t : Duration} {halt : Halt} (hc : Closes t h halt c es h' c') :
    h'.fatal = true ∨ h'.cancelled = true := by
  cases hc with
  | silently _ => exact Or.inr rfl
  | politely _ _ _ => exact Or.inr rfl
  | broken => exact Or.inl rfl

/-- A host with which the conversation came to its end. -/
structure HostRecord.Completed (s : Settings) (h : HostRecord) : Prop where
  /-- There is one attempt for each rule, in the order of the rules. -/
  rules : h.attempts.map (fun a => (a.rule, a.ruleIndex)) = s.rulesFor h
  decided : ∀ a ∈ h.attempts, a.DecidedAt s.stages
  /-- After each attempt the conversation was reset. -/
  reset : ∀ a ∈ h.attempts, ∃ r, a.rset = some r

theorem TriesAll.completed {rules : List (Rule × Nat)} (ht : TriesAll s rules h c es h' c')
    (hfatal : h'.fatal = false) (hcancelled : h'.cancelled = false) :
    ∃ new, h'.attempts = h.attempts ++ new ∧
      new.map (fun a => (a.rule, a.ruleIndex)) = rules ∧
      ∀ a ∈ new, a.DecidedAt s.stages ∧ ∃ r, a.rset = some r := by
  have hopen : ∀ {t : Duration} {h h' : HostRecord} {halt : Halt} {c es c'},
      Closes t h halt c es h' c' → h'.fatal = false → h'.cancelled = false → False := by
    intro t h h' halt c es c' hq hfatal hcancelled
    rcases hq.flagged with hf | hf <;> simp_all
  induction ht with
  | finished _ => exact ⟨[], by simp, rfl, by simp⟩
  | cancelled hq => exact (hopen hq hfatal hcancelled).elim
  | halted _ hq => exact (hopen hq hfatal hcancelled).elim
  | @next rule index rest h es a c' es' h' c'' ht _ ih =>
    obtain ⟨new, hnew, hrules, hall⟩ := ih hfatal hcancelled
    have hrule := ht.rule_eq
    refine ⟨a :: new, by simp [hnew], ?_, List.forall_mem_cons.2 ⟨ht.decided rfl, hall⟩⟩
    simp_all

theorem Converses.completed (hc : Converses s h c es h' c') (hnone : h.attempts = [])
    (hfatal : h'.fatal = false) (hcancelled : h'.cancelled = false) : h'.Completed s := by
  cases hc with
  | cancelled hq => rcases hq.flagged with hf | hf <;> simp_all
  | unheard _ hq => rcases hq.flagged with hf | hf <;> simp_all
  | greeted hr ht =>
    obtain ⟨new, hnew, hrules, hall⟩ := ht.completed hfatal hcancelled
    obtain ⟨haddress, hhostname, -⟩ := ht.sameHost
    simp only [hnone, List.nil_append] at hnew
    subst hnew
    refine ⟨?_, fun a ha => (hall a ha).1, fun a ha => (hall a ha).2⟩
    simpa only [Settings.rulesFor, haddress, hhostname] using hrules

/-- **A check that is neither broken nor cut short** got through with its host. -/
theorem Checks.completed (hc : Checks s index address c es h c') (hopen : h.smtpOpen = true)
    (hfatal : h.fatal = false) (hcancelled : h.cancelled = false) : h.Completed s := by
  cases hc with
  | skipped => cases hcancelled
  | unreachable hi _ =>
    cases hi <;> cases hopen
  | reached hi _ hconv => exact hconv.completed hi.attempts_eq hfatal hcancelled

end OpenRelay
