import Mathlib.Data.List.TakeWhile
import OpenRelay.Proofs.Conversation.Lockstep
import OpenRelay.Proofs.Conversation.Sequence

/-!
# What an early stop leaves in the record

* `Attempted.settled`: an attempt in whose round nothing failed was decided, or it was cut off by
  the cancelled scan and names the stage that it did not get to.
* `Checks.ending`: a check that opened a connection on which nothing failed got through all rules,
  or notes that the scan was cancelled.
-/

namespace OpenRelay

variable {s : Settings} {address : Address} {index : Nat} {rule : Rule} {banner : Option Reply}
  {st : Step} {a : Attempt} {c c' : Bool} {es : List Entry} {h h' : HostRecord}

/-- A reply of a round decides the attempt of its rule. -/
def DecidedIn (s : Settings) (rule : Rule) (round : List Entry) : Prop :=
  ∃ st r, (rule.line st, r) ∈ exchanges round ∧ s.Decides st r

/-- The first stage of an attempt whose command is not among the lines of a round. -/
def Settings.unsent? (s : Settings) (rule : Rule) (round : List Entry) : Option Stage :=
  s.stages.find? fun st => rule.line st ∉ sentLines round

/-- An attempt was cut off by the cancelled scan, and names the stage that it did not get to. -/
def CutOff (s : Settings) (a : Attempt) (round : List Entry) : Prop :=
  a.verdict = .refused ∧
    ∃ st, s.unsent? a.rule round = some st ∧ a.failure = some (.cancelled st)

theorem nodup_stages (s : Settings) : s.stages.Nodup := by
  unfold Settings.stages
  split <;> decide

/-- The steps before a step that was cut off sent their commands, and it did not. -/
theorem unsent?_eq {taken : List (Step × Reply)} {rest : List Step} {cut : List String}
    (hsplit : s.stepsOf address index rule = taken.map Prod.fst ++ st :: rest)
    (hlines : sentLines es = (taken.flatMap fun x => x.1.lines) ++ cut) (hcut : cut <+: st.body) :
    s.unsent? rule es = some st.stage := by
  have hmem := mem_of_split hsplit
  have htaken : ∀ x ∈ taken, x.1 ∈ s.stepsOf address index rule := by
    intro x hx
    rw [hsplit]
    exact List.mem_append_left _ (List.mem_map_of_mem hx)
  have hstages : s.stages = (taken.map (·.1.stage)) ++ st.stage :: rest.map (·.stage) := by
    rw [stages_of_split hsplit, List.map_map]; rfl
  have hline := ofLine?_command hmem
  rw [command_of_mem_stepsOf hmem] at hline
  unfold Settings.unsent?
  rw [List.find?_eq_some_iff_append]
  refine ⟨?_, _, _, hstages, ?_⟩
  · -- its command is none of the lines before it, as no two stages share a command
    rw [decide_eq_true_iff, hlines, List.mem_append, List.mem_flatMap]
    rintro (⟨x, hx, hin⟩ | hin)
    · rcases List.mem_append.1 hin with hin | hin
      · rw [ofLine?_body (htaken x hx) _ hin] at hline
        cases hline
      · rw [List.mem_singleton.1 hin, ofLine?_command (htaken x hx)] at hline
        have hnodup := nodup_stages s
        rw [hstages, List.nodup_append] at hnodup
        exact hnodup.2.2 _ (List.mem_map_of_mem hx) _ List.mem_cons_self (Option.some.inj hline)
    · rw [ofLine?_body hmem _ (hcut.subset hin)] at hline
      cases hline
  · intro stage hstage
    obtain ⟨x, hx, rfl⟩ := List.mem_map.1 hstage
    rw [← command_of_mem_stepsOf (htaken x hx), hlines]
    have : x.1.command ∈ taken.flatMap fun x => x.1.lines :=
      List.mem_flatMap.2 ⟨x, hx, by simp [Step.lines]⟩
    simp [this]

/-- **The steps of an attempt** decide it, or break, or are cut off before a stage. -/
theorem Pursues.settled {out : Attempt × Option Halt}
    (hp : Pursues (s.stepsOf address index rule) a c es out c') :
    (out.2 = none ∧ DecidedIn s rule es) ∨
      (∃ stage, out.2 = some (.cancelled stage) ∧ s.unsent? rule es = some stage ∧
        out.1.verdict = a.verdict ∧ out.1.failure = a.failure) ∨
      ∃ failure, out.2 = some (.broken failure) ∧ ∃ x ∈ es, x.failed = true := by
  obtain ⟨taken, rest, hsplit, hacc, h⟩ := hp.course
  rcases h with ⟨rfl, hnone, -, hx, -⟩ | ⟨st, r, rest', rfl, hr, hnone, -, hx, -⟩ |
    ⟨st, halt, rest', cut, rfl, hhalt, hv, hf, -, hlines, -, hstop⟩
  · refine Or.inl ⟨hnone, ?_⟩
    rw [List.append_nil] at hsplit
    have hne : taken ≠ [] := by rintro rfl; cases hsplit
    have hlast := List.getLast_mem hne
    have hmem : (taken.getLast hne).1 ∈ s.stepsOf address index rule := by
      rw [hsplit]; exact List.mem_map_of_mem hlast
    refine ⟨(taken.getLast hne).1.stage, (taken.getLast hne).2, ?_, stage_mem_stages hmem,
      Or.inr ?_⟩
    · rw [hx, ← command_of_mem_stepsOf hmem]
      exact List.mem_map_of_mem (f := fun x : Step × Reply => (x.1.command, x.2)) hlast
    · rw [← map_stage_stepsOf s address index rule, hsplit, List.map_map, List.getLast?_map,
        List.getLast?_eq_some_getLast hne]
      rfl
  · refine Or.inl ⟨hnone, st.stage, r, ?_, ?_, Or.inl hr⟩
    · rw [hx, ← command_of_mem_stepsOf (mem_of_split hsplit)]
      simp
    · exact stage_mem_stages (mem_of_split hsplit)
  · rcases hstop with ⟨rfl, -, -, hcut⟩ | ⟨e, rfl, hfailed⟩
    · exact Or.inr (Or.inl ⟨st.stage, hhalt, unsent?_eq hsplit hlines hcut, hv, hf⟩)
    · exact Or.inr (Or.inr ⟨_, hhalt, hfailed⟩)

theorem DecidedIn.append {es' : List Entry} (hd : DecidedIn s rule es) (hs : Speaks es') :
    DecidedIn s rule (es ++ es') := by
  obtain ⟨st, r, hmem, hdec⟩ := hd
  refine ⟨st, r, ?_, hdec⟩
  rw [exchanges_append hs]
  exact List.mem_append_left _ hmem

/-- **How an attempt ends**: decided, cut off, or broken. -/
theorem Attempted.settled (hat : Attempted s address banner a es) :
    DecidedIn s a.rule es ∨ CutOff s a es ∨ ∃ x ∈ es, x.failed = true := by
  obtain ⟨b, halt, c', ht, hb⟩ := hat
  cases ht with
  | halted hp =>
    rcases hp.settled with ⟨hnone, -⟩ | ⟨stage, hhalt, hunsent, hv, hf⟩ | ⟨failure, -, hfailed⟩
    · cases hnone
    · obtain rfl := Option.some.inj hhalt
      refine Or.inr (Or.inl ⟨?_, stage, hunsent, ?_⟩)
      · rw [hb, Attempt.verdict_ended]
        exact hv
      · have hf' : b.failure = none := hf
        rw [hb, Attempt.ended, Attempt.cutOff, hf']
        rfl
    · exact Or.inr (Or.inr hfailed)
  | unreset hp hr =>
    -- the attempt was decided before `RSET` broke
    rcases hp.settled with ⟨-, hd⟩ | ⟨stage, hhalt, -⟩ | ⟨failure, hhalt, -⟩
    · exact Or.inl (hd.append hr.speaks)
    · cases hhalt
    · cases hhalt
  | reset hp hr =>
    rcases hp.settled with ⟨-, hd⟩ | ⟨stage, hhalt, -⟩ | ⟨failure, hhalt, -⟩
    · exact Or.inl (hd.append hr.speaks)
    · cases hhalt
    · cases hhalt

/-! ## The end of a check -/

/-- Nothing failed before `QUIT`. -/
def Unbroken (log : List Entry) : Prop :=
  ∀ x ∈ log.takeWhile (fun x => x.line? ≠ some "QUIT"), x.failed = false

/-- How many rules got their reply to `RSET`. -/
def concluded (log : List Entry) : Nat := (exchanges log).countP fun x => x.1 = "RSET"

/-- How a conversation with some rules can end: it breaks before `QUIT`, or it gets through all of
them, or it notes that the scan was cancelled. -/
def EndsIn (rules : List (Rule × Nat)) (es : List Entry) (h' : HostRecord) : Prop :=
  ("QUIT" ∉ sentLines es ∧ ∃ x ∈ es, x.failed = true) ∨ rules.length ≤ concluded es ∨
    (h'.cancelled = true ∧ h'.fatal = false)

theorem Unbroken.of_unsaid (hu : Unbroken es) (hq : "QUIT" ∉ sentLines es) :
    ∀ x ∈ es, x.failed = false := by
  have hall : es.takeWhile (fun x => x.line? ≠ some "QUIT") = es := by
    refine List.takeWhile_eq_self_iff.2 fun x hx => decide_eq_true fun hline => hq ?_
    exact mem_sentLines.2 ⟨x, hx, hline⟩
  unfold Unbroken at hu
  rwa [hall] at hu

/-- Within an attempt `QUIT` is not said. -/
theorem Tries.unsaid {out : Attempt × Option Halt}
    (ht : Tries (s.stepsOf address index rule) s.resetStep a false es out c') :
    "QUIT" ∉ sentLines es := by
  obtain ⟨res, c₁, es₁, rfl, hinner⟩ := ht.opens
  rw [sentLines_sent, List.mem_cons, not_or]
  constructor
  · simp [Rule.heloCommand, ← String.toList_inj]
  · intro hmem
    obtain ⟨x, hx, hline⟩ := mem_sentLines.1 hmem
    exact (hinner x hx).2 (by simp [Entry.command?, hline])

/-- An attempt that is stopped by a failure contains it. -/
theorem Tries.failed_of_broken {steps : List Step} {reset : Step} {b : Attempt} {failure : Failure}
    (ht : Tries steps reset a c es (b, some (.broken failure)) c') :
    ∃ x ∈ es, x.failed = true := by
  cases ht with
  | halted hp =>
    obtain ⟨_, _, -, -, h⟩ := hp.course
    rcases h with ⟨-, hnone, -⟩ | ⟨_, _, _, -, -, hnone, -⟩ |
      ⟨_, halt, _, _, -, hhalt, -, -, -, -, -, hstop⟩
    · cases hnone
    · cases hnone
    · obtain rfl := Option.some.inj hhalt
      rcases hstop with ⟨hcancelled, -⟩ | ⟨_, -, hfailed⟩
      · cases hcancelled
      · exact hfailed
  | unreset hp hr =>
    rcases hr.halted.2.2 with ⟨h, -⟩ | ⟨-, -, x, hx, hf⟩
    · cases h
    · exact ⟨x, List.mem_append_right _ hx, hf⟩

theorem Closes.noted {t : Duration} {stage : Stage} (hc : Closes t h (.cancelled stage) c es h' c')
    (hfatal : h.fatal = false) : h'.cancelled = true ∧ h'.fatal = false := by
  cases hc with
  | silently _ => exact ⟨rfl, hfatal⟩
  | politely _ _ _ => exact ⟨rfl, hfatal⟩

/-- **How a conversation ends.** -/
theorem TriesAll.ending {rest : List (Rule × Nat)} (ht : TriesAll s rest h c es h' c')
    (hfatal : h.fatal = false) : EndsIn rest es h' := by
  induction ht with
  | finished _ => exact Or.inr (Or.inl (Nat.zero_le _))
  | cancelled hq => exact Or.inr (Or.inr (hq.noted hfatal))
  | @halted rule index rest h es a halt c' es' h' c'' ht hq =>
    cases halt with
    | cancelled stage => exact Or.inr (Or.inr (hq.noted hfatal))
    | broken failure =>
      cases hq with
      | broken =>
        rw [List.append_nil]
        exact Or.inl ⟨ht.unsaid, ht.failed_of_broken⟩
  | @next rule index rest h es a c' es' h' c'' ht hall ih =>
    have hone : 0 < concluded es := by
      cases ht with
      | @reset es₁ b c₁ es₂ r _ hp hr =>
        refine List.countP_pos_iff.2 ⟨("RSET", r), ?_, by simp⟩
        rw [exchanges_append hr.speaks, hr.exchanges_answered]
        exact List.mem_append_right _ List.mem_cons_self
    -- what the rest ends with, the whole ends with, with one rule more
    rcases ih hfatal with ⟨hq, x, hx, hf⟩ | hcount | hnoted
    · refine Or.inl ⟨?_, x, List.mem_append_right _ hx, hf⟩
      rw [sentLines_append, List.mem_append, not_or]
      exact ⟨ht.unsaid, hq⟩
    · refine Or.inr (Or.inl ?_)
      unfold concluded at *
      rw [exchanges_append hall.speaks, List.countP_append, List.length_cons]
      omega
    · exact Or.inr (Or.inr hnoted)

/-- A part of a log from before the conversation does not matter for its end. -/
theorem EndsIn.append {rules : List (Rule × Nat)} {es' : List Entry}
    (he : EndsIn rules es' h') (hes : ∀ e ∈ es, e.line? = none) :
    EndsIn rules (es ++ es') h' := by
  rcases he with ⟨hq, x, hx, hf⟩ | hcount | hnoted
  · refine Or.inl ⟨?_, x, List.mem_append_right _ hx, hf⟩
    have hnone : sentLines es = [] := sentLines_eq_nil.2 hes
    rwa [sentLines_append, hnone]
  · refine Or.inr (Or.inl ?_)
    unfold concluded at *
    rwa [exchanges_unsent hes]
  · exact Or.inr (Or.inr hnoted)

theorem Converses.ending (hc : Converses s h c es h' c') (hfatal : h.fatal = false) :
    EndsIn (s.rulesFor h) es h' := by
  cases hc with
  | cancelled hq => exact Or.inr (Or.inr (hq.noted hfatal))
  | unheard hr hq =>
    cases hr with
    | failed _ =>
      cases hq with
      | broken => exact Or.inl ⟨by simp, _, List.mem_singleton_self _, rfl⟩
  | greeted hr ht =>
    refine EndsIn.append (ht.ending hfatal) ?_
    cases hr
    simp [Entry.line?]

/-- Whether an entry opens a connection. -/
def Entry.opens (e : Entry) : Bool :=
  match e.event with
  | .connected _ _ _ _ (.ok ()) => true
  | _ => false

/-- **How a check ends** that opened a connection on which nothing failed: it got through all
rules, or it notes that the scan was cancelled. -/
theorem Checks.ending (hc : Checks s index address false es h c')
    (hopen : ∃ x ∈ es, x.opens = true) (hunbroken : Unbroken es) :
    s.rules.length ≤ concluded es ∨ (h.cancelled = true ∧ h.fatal = false) := by
  have hclosed : ∀ {h h' : HostRecord} {c c' : Bool} {es : List Entry},
      Identifies s h c es h' c' → ∀ x ∈ es, x.opens = false := by
    intro h h' c c' es hi x hx
    cases hi with
    | unasked _ => cases hx
    | named _ _ => rw [List.mem_singleton.1 hx]; rfl
    | unnamed _ _ _ => rw [List.mem_singleton.1 hx]; rfl
  cases hc with
  | unreachable hi _ =>
    obtain ⟨x, hx, hx'⟩ := hopen
    rcases List.mem_append.1 hx with hx | hx
    · rw [hclosed hi x hx] at hx'; cases hx'
    · rw [List.mem_singleton.1 hx] at hx'; cases hx'
  | @reached es h₁ c₁ c₂ es' h₂ c₃ hi _ hconv =>
    have hfatal : h₁.fatal = false := by cases hi <;> rfl
    have hsilent : Silent (es ++ [⟨.connected h₁.address s.port s.connectTimeout s.readTimeout
        (.ok ()), c₂⟩]) := by
      intro x hx
      rcases List.mem_append.1 hx with hx | hx
      · exact hi.silent x hx
      · rw [List.mem_singleton.1 hx]; exact ⟨rfl, rfl⟩
    have hend : EndsIn (s.rulesFor { h₁ with smtpOpen := true })
        (es ++ ⟨.connected h₁.address s.port s.connectTimeout s.readTimeout (.ok ()), c₂⟩ :: es')
        h := by
      rw [List.append_cons]
      exact (hconv.ending hfatal).append fun x hx => (hsilent x hx).1
    rcases hend with ⟨hq, x, hx, hf⟩ | hcount | hnoted
    · rw [hunbroken.of_unsaid hq x hx] at hf; cases hf
    · exact Or.inl (by simpa [Settings.rulesFor] using hcount)
    · exact Or.inr hnoted

end OpenRelay
