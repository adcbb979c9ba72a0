import OpenRelay.Proofs.Conversation.Attempt

/-!
# Attempts and the rounds of a log

Each attempt of a record belongs to one round of the log, in the same order. So what a record says
about an attempt can be compared with the replies of its own round.

* `Attempted`: a round is the log of an attempt.
* `Checks.attempted`: the attempts of a check belong to the rounds of its log, one by one, and are
  made with the rules of the scan, one after the other.
-/

namespace OpenRelay

/-! ## The steps of a rule -/

/-- The stages of an attempt that have to be accepted, in order. -/
def Settings.stages (s : Settings) : List Stage :=
  [.helo, .mailFrom, .rcptTo] ++ if s.sendData then [.dataStart, .dataEnd] else []

variable {s : Settings} {address : Address} {index : Nat} {rule : Rule} {banner : Option Reply}
  {st : Step} {a : Attempt} {c c' : Bool} {es : List Entry}

theorem map_stage_stepsOf (s : Settings) (address : Address) (index : Nat) (rule : Rule) :
    (s.stepsOf address index rule).map (·.stage) = s.stages := by
  unfold Settings.stepsOf Settings.stages
  split <;> rfl

/-- The command of a step is that of its stage. -/
theorem command_of_mem_stepsOf (h : st ∈ s.stepsOf address index rule) :
    st.command = rule.line st.stage := by
  unfold Settings.stepsOf at h
  split at h
  · simp only [List.cons_append, List.nil_append, List.mem_cons, List.not_mem_nil, or_false] at h
    rcases h with rfl | rfl | rfl | rfl | rfl <;> rfl
  · simp only [List.append_nil, List.mem_cons, List.not_mem_nil, or_false] at h
    rcases h with rfl | rfl | rfl <;> rfl

/-- What goes before a command is no command. -/
theorem ofLine?_body (h : st ∈ s.stepsOf address index rule) :
    ∀ line ∈ st.body, Stage.ofLine? line = none := by
  unfold Settings.stepsOf at h
  split at h
  · simp only [List.cons_append, List.nil_append, List.mem_cons, List.not_mem_nil, or_false] at h
    rcases h with rfl | rfl | rfl | rfl | rfl
    · simp
    · simp
    · simp
    · simp
    · exact ofLine?_message _ _ _ _
  · simp only [List.append_nil, List.mem_cons, List.not_mem_nil, or_false] at h
    rcases h with rfl | rfl | rfl <;> simp

theorem stages_subset (s : Settings) : s.stages ⊆ Stage.ofAttempt.dropLast := by
  unfold Settings.stages
  split <;> decide

theorem stage_mem_stages (h : st ∈ s.stepsOf address index rule) : st.stage ∈ s.stages := by
  rw [← map_stage_stepsOf s address index rule]
  exact List.mem_map_of_mem h

theorem ofLine?_command (h : st ∈ s.stepsOf address index rule) :
    Stage.ofLine? st.command = some st.stage := by
  rw [command_of_mem_stepsOf h]
  exact ofLine?_line rule (List.dropLast_subset _ (stages_subset s (stage_mem_stages h)))

/-- The stage that an attempt ends with. -/
theorem getLast?_stages (s : Settings) :
    s.stages.getLast? = some (if s.sendData then .dataEnd else .rcptTo) := by
  unfold Settings.stages
  split <;> rfl

theorem mem_of_split {done rest : List Step}
    (hsplit : s.stepsOf address index rule = done ++ st :: rest) :
    st ∈ s.stepsOf address index rule := by
  rw [hsplit]
  exact List.mem_append_right _ List.mem_cons_self

theorem stages_of_split {done rest : List Step}
    (hsplit : s.stepsOf address index rule = done ++ st :: rest) :
    s.stages = done.map (·.stage) ++ st.stage :: rest.map (·.stage) := by
  rw [← map_stage_stepsOf s address index rule, hsplit, List.map_append, List.map_cons]

/-! ## Rounds -/

theorem Tries.speaks {steps : List Step} {reset : Step} {out : Attempt × Option Halt}
    (h : Tries steps reset a c es out c') : Speaks es := by
  cases h with
  | halted h => exact h.speaks
  | unreset h h' => exact h.speaks.append h'.speaks
  | reset h h' => exact h.speaks.append h'.speaks

/-- A part of a log is within a round if its lines neither begin nor end one. -/
theorem inner_of_lines {lines : List String} (h : sentLines es ⊆ lines)
    (hl : ∀ line ∈ lines, Stage.ofLine? line ≠ some .helo ∧ Stage.ofLine? line ≠ some .quit) :
    Inner es := by
  intro e he
  cases hline : e.line? with
  | none => simp [Entry.command?, hline]
  | some line =>
    have := hl line (h (mem_sentLines.2 ⟨e, he, hline⟩))
    simpa [Entry.command?, hline] using this

theorem Takes.sentLines_subset {out : Except Halt Reply} (h : Takes st c es out c') :
    sentLines es ⊆ st.lines := by
  cases out with
  | error halt => exact h.halted.2.1.subset
  | ok r => exact fun line hline => h.sentLines_answered ▸ hline

/-- The first line of a step without a body is its command. -/
theorem Takes.opens {out : Except Halt Reply} (h : Takes st false es out c')
    (hbody : st.body = []) : ∃ res c₁ es₁,
      es = ⟨.sent st.command res, c₁⟩ :: es₁ ∧ sentLines es₁ = [] := by
  -- with one line to send there is one entry, whether it came through or not
  have key : ∀ {es : List Entry} {out : Except Halt Unit} {c' : Bool},
      Transmits st.stage (st.body ++ [st.command]) false es out c' →
        ∃ res c₁, es = [⟨.sent st.command res, c₁⟩] := by
    intro es out c' ht
    rw [hbody, List.nil_append] at ht
    cases ht with
    | failed => exact ⟨_, _, rfl⟩
    | sent ht =>
      cases ht with
      | done => exact ⟨_, _, rfl⟩
  cases h with
  | unsent ht =>
    obtain ⟨res, c₁, rfl⟩ := key ht
    exact ⟨res, c₁, [], rfl, rfl⟩
  | sent ht hr =>
    obtain ⟨res, c₁, rfl⟩ := key ht
    refine ⟨res, c₁, _, rfl, ?_⟩
    cases hr <;> rfl

theorem Pursues.sentLines_subset {steps : List Step} {out : Attempt × Option Halt}
    (h : Pursues steps a c es out c') : sentLines es ⊆ steps.flatMap Step.lines := by
  induction h with
  | through => simp
  | halted ht =>
    rw [List.flatMap_cons]
    exact List.subset_append_of_subset_left _ ht.sentLines_subset
  | refused ht _ =>
    rw [List.flatMap_cons]
    exact List.subset_append_of_subset_left _ ht.sentLines_subset
  | accepted ht _ _ ih =>
    rw [List.flatMap_cons, sentLines_append]
    exact List.append_subset.2 ⟨List.subset_append_of_subset_left _ ht.sentLines_subset,
      List.subset_append_of_subset_right _ ih⟩

/-- The lines after `HELO` neither begin nor end a round. -/
theorem ofLine?_tail_stepsOf (s : Settings) (address : Address) (index : Nat) (rule : Rule) :
    ∀ line ∈ (s.stepsOf address index rule).tail.flatMap Step.lines,
      Stage.ofLine? line ≠ some .helo ∧ Stage.ofLine? line ≠ some .quit := by
  intro line hline
  obtain ⟨st, hst, hline⟩ := List.mem_flatMap.1 hline
  have hmem := List.mem_of_mem_tail hst
  rcases List.mem_append.1 hline with hline | hline
  · simp [ofLine?_body hmem line hline]
  · rw [List.mem_singleton.1 hline, ofLine?_command hmem]
    have hstage : st.stage ∈ s.stages.tail := by
      rw [← map_stage_stepsOf s address index rule, ← List.map_tail]
      exact List.mem_map_of_mem hst
    have htail : s.stages.tail ⊆ [.mailFrom, .rcptTo, .dataStart, .dataEnd] := by
      unfold Settings.stages
      split <;> decide
    have := htail hstage
    constructor
    · intro heq; rw [Option.some.inj heq] at this; simp at this
    · intro heq; rw [Option.some.inj heq] at this; simp at this

theorem Pursues.opens {rest : List Step} {out : Attempt × Option Halt}
    (h : Pursues (st :: rest) a false es out c') (hbody : st.body = []) : ∃ res c₁ es₁,
      es = ⟨.sent st.command res, c₁⟩ :: es₁ ∧ sentLines es₁ ⊆ rest.flatMap Step.lines := by
  cases h with
  | halted ht =>
    obtain ⟨res, c₁, es₁, rfl, hl⟩ := ht.opens hbody
    exact ⟨res, c₁, es₁, rfl, by simp [hl]⟩
  | refused ht _ =>
    obtain ⟨res, c₁, es₁, rfl, hl⟩ := ht.opens hbody
    exact ⟨res, c₁, es₁, rfl, by simp [hl]⟩
  | accepted ht _ hp =>
    obtain ⟨res, c₁, es₁, rfl, hl⟩ := ht.opens hbody
    exact ⟨res, c₁, _, rfl, by simpa [hl] using hp.sentLines_subset⟩

/-- **An attempt opens a round and stays in it.** -/
theorem Tries.opens {out : Attempt × Option Halt}
    (h : Tries (s.stepsOf address index rule) s.resetStep a false es out c') :
    ∃ res c₁ es₁, es = ⟨.sent rule.heloCommand res, c₁⟩ :: es₁ ∧ Inner es₁ := by
  have hsteps : s.stepsOf address index rule =
      { stage := .helo, command := rule.heloCommand, timeout := s.readTimeout } ::
        (s.stepsOf address index rule).tail := rfl
  have hreset : ∀ line ∈ s.resetStep.lines,
      Stage.ofLine? line ≠ some .helo ∧ Stage.ofLine? line ≠ some .quit := by
    simp [Step.lines, Settings.resetStep]
  have hinner : ∀ {es : List Entry},
      sentLines es ⊆ (s.stepsOf address index rule).tail.flatMap Step.lines → Inner es :=
    fun hl => inner_of_lines hl (ofLine?_tail_stepsOf s address index rule)
  rw [hsteps] at h
  cases h with
  | halted h =>
    obtain ⟨res, c₁, es₁, rfl, hl⟩ := h.opens rfl
    exact ⟨res, c₁, es₁, rfl, hinner hl⟩
  | unreset h h' =>
    obtain ⟨res, c₁, es₁, rfl, hl⟩ := h.opens rfl
    exact ⟨res, c₁, _, rfl, (hinner hl).append (inner_of_lines h'.sentLines_subset hreset)⟩
  | reset h h' =>
    obtain ⟨res, c₁, es₁, rfl, hl⟩ := h.opens rfl
    exact ⟨res, c₁, _, rfl, (hinner hl).append (inner_of_lines h'.sentLines_subset hreset)⟩

theorem Pursues.rule_eq {steps : List Step} {out : Attempt × Option Halt}
    (h : Pursues steps a c es out c') :
    out.1.rule = a.rule ∧ out.1.ruleIndex = a.ruleIndex := by
  induction h with
  | through => exact ⟨rfl, rfl⟩
  | halted _ => simp
  | refused _ _ => simp
  | accepted _ _ _ ih => simpa using ih

theorem Tries.rule_eq {steps : List Step} {reset : Step} {out : Attempt × Option Halt}
    (h : Tries steps reset a c es out c') :
    out.1.rule = a.rule ∧ out.1.ruleIndex = a.ruleIndex := by
  cases h with
  | halted h => exact h.rule_eq
  | unreset h _ => exact h.rule_eq
  | reset h _ => simpa using h.rule_eq

/-- What an attempt is noted as: a stop, if there is one, is its failure unless it has one. -/
def Attempt.ended (a : Attempt) : Option Halt → Attempt
  | none => a
  | some halt => a.cutOff halt

@[simp] theorem Attempt.rule_ended (a : Attempt) (halt : Option Halt) :
    (a.ended halt).rule = a.rule := by cases halt <;> rfl

@[simp] theorem Attempt.ruleIndex_ended (a : Attempt) (halt : Option Halt) :
    (a.ended halt).ruleIndex = a.ruleIndex := by cases halt <;> rfl

@[simp] theorem Attempt.verdict_ended (a : Attempt) (halt : Option Halt) :
    (a.ended halt).verdict = a.verdict := by cases halt <;> rfl

@[simp] theorem Attempt.reply?_ended (a : Attempt) (halt : Option Halt) (st : Stage) :
    (a.ended halt).reply? st = a.reply? st := by cases halt <;> cases st <;> rfl

/-- A round is the log of an attempt, which was noted as `a`. -/
def Attempted (s : Settings) (address : Address) (banner : Option Reply) (a : Attempt)
    (round : List Entry) : Prop :=
  ∃ b halt c', Tries (s.stepsOf address a.ruleIndex a.rule) s.resetStep
    { ruleIndex := a.ruleIndex, rule := a.rule, banner } false round (b, halt) c' ∧
      a = b.ended halt

theorem Tries.attempted {halt : Option Halt}
    (h : Tries (s.stepsOf address index rule) s.resetStep { ruleIndex := index, rule, banner }
      false es (a, halt) c') : Attempted s address banner (a.ended halt) es := by
  obtain ⟨hrule, hindex⟩ := h.rule_eq
  refine ⟨a, halt, c', ?_, rfl⟩
  rw [Attempt.rule_ended, Attempt.ruleIndex_ended, hrule, hindex]
  exact h

theorem Quits.cutRounds {t : Duration} {quit : Option Reply} (h : Quits t c es quit c') :
    cutRounds es = ([], []) := by
  cases h <;> rfl

theorem Closes.cutRounds {t : Duration} {h h' : HostRecord} {halt : Halt}
    (hc : Closes t h halt c es h' c') : cutRounds es = ([], []) := by
  cases hc with
  | silently _ => rfl
  | politely _ _ hq => exact hq.cutRounds
  | broken => rfl

/-- What was found out about a host before its rules are tried stays as it is. -/
def SameHost (h h' : HostRecord) : Prop :=
  h'.address = h.address ∧ h'.hostname = h.hostname ∧ h'.banner = h.banner

theorem Closes.sameHost {t : Duration} {h h' : HostRecord} {halt : Halt}
    (hc : Closes t h halt c es h' c') : SameHost h h' := by
  cases hc <;> exact ⟨rfl, rfl, rfl⟩

theorem TriesAll.sameHost {rules : List (Rule × Nat)} {h h' : HostRecord}
    (ht : TriesAll s rules h c es h' c') : SameHost h h' := by
  induction ht with
  | finished _ => exact ⟨rfl, rfl, rfl⟩
  | cancelled hq => exact hq.sameHost
  | halted _ hq => exact hq.sameHost
  | next _ _ ih => exact ih

theorem Closes.attempts_eq {t : Duration} {h h' : HostRecord} {halt : Halt}
    (hc : Closes t h halt c es h' c') : h'.attempts = h.attempts := by
  cases hc <;> rfl

/-- **The attempts of a conversation belong to the rounds of its log**, and are made with the
rules, one after the other. -/
theorem TriesAll.attempted {rules : List (Rule × Nat)} {h h' : HostRecord}
    (ht : TriesAll s rules h c es h' c') : (cutRounds es).1 = [] ∧ ∃ new,
      h'.attempts = h.attempts ++ new ∧
      List.Forall₂ (Attempted s h.address h.banner) new (rounds es) ∧
      new.map (fun a => (a.rule, a.ruleIndex)) <+: rules := by
  induction ht with
  | finished hq =>
    refine ⟨by rw [hq.cutRounds], [], by simp, ?_, List.nil_prefix⟩
    rw [rounds, hq.cutRounds]
    exact .nil
  | cancelled hq =>
    refine ⟨by rw [hq.cutRounds], [], by simp [hq.attempts_eq], ?_, List.nil_prefix⟩
    rw [rounds, hq.cutRounds]
    exact .nil
  | @halted rule index rest h es a halt c' es' h' c'' ht hq =>
    obtain ⟨res, c₁, es₁, rfl, hinner⟩ := ht.opens
    have hrounds := rounds_round (e := ⟨.sent rule.heloCommand res, c₁⟩) (by simp [Entry.command?,
      Entry.line?]) hinner (congrArg Prod.fst hq.cutRounds)
    refine ⟨?_, [a.cutOff halt], hq.attempts_eq, ?_, ?_⟩
    · simp [cutRounds, Entry.command?, Entry.line?]
    · rw [hrounds, rounds, hq.cutRounds]
      exact .cons ht.attempted .nil
    · have := ht.rule_eq
      simp_all [Attempt.cutOff]
  | @next rule index rest h es a c' es' h' c'' ht _ ih =>
    -- the rest opens with a cut, so that this attempt is a round of its own
    obtain ⟨hcut, new, hnew, hall, hpre⟩ := ih
    obtain ⟨res, c₁, es₁, rfl, hinner⟩ := ht.opens
    have hrounds := rounds_round (e := ⟨.sent rule.heloCommand res, c₁⟩) (by simp [Entry.command?,
      Entry.line?]) hinner hcut
    refine ⟨?_, a :: new, by simp [hnew], ?_, ?_⟩
    · simp [cutRounds, Entry.command?, Entry.line?]
    · rw [hrounds]
      exact .cons ht.attempted hall
    · have := ht.rule_eq
      simp_all

theorem Identifies.inner {h h' : HostRecord} (hi : Identifies s h c es h' c') : Inner es := by
  cases hi with
  | unasked _ => intro e he; cases he
  | named _ _ => intro e he; rw [List.mem_singleton.1 he]; simp [Entry.command?, Entry.line?]
  | unnamed _ _ _ => intro e he; rw [List.mem_singleton.1 he]; simp [Entry.command?, Entry.line?]

theorem Identifies.attempts_eq {h h' : HostRecord} (hi : Identifies s h c es h' c') :
    h'.attempts = h.attempts := by
  cases hi <;> rfl

theorem Hears.inner {stage : Stage} {t : Duration} {out : Except Halt Reply}
    (hr : Hears stage t c es out c') : Inner es := by
  cases hr <;> (intro e he; rw [List.mem_singleton.1 he]; simp [Entry.command?, Entry.line?])

theorem Converses.attempted {h h' : HostRecord} (hc : Converses s h c es h' c')
    (hnone : h.attempts = []) :
    List.Forall₂ (Attempted s h'.address h'.banner) h'.attempts (rounds es) ∧
      h'.attempts.map (fun a => (a.rule, a.ruleIndex)) <+: s.rulesFor h' := by
  cases hc with
  | cancelled hq =>
    rw [hq.attempts_eq, hnone, rounds, hq.cutRounds]
    exact ⟨.nil, List.nil_prefix⟩
  | unheard hr hq =>
    rw [rounds_inner hr.inner, hq.attempts_eq, hnone, rounds, hq.cutRounds]
    exact ⟨.nil, List.nil_prefix⟩
  | greeted hr ht =>
    obtain ⟨-, new, hnew, hall, hpre⟩ := ht.attempted
    obtain ⟨haddress, hhostname, hbanner⟩ := ht.sameHost
    have hrules : s.rulesFor h' = s.rulesFor h := by
      simp only [Settings.rulesFor, haddress, hhostname]
    rw [rounds_inner hr.inner, hnew, hnone, haddress, hbanner, hrules]
    exact ⟨hall, hpre⟩

/-- **The attempts of a check belong to the rounds of its log**, and are made with the rules of
the scan, one after the other. -/
theorem Checks.attempted {h : HostRecord} (hc : Checks s index address c es h c') :
    List.Forall₂ (Attempted s h.address h.banner) h.attempts (rounds es) ∧
      h.attempts.map (fun a => (a.rule, a.ruleIndex)) <+: s.rulesFor h := by
  have hconnected : ∀ {e : Entry}, e.line? = none → Inner [e] := by
    intro e he x hx
    rw [List.mem_singleton.1 hx]
    simp [Entry.command?, he]
  cases hc with
  | skipped => exact ⟨.nil, List.nil_prefix⟩
  | @unreachable _ _ _ _ _ hi _ =>
    rw [rounds_inner hi.inner]
    simp only [hi.attempts_eq]
    exact ⟨.nil, List.nil_prefix⟩
  | @reached es h₁ c₁ c₂ es' h₂ c₃ hi _ hconv =>
    rw [rounds_inner hi.inner, ← List.singleton_append, rounds_inner (hconnected rfl)]
    exact hconv.attempted hi.attempts_eq

/-! ## Places -/

/-- The place of a host and its address. -/
def HostRecord.place (h : HostRecord) : Nat × Address := (h.index, h.address)

theorem Closes.place_eq {t : Duration} {h h' : HostRecord} {halt : Halt}
    (hc : Closes t h halt c es h' c') : h'.place = h.place := by
  cases hc <;> rfl

theorem TriesAll.place_eq {rules : List (Rule × Nat)} {h h' : HostRecord}
    (ht : TriesAll s rules h c es h' c') : h'.place = h.place := by
  induction ht with
  | finished _ => rfl
  | cancelled hq => exact hq.place_eq
  | halted _ hq => exact hq.place_eq
  | next _ _ ih => exact ih

theorem Converses.place_eq {h h' : HostRecord} (hc : Converses s h c es h' c') :
    h'.place = h.place := by
  cases hc with
  | cancelled hq => exact hq.place_eq
  | unheard _ hq => exact hq.place_eq
  | greeted _ ht => exact ht.place_eq

theorem Identifies.place_eq {h h' : HostRecord} (hi : Identifies s h c es h' c') :
    h'.place = h.place := by
  cases hi <;> rfl

/-- A check is about the host that it was made for. -/
theorem Checks.place_eq {h : HostRecord} (hc : Checks s index address c es h c') :
    h.place = (index, address) := by
  cases hc with
  | skipped => rfl
  | unreachable hi _ => exact hi.place_eq
  | reached hi _ hconv => exact hconv.place_eq.trans hi.place_eq

end OpenRelay
