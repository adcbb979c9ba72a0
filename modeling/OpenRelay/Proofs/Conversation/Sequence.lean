import OpenRelay.Proofs.Conversation.Order

/-!
# The sequence of a check

An attempt keeps to the order of a conversation, and so do a conversation and a whole check. The
invariants say where a conversation stands: between two rules (`Between`) or within one (`Stands`).

* `Pursues.orderly`: the steps of an attempt, up to the reply that decides it.
* `TriesAll.orderly`: a conversation, from rule to rule.
* `Checks.orderly`: a whole check. One that got as far as the banner ends with `QUIT`, on a failure,
  or within a message.
-/

namespace OpenRelay

variable {s : Settings} {rules : List (Rule × Nat)} {address : Address} {rule : Rule} {k : Nat}
  {st : Step} {steps : List Step} {a : Attempt} {c c' : Bool} {past es : List Entry}
  {h h' : HostRecord}

/-! ## Attempts in order -/

/-- A conversation stands between two rules, with `k` of them done. -/
def Between (k : Nat) (past : List Entry) : Prop :=
  begun past = k ∧ (Greeted past ∨ ∃ r, Answered past "RSET" r)

/-- A conversation stands within the attempt of rule `k`, after the steps `done` were accepted. -/
def Stands (k : Nat) (done : List Step) (past : List Entry) : Prop :=
  match done.getLast? with
  | none => Between k past
  | some st => begun past = k + 1 ∧ ∃ r, Answered past st.command r ∧ st.stage.accepts r = true

/-- The stage before a stage of an attempt. -/
theorem stages_split {before after : List Stage} (h : s.stages = before ++ stage :: after) :
    (before = [] ∧ stage = .helo) ∨
      (before.getLast? = some .helo ∧ stage = .mailFrom) ∨
      (before.getLast? = some .mailFrom ∧ stage = .rcptTo) ∨
      (before.getLast? = some .rcptTo ∧ stage = .dataStart ∧ s.sendData = true) ∨
      (before.getLast? = some .dataStart ∧ stage = .dataEnd ∧ s.sendData = true) := by
  unfold Settings.stages at h
  split at h
  · rcases before with _ | ⟨b₀, _ | ⟨b₁, _ | ⟨b₂, _ | ⟨b₃, _ | ⟨b₄, before⟩⟩⟩⟩⟩ <;> simp_all
  · rcases before with _ | ⟨b₀, _ | ⟨b₁, _ | ⟨b₂, before⟩⟩⟩ <;> simp_all

theorem body_of_mem_stepsOf (h : st ∈ s.stepsOf address k rule) :
    st.body = if st.stage = .dataEnd then s.messageOf address k rule else [] := by
  unfold Settings.stepsOf at h
  split at h
  · simp only [List.cons_append, List.nil_append, List.mem_cons, List.not_mem_nil, or_false] at h
    rcases h with rfl | rfl | rfl | rfl | rfl <;> rfl
  · simp only [List.append_nil, List.mem_cons, List.not_mem_nil, or_false] at h
    rcases h with rfl | rfl | rfl <;> rfl

/-- The lines of a message are due one after the other, and the dot behind the last. -/
theorem ready_message {r : Reply} (hs : s.sendData = true) (hcurrent : Current rules past rule k)
    (hans : Answered past "DATA" r) (hr : r.isIntermediate = true) :
    Ready s rules address (s.messageOf address k rule ++ ["."]) past := by
  have hmessage := ofLine?_message s.subject address k rule
  have hlater : ∀ n, Current rules
      (past ++ ((s.messageOf address k rule).take n).map Entry.calm) rule k := by
    intro n
    have hzero : begun (((s.messageOf address k rule).take n).map Entry.calm) = 0 := by
      apply begun_eq_zero
      rw [sentLines_calm]
      intro line hline
      simp [hmessage line (List.mem_of_mem_take hline)]
    exact ⟨hcurrent.1, by rw [begun_append, hzero, hcurrent.2]⟩
  have hdictated : ∀ text, Dictated (past ++ text.map Entry.calm) text :=
    fun text => ⟨past, r, hans, hr, rfl⟩
  intro i line hi
  -- a line of the message, or the dot behind them
  rcases Nat.lt_or_ge i (s.messageOf address k rule).length with hlt | hge
  · rw [List.getElem?_append_left hlt] at hi
    rw [List.take_append_of_le_length (Nat.le_of_lt hlt)]
    have hnone := hmessage line (List.mem_of_getElem? hi)
    refine ⟨by rintro rfl; simp at hnone, ?_⟩
    simp only [Due, hnone]
    exact ⟨hs, rule, k, i, hlater i, hi, hdictated _⟩
  · obtain rfl : i = (s.messageOf address k rule).length := by
      have hlen := (List.getElem?_eq_some_iff.1 hi).1
      rw [List.length_append, List.length_singleton] at hlen
      omega
    rw [List.getElem?_append_right hge, Nat.sub_self, List.getElem?_cons_zero] at hi
    rw [List.take_left, ← Option.some.inj hi]
    have := hlater (s.messageOf address k rule).length
    rw [List.take_length] at this
    refine ⟨by decide, ?_⟩
    simp only [Due, ofLine?_dot]
    exact ⟨hs, rule, k, this, hdictated _⟩

/-- What stands at the end of the log is the reply to the last step that was accepted. -/
theorem Stands.answered {done rest : List Step} (hsplit : s.stepsOf address k rule = done ++ rest)
    (h : Stands k done past) (hlast : (done.map (·.stage)).getLast? = some stage) :
    begun past = k + 1 ∧ ∃ r, Answered past (rule.line stage) r ∧ stage.accepts r = true := by
  rw [List.getLast?_map] at hlast
  obtain ⟨d, hd, rfl⟩ := Option.map_eq_some_iff.1 hlast
  have hmem : d ∈ s.stepsOf address k rule := by
    rw [hsplit]; exact List.mem_append_left _ (List.mem_of_getLast? hd)
  rw [← command_of_mem_stepsOf hmem]
  unfold Stands at h
  rwa [hd] at h

/-- **The next step of an attempt is due.** -/
theorem Stands.ready {done rest : List Step} (hk : rules[k]? = some (rule, k))
    (hsplit : s.stepsOf address k rule = done ++ st :: rest) (h : Stands k done past) :
    Ready s rules address st.lines past := by
  have hcmd := command_of_mem_stepsOf (mem_of_split hsplit)
  have hbody := body_of_mem_stepsOf (mem_of_split hsplit)
  have hsingle : st.stage ≠ .dataEnd → st.lines = [rule.line st.stage] := by
    intro hne
    rw [Step.lines, hbody, if_neg hne, hcmd]; rfl
  -- each stage has its own reason, by the stage before it
  rcases stages_split (stages_of_split hsplit) with
    ⟨hnil, hst⟩ | ⟨hb, hst⟩ | ⟨hb, hst⟩ | ⟨hb, hst, hs⟩ | ⟨hb, hst, hs⟩
  · rw [List.map_eq_nil_iff.1 hnil] at h
    obtain ⟨hbegun, hstart⟩ := h
    rw [hsingle (by simp [hst]), hst]
    refine ready_singleton (by simp [Rule.line, Rule.heloCommand, ← String.toList_inj]) ?_
    simp only [Due, Rule.line, ofLine?_heloCommand]
    exact ⟨rule, by rw [hbegun, hk], rfl, hstart⟩
  · obtain ⟨hbegun, r, hans, hr⟩ := h.answered hsplit hb
    rw [hsingle (by simp [hst]), hst]
    refine ready_singleton (by simp [Rule.line, Rule.mailFromCommand, ← String.toList_inj]) ?_
    simp only [Due, Rule.line, ofLine?_mailFromCommand]
    exact ⟨rule, k, r, ⟨hk, hbegun⟩, rfl, hans, hr⟩
  · obtain ⟨hbegun, r, hans, hr⟩ := h.answered hsplit hb
    rw [hsingle (by simp [hst]), hst]
    refine ready_singleton (by simp [Rule.line, Rule.rcptToCommand, ← String.toList_inj]) ?_
    simp only [Due, Rule.line, ofLine?_rcptToCommand]
    exact ⟨rule, k, r, ⟨hk, hbegun⟩, rfl, hans, hr⟩
  · obtain ⟨hbegun, r, hans, hr⟩ := h.answered hsplit hb
    rw [hsingle (by simp [hst]), hst]
    refine ready_singleton (by simp [Rule.line]) ?_
    simp only [Due, Rule.line, ofLine?_data]
    exact ⟨hs, rule, k, r, ⟨hk, hbegun⟩, hans, hr⟩
  · obtain ⟨hbegun, r, hans, hr⟩ := h.answered hsplit hb
    rw [Step.lines, hbody, if_pos hst, hcmd, hst]
    exact ready_message hs ⟨hk, hbegun⟩ hans hr

theorem line_inj (rule : Rule) {st st' : Stage} (h : st ∈ Stage.ofAttempt)
    (h' : st' ∈ Stage.ofAttempt) (heq : rule.line st = rule.line st') : st = st' := by
  have := ofLine?_line rule h
  rw [heq, ofLine?_line rule h'] at this
  exact (Option.some.inj this).symm

theorem Settings.Decides.mem {r : Reply} (h : s.Decides stage r) : stage ∈ Stage.ofAttempt :=
  List.dropLast_subset _ (stages_subset s h.1)

/-- A reply that accepts decides only the last stage. -/
theorem Settings.Decides.last {r : Reply} (h : s.Decides stage r) (hacc : stage.accepts r = true) :
    (if s.sendData then Stage.dataEnd else .rcptTo) = stage := by
  rcases h.2 with hr | hlast
  · rw [hr] at hacc; cases hacc
  · rw [getLast?_stages] at hlast
    exact Option.some.inj hlast

/-- A reply that decides an attempt does not ask for a message. -/
theorem Settings.Decides.not_intermediate {r : Reply} (h : s.Decides .dataStart r) :
    r.isIntermediate = false := by
  by_contra hr
  have hlast := h.last (Bool.not_eq_false _ ▸ hr)
  split at hlast <;> cases hlast

/-- Where an attempt was decided, the last reply is the one that decided it. -/
theorem Decided.of_answered {line : String} {r : Reply} (hd : Decided s rules past)
    (hans : Answered past line r) (hline : Stage.ofLine? line = some stage) :
    s.Decides stage r := by
  obtain ⟨rule, k, st, r', -, hdec, hans'⟩ := hd
  obtain ⟨rfl, rfl⟩ := hans.inj hans'
  rw [ofLine?_line rule hdec.mem] at hline
  exact Option.some.inj hline ▸ hdec

theorem Decided.exists_answered (hd : Decided s rules past) : ∃ line r, Answered past line r := by
  obtain ⟨rule, k, st, r, -, -, hans⟩ := hd
  exact ⟨_, r, hans⟩

theorem Decided.not_greeted (hd : Decided s rules past) : ¬ Greeted past := by
  obtain ⟨line, r, hans⟩ := hd.exists_answered
  exact fun hg => hans.sentLines_ne_nil hg.1

theorem Decided.not_reset {r : Reply} (hd : Decided s rules past) : ¬ Answered past "RSET" r :=
  fun hans => absurd (stages_subset s (hd.of_answered hans ofLine?_rset).1) (by decide)

theorem Decided.not_dictated {text : List String} (hd : Decided s rules past) :
    ¬ Dictated past text := by
  intro htext
  obtain ⟨line, r, hans⟩ := hd.exists_answered
  obtain rfl := htext.eq_nil hans
  obtain ⟨r', hans', hr⟩ := htext.answered
  rw [(hd.of_answered hans' ofLine?_data).not_intermediate] at hr
  cases hr

/-- A scan that was cancelled between two commands is closed with `QUIT`. -/
theorem Live.due_quit (hl : Live past true)
    (h : Greeted past ∨ ∃ line r, Answered past line r)
    (hdata : ∀ r, Answered past "DATA" r → r.isIntermediate = false) :
    Due s rules address past "QUIT" := by
  simp only [Due, ofLine?_quit]
  refine ⟨h, fun hd => ?_, Or.inl hl.flag⟩
  obtain ⟨r, hans, hr⟩ := hd.answered
  rw [hdata r hans] at hr
  cases hr

theorem Decided.due_quit (h : Decided s rules past) (hl : Live past true) :
    Due s rules address past "QUIT" :=
  hl.due_quit (Or.inr h.exists_answered) fun _ hans =>
    (h.of_answered hans ofLine?_data).not_intermediate

theorem Between.not_dictated (h : Between k past) : ¬ Dictated past [] := by
  intro hd
  obtain ⟨r, hans, -⟩ := hd.answered
  rcases h.2 with hgreeted | ⟨r', hans'⟩
  · exact absurd hgreeted.1 hans.sentLines_ne_nil
  · exact absurd (hans.inj hans').1 (by decide)

/-- Between two rules `QUIT` is due if the scan was cancelled, or no rule is left. -/
theorem Between.due_quit (h : Between k past)
    (hend : past.any (·.cancelled) = true ∨ k = rules.length) :
    Due s rules address past "QUIT" := by
  simp only [Due, ofLine?_quit]
  exact ⟨h.2.imp_right fun ⟨r, hans⟩ => ⟨_, r, hans⟩, h.not_dictated,
    hend.imp_right fun hk => ⟨h.1.trans hk, h.2⟩⟩

/-- A scan that was cancelled before a step other than a message is closed with `QUIT`. -/
theorem Stands.due_quit {done rest : List Step}
    (hsplit : s.stepsOf address k rule = done ++ st :: rest) (h : Stands k done past)
    (hst : st.stage ≠ .dataEnd) (hl : Live past true) : Due s rules address past "QUIT" := by
  cases hlast : (done.map (·.stage)).getLast? with
  | none =>
    rw [List.map_eq_nil_iff.1 (List.getLast?_eq_none_iff.1 hlast)] at h
    exact Between.due_quit h (Or.inl hl.flag)
  | some stage =>
    obtain ⟨-, r, hans, -⟩ := h.answered hsplit hlast
    refine hl.due_quit (Or.inr ⟨_, r, hans⟩) fun r' hans' => ?_
    have hmem : stage ∈ s.stages := by
      rw [stages_of_split hsplit]; exact List.mem_append_left _ (List.mem_of_getLast? hlast)
    obtain rfl : stage = .dataStart := line_inj rule
      (List.dropLast_subset _ (stages_subset s hmem)) (by decide) (hans.inj hans').1
    -- after `DATA` only the message can follow
    rcases stages_split (stages_of_split hsplit) with
      ⟨hb, -⟩ | ⟨hb, -⟩ | ⟨hb, -⟩ | ⟨hb, -⟩ | ⟨-, hend, -⟩
    · rw [hb] at hlast; cases hlast
    · rw [hb] at hlast; cases hlast
    · rw [hb] at hlast; cases hlast
    · rw [hb] at hlast; cases hlast
    · exact absurd hend hst

/-- A step begins a rule if it is the first of an attempt. -/
theorem Stands.begun_next {done rest : List Step} {r : Reply}
    (hsplit : s.stepsOf address k rule = done ++ st :: rest) (h : Stands k done past)
    (ht : Takes st c es (.ok r) c') : begun (past ++ es) = k + 1 := by
  have hmem := mem_of_split hsplit
  have hbody : st.body.countP (fun line => Stage.ofLine? line = some .helo) = 0 := by
    rw [List.countP_eq_zero]
    intro line hline
    simp [ofLine?_body hmem line hline]
  have hes : begun es = if st.stage = .helo then 1 else 0 := by
    rw [begun, ht.sentLines_answered, Step.lines, List.countP_append, hbody,
      List.countP_singleton, ofLine?_command hmem]
    simp
  rw [begun_append, hes]
  -- the first step counts itself, and any other finds its rule counted
  rcases stages_split (stages_of_split hsplit) with
    ⟨hb, hst⟩ | ⟨hb, hst⟩ | ⟨hb, hst⟩ | ⟨hb, hst, -⟩ | ⟨hb, hst, -⟩
  · rw [List.map_eq_nil_iff.1 hb] at h
    rw [h.1, if_pos hst]
  all_goals
    rw [if_neg (by simp [hst]), (h.answered hsplit hb).1]

/-- What a stop leaves behind: a failure, or, if the scan was cancelled, either a message on its way
or a conversation that `QUIT` may close. -/
def Stopped (s : Settings) (rules : List (Rule × Nat)) (address : Address) (past : List Entry)
    (c : Bool) : Halt → Prop
  | .broken _ => ∃ x ∈ past, x.failed = true
  | .cancelled stage => stage ≠ .banner ∧
      ((stage = .dataEnd ∧ Dictating past) ∨
        (stage ≠ .dataEnd ∧ Live past c ∧ Due s rules address past "QUIT"))

/-- A message that was not sent to its end is on its way. -/
theorem Stands.dictating {done rest : List Step}
    (hsplit : s.stepsOf address k rule = done ++ st :: rest) (h : Stands k done past)
    (hst : st.stage = .dataEnd) (hes : "." ∉ sentLines es) : Dictating (past ++ es) := by
  have hlast : (done.map (·.stage)).getLast? = some .dataStart := by
    rcases stages_split (stages_of_split hsplit) with
      ⟨-, hb⟩ | ⟨-, hb⟩ | ⟨-, hb⟩ | ⟨-, hb, -⟩ | ⟨hb, -⟩
    · rw [hst] at hb; cases hb
    · rw [hst] at hb; cases hb
    · rw [hst] at hb; cases hb
    · rw [hst] at hb; cases hb
    · exact hb
  obtain ⟨-, r, hans, hr⟩ := h.answered hsplit hlast
  exact ⟨past, es, r, rfl, hans, hr, hes⟩

/-- **A step that is cut off** leaves a failure, a message on its way, or a conversation that `QUIT`
may close. -/
theorem Stands.stopped {done rest : List Step} {halt : Halt}
    (hsplit : s.stepsOf address k rule = done ++ st :: rest) (h : Stands k done past)
    (ht : Takes st c es (.error halt) c') (hl : Live past c) :
    Stopped s rules address (past ++ es) c' halt := by
  have hmem := mem_of_split hsplit
  obtain ⟨-, -, ⟨rfl, -, -, hcut⟩ | ⟨e, rfl, x, hx, hf⟩⟩ := ht.halted
  · have hbanner : st.stage ≠ .banner := by
      intro hst
      have := stages_subset s (stage_mem_stages hmem)
      rw [hst] at this
      exact absurd this (by decide)
    refine ⟨hbanner, ?_⟩
    by_cases hst : st.stage = .dataEnd
    · refine Or.inl ⟨hst, h.dictating hsplit hst fun hdot => ?_⟩
      have := ofLine?_body hmem "." (hcut.subset hdot)
      simp at this
    · -- a step of one line is cut off before it did anything
      have hbody := body_of_mem_stepsOf hmem
      rw [if_neg hst] at hbody
      obtain ⟨-, rfl, rfl, rfl⟩ := ht.of_cancelled hbody
      rw [List.append_nil]
      exact Or.inr ⟨hst, hl, h.due_quit hsplit hst hl⟩
  · exact ⟨x, List.mem_append_right _ hx, hf⟩

/-- **The steps of an attempt keep to the order**, and end with the reply that decides it. -/
theorem Pursues.orderly {out : Attempt × Option Halt} (hk : rules[k]? = some (rule, k))
    (hp : Pursues steps a c es out c') : ∀ (done : List Step) {past : List Entry},
      s.stepsOf address k rule = done ++ steps → Stands k done past → Live past c →
      Orderly s rules address past es ∧
        (out.2 = none →
          Live (past ++ es) c' ∧ begun (past ++ es) = k + 1 ∧ Decided s rules (past ++ es)) ∧
        (∀ halt, out.2 = some halt → Stopped s rules address (past ++ es) c' halt) := by
  induction hp with
  | @through a c =>
    intro done past hsplit hstands hl
    rw [List.append_nil] at hsplit ⊢
    refine ⟨trivial, fun _ => ⟨hl, ?_⟩, fun halt h => (by cases h)⟩
    have hstages : done.map (·.stage) = s.stages := by
      rw [← map_stage_stepsOf s address k rule, hsplit]
    have hlast := getLast?_stages s
    obtain ⟨hbegun, r, hans, -⟩ := hstands.answered (hsplit.trans (List.append_nil _).symm)
      (hstages.symm ▸ hlast)
    exact ⟨hbegun, rule, k, _, r, ⟨hk, hbegun⟩,
      ⟨List.mem_of_getLast? hlast, Or.inr hlast⟩, hans⟩
  | @halted st rest a c es h c' ht =>
    intro done past hsplit hstands hl
    have hmem := mem_of_split hsplit
    refine ⟨(ht.orderly hl (hstands.ready hk hsplit) (by simp [ofLine?_command hmem])).1,
      fun h => absurd h (Option.some_ne_none _), ?_⟩
    intro halt hh
    obtain rfl : h = halt := Option.some.inj hh
    exact hstands.stopped hsplit ht hl
  | @refused st rest a c es r c' ht hr =>
    intro done past hsplit hstands hl
    have hmem := mem_of_split hsplit
    obtain ⟨hord, hend⟩ :=
      ht.orderly hl (hstands.ready hk hsplit) (by simp [ofLine?_command hmem])
    obtain ⟨hl', hans⟩ := hend r rfl
    refine ⟨hord, fun _ => ⟨hl', ?_⟩, fun halt h => by cases h⟩
    rw [command_of_mem_stepsOf hmem] at hans
    have hbegun := hstands.begun_next hsplit ht
    exact ⟨hbegun, rule, k, _, r, ⟨hk, hbegun⟩,
      ⟨stage_mem_stages hmem, Or.inl hr⟩, hans⟩
  | @accepted st rest a c es r c' es' out c'' ht hr _ ih =>
    intro done past hsplit hstands hl
    have hmem := mem_of_split hsplit
    obtain ⟨hord, hend⟩ :=
      ht.orderly hl (hstands.ready hk hsplit) (by simp [ofLine?_command hmem])
    obtain ⟨hl', hans⟩ := hend r rfl
    have hstands' : Stands k (done ++ [st]) (past ++ es) := by
      unfold Stands
      rw [List.getLast?_concat]
      exact ⟨hstands.begun_next hsplit ht, r, hans, hr⟩
    obtain ⟨hord', hrest⟩ := ih (done ++ [st]) (by rw [hsplit]; simp) hstands' hl'
    rw [← List.append_assoc]
    exact ⟨(orderly_append _ _ _).2 ⟨hord, hord'⟩, hrest⟩

/-- **An attempt keeps to the order**, and ends with the reply to `RSET`. -/
theorem Tries.orderly {out : Attempt × Option Halt} (hk : rules[k]? = some (rule, k))
    (ht : Tries (s.stepsOf address k rule) s.resetStep a c es out c') (hb : Between k past)
    (hl : Live past c) :
    Orderly s rules address past es ∧
      (out.2 = none → Live (past ++ es) c' ∧ Between (k + 1) (past ++ es)) ∧
      (∀ halt, out.2 = some halt → Stopped s rules address (past ++ es) c' halt) := by
  have hready : ∀ {past}, Decided s rules past →
      Ready s rules address s.resetStep.lines past := by
    intro past hd
    refine ready_singleton (by simp [Settings.resetStep]) ?_
    simpa [Due, Settings.resetStep] using hd
  have hcmd : Stage.ofLine? s.resetStep.command ≠ none := by simp [Settings.resetStep]
  cases ht with
  | halted hp =>
    obtain ⟨hord, -, hstop⟩ := hp.orderly hk [] rfl hb hl
    exact ⟨hord, fun h => absurd h (Option.some_ne_none _), hstop⟩
  | unreset hp hr =>
    obtain ⟨hord, hend, -⟩ := hp.orderly hk [] rfl hb hl
    obtain ⟨hl', -, hd⟩ := hend rfl
    have hord' := (hr.orderly hl' (hready hd) hcmd).1
    refine ⟨(orderly_append _ _ _).2 ⟨hord, hord'⟩, fun h => absurd h (Option.some_ne_none _), ?_⟩
    intro halt hhalt
    obtain rfl := Option.some.inj hhalt
    rw [← List.append_assoc]
    obtain ⟨-, -, ⟨rfl, -⟩ | ⟨e, rfl, x, hx, hf⟩⟩ := hr.halted
    · obtain ⟨-, rfl, rfl, rfl⟩ := hr.of_cancelled rfl
      rw [List.append_nil]
      exact ⟨Stage.noConfusion, Or.inr ⟨Stage.noConfusion, hl', hd.due_quit hl'⟩⟩
    · exact ⟨x, List.mem_append_right _ hx, hf⟩
  | @reset es₁ b c₁ es₂ r _ hp hr =>
    obtain ⟨hord, hend, -⟩ := hp.orderly hk [] rfl hb hl
    obtain ⟨hl', hbegun, hd⟩ := hend rfl
    obtain ⟨hord', hend'⟩ := hr.orderly hl' (hready hd) hcmd
    obtain ⟨hl'', hans⟩ := hend' r rfl
    refine ⟨(orderly_append _ _ _).2 ⟨hord, hord'⟩, fun _ => ?_, fun halt h => (by cases h)⟩
    rw [← List.append_assoc]
    -- `RSET` begins no rule, so that one more is done
    have hzero : begun es₂ = 0 := by
      apply begun_eq_zero
      rw [hr.sentLines_answered]
      simp [Step.lines, Settings.resetStep]
    exact ⟨hl'', by rw [begun_append, hbegun, hzero], Or.inr ⟨r, hans⟩⟩

/-! ## Conversations in order -/

/-- How a conversation may end: with `QUIT`, on a failure, or within a message. -/
def Closed (log : List Entry) : Prop :=
  "QUIT" ∈ sentLines log ∨ (∃ x ∈ log, x.failed = true) ∨ Dictating log

theorem Quits.orderly {t : Duration} {quit : Option Reply} (hq : Quits t c es quit c')
    (hl : Live past c) (hdue : Due s rules address past "QUIT") :
    Orderly s rules address past es ∧ "QUIT" ∈ sentLines es := by
  have hsent : ∀ {res : Except String Unit} {d},
      Allowed s rules address past ⟨.sent "QUIT" res, d⟩ :=
    hl.allowed_sent hdue fun h => absurd rfl h
  have hheard : ∀ {d : Bool} {res : Except String Reply} {d'},
      Allowed s rules address (past ++ [⟨.sent "QUIT" (.ok ()), d⟩]) ⟨.heard t res, d'⟩ :=
    allowed_heard hl.unbroken (by decide)
  cases hq with
  | unsent _ => exact ⟨⟨hsent, trivial⟩, by simp⟩
  | unanswered _ _ => exact ⟨⟨hsent, hheard, trivial⟩, by simp⟩
  | answered _ _ => exact ⟨⟨hsent, hheard, trivial⟩, by simp⟩

theorem Closes.orderly {t : Duration} {halt : Halt} (hc : Closes t h halt c es h' c')
    (hs : Stopped s rules address past c halt) :
    Orderly s rules address past es ∧ Closed (past ++ es) := by
  cases hc with
  | silently hst =>
    rw [List.append_nil]
    obtain ⟨hbanner, ⟨-, hd⟩ | ⟨hne, -⟩⟩ := hs
    · exact ⟨trivial, Or.inr (Or.inr hd)⟩
    · exact absurd (hst.resolve_left hbanner) hne
  | politely hb hd hq =>
    obtain ⟨-, ⟨hend, -⟩ | ⟨-, hl, hdue⟩⟩ := hs
    · exact absurd hend hd
    · obtain ⟨hord, hmem⟩ := hq.orderly hl hdue
      exact ⟨hord, Or.inl (by simp [hmem])⟩
  | broken =>
    rw [List.append_nil]
    exact ⟨trivial, Or.inr (Or.inl hs)⟩

/-- **A conversation keeps to the order**, from rule to rule, and is closed at its end. -/
theorem TriesAll.orderly {rest : List (Rule × Nat)}
    (hnum : ∀ (i : Nat) (x : Rule × Nat), rules[i]? = some x → x.2 = i)
    (ht : TriesAll s rest h c es h' c') : ∀ (done : List (Rule × Nat)) {past : List Entry},
      rules = done ++ rest → h.address = address → Between done.length past → Live past c →
      Orderly s rules address past es ∧ Closed (past ++ es) := by
  induction ht with
  | finished hq =>
    intro done past hsplit _ hb hl
    have hk : done.length = rules.length := by rw [hsplit, List.append_nil]
    obtain ⟨hord, hmem⟩ := hq.orderly hl (hb.due_quit (Or.inr hk))
    exact ⟨hord, Or.inl (by simp [hmem])⟩
  | cancelled hq =>
    intro done past _ _ hb hl
    exact hq.orderly ⟨by decide, Or.inr ⟨by decide, hl, hb.due_quit (Or.inl hl.flag)⟩⟩
  | @halted rule index rest h es a halt c' es' h' c'' ht hq =>
    intro done past hsplit haddress hb hl
    have hget : rules[done.length]? = some (rule, index) := by rw [hsplit]; simp
    obtain rfl : index = done.length := hnum _ _ hget
    rw [haddress] at ht
    obtain ⟨hord, -, hstop⟩ := ht.orderly hget hb hl
    obtain ⟨hord', hclosed⟩ := hq.orderly (hstop halt rfl)
    rw [← List.append_assoc]
    exact ⟨(orderly_append _ _ _).2 ⟨hord, hord'⟩, hclosed⟩
  | @next rule index rest h es a c' es' h' c'' ht _ ih =>
    intro done past hsplit haddress hb hl
    have hget : rules[done.length]? = some (rule, index) := by rw [hsplit]; simp
    obtain rfl : index = done.length := hnum _ _ hget
    rw [haddress] at ht
    obtain ⟨hord, hend, -⟩ := ht.orderly hget hb hl
    -- the invariant holds again, with one rule more done
    obtain ⟨hl', hb'⟩ := hend rfl
    obtain ⟨hord', hclosed⟩ := ih (done ++ [(rule, done.length)]) (by rw [hsplit]; simp)
      haddress (by simpa using hb') hl'
    rw [← List.append_assoc]
    exact ⟨(orderly_append _ _ _).2 ⟨hord, hord'⟩, hclosed⟩

theorem rulesFor_numbered (s : Settings) (h : HostRecord) (i : Nat) (x : Rule × Nat)
    (hx : (s.rulesFor h)[i]? = some x) : x.2 = i := by
  rw [Settings.rulesFor, List.getElem?_zipIdx] at hx
  obtain ⟨rule, -, rfl⟩ := Option.map_eq_some_iff.1 hx
  simp

/-- A part of a log from before the conversation: nothing was sent or read. -/
def Silent (log : List Entry) : Prop := ∀ x ∈ log, x.line? = none ∧ x.event.isRead = false

theorem Silent.sentLines (hs : Silent past) : sentLines past = [] :=
  sentLines_eq_nil.2 fun x hx => (hs x hx).1

theorem Silent.reply? (hs : Silent past) : ∀ x ∈ past, x.reply? = none := by
  rintro ⟨event, d⟩ hx
  have := (hs _ hx).2
  cases event <;> simp_all [Entry.reply?, Event.isRead]

theorem Silent.failed (hs : Silent past) : ∀ x ∈ past, x.failed = false := by
  rintro ⟨event, d⟩ hx
  obtain ⟨hline, hread⟩ := hs _ hx
  cases event <;> simp_all [Entry.failed, Entry.line?, Event.isRead]

theorem Silent.live (hs : Silent past) (hc : past.any (·.cancelled) = c) : Live past c :=
  ⟨hs.failed, by simp [hs.sentLines], hc⟩

/-- Before a conversation anything but lines and replies is allowed. -/
theorem Silent.orderly (hs : Silent es) : ∀ {past}, Silent past →
    Orderly s rules address past es := by
  induction es with
  | nil => intro past _; trivial
  | cons e es ih =>
    intro past hpast
    obtain ⟨⟨hline, hread⟩, hes⟩ := List.forall_mem_cons.1 hs
    refine ⟨⟨hpast.failed, ?_, ?_, ?_, ?_, fun _ _ => hpast⟩, ih hes ?_⟩
    · intro line h; rw [hline] at h; cases h
    · intro line h; rw [hline] at h; cases h
    · intro line h; rw [hline] at h; cases h
    · intro h; rw [hread] at h; cases h
    · intro x hx
      rcases List.mem_append.1 hx with hx | hx
      · exact hpast x hx
      · rw [List.mem_singleton.1 hx]; exact ⟨hline, hread⟩

/-- **A conversation keeps to the order** from the banner on, and is closed if it got that far. -/
theorem Converses.orderly (hc : Converses s h c es h' c') (hpast : Silent past)
    (hflag : past.any (·.cancelled) = c) :
    Orderly s (s.rulesFor h) h.address past es ∧
      (heardReplies es ≠ [] → Closed (past ++ es)) := by
  have hl := hpast.live hflag
  have hheard : c = false → ∀ {t : Duration} {res : Except String Reply} {d},
      Allowed s (s.rulesFor h) h.address past ⟨.heard t res, d⟩ := by
    intro hc t res d
    refine ⟨hl.unbroken, by rintro _ ⟨⟩, by rintro _ ⟨⟩, by rintro _ ⟨⟩, fun _ => ?_, ?_⟩
    · exact Or.inl ⟨hpast.sentLines, heardReplies_eq_nil hpast.reply?, hflag.trans hc⟩
    · intro _ h; cases h
  cases hc with
  | cancelled hq =>
    cases hq with
    | silently _ => exact ⟨trivial, fun h => absurd rfl h⟩
    | politely hb _ _ => exact absurd rfl hb
  | unheard hr hq =>
    cases hr with
    | failed _ =>
      cases hq with
      | broken => exact ⟨⟨hheard rfl, trivial⟩, fun h => absurd rfl h⟩
  | @greeted _ r c₁ es' _ _ hr ht =>
    cases hr with
    | answered hc₁ =>
      have hl' := hl.snoc (e := ⟨.heard s.readTimeout (.ok r), c₁⟩) rfl (by simp [Entry.line?]) hc₁
      have hnone : sentLines (past ++ [⟨.heard s.readTimeout (.ok r), c₁⟩]) = [] := by
        simp [hpast.sentLines]
      have hb : Between ([] : List (Rule × Nat)).length
          (past ++ [⟨.heard s.readTimeout (.ok r), c₁⟩]) :=
        ⟨by simp [begun, hnone], Or.inl ⟨hnone, past, _, r, c₁, rfl⟩⟩
      obtain ⟨hord, hclosed⟩ := ht.orderly (rulesFor_numbered s h) [] rfl rfl hb hl'
      rw [List.append_assoc] at hclosed
      exact ⟨⟨hheard rfl, hord⟩, fun _ => hclosed⟩

theorem Identifies.silent (hi : Identifies s h c es h' c') : Silent es := by
  cases hi with
  | unasked _ => intro x hx; cases hx
  | named _ _ => intro x hx; rw [List.mem_singleton.1 hx]; exact ⟨rfl, rfl⟩
  | unnamed _ _ _ => intro x hx; rw [List.mem_singleton.1 hx]; exact ⟨rfl, rfl⟩

theorem Identifies.flag (hi : Identifies s h false es h' c') : es.any (·.cancelled) = c' := by
  cases hi <;> simp

/-- What is known of a host once a check is done with it says which rules were tried. -/
theorem Converses.rulesFor_eq (hc : Converses s h c es h' c') :
    h'.address = h.address ∧ s.rulesFor h' = s.rulesFor h := by
  have hsame : h'.address = h.address ∧ h'.hostname = h.hostname := by
    cases hc with
    | cancelled hq => exact ⟨hq.sameHost.1, hq.sameHost.2.1⟩
    | unheard _ hq => exact ⟨hq.sameHost.1, hq.sameHost.2.1⟩
    | greeted _ ht => exact ⟨ht.sameHost.1, ht.sameHost.2.1⟩
  exact ⟨hsame.1, by simp only [Settings.rulesFor, hsame.1, hsame.2]⟩

/-- **A check keeps to the order.** -/
theorem Checks.orderly {index : Nat} (hc : Checks s index address c es h c') :
    Orderly s (s.rulesFor h) address [] es ∧ (heardReplies es ≠ [] → Closed es) := by
  have hnil : Silent [] := by intro x hx; cases hx
  cases hc with
  | skipped => exact ⟨trivial, fun h => absurd rfl h⟩
  | @unreachable es h c e c' hi _ =>
    have hs : Silent (es ++ [⟨.connected h.address s.port s.connectTimeout s.readTimeout
        (.error e), c'⟩]) := by
      intro x hx
      rcases List.mem_append.1 hx with hx | hx
      · exact hi.silent x hx
      · rw [List.mem_singleton.1 hx]; exact ⟨rfl, rfl⟩
    exact ⟨hs.orderly hnil, fun h => absurd (heardReplies_eq_nil hs.reply?) h⟩
  | @reached es h c c₁ es' h' c₂ hi hc₁ hconv =>
    have hs : Silent (es ++ [⟨.connected h.address s.port s.connectTimeout s.readTimeout
        (.ok ()), c₁⟩]) := by
      intro x hx
      rcases List.mem_append.1 hx with hx | hx
      · exact hi.silent x hx
      · rw [List.mem_singleton.1 hx]; exact ⟨rfl, rfl⟩
    have hflag : (es ++ [(⟨.connected h.address s.port s.connectTimeout s.readTimeout
        (.ok ()), c₁⟩ : Entry)]).any (·.cancelled) = c₁ := by
      rw [List.any_append, hi.flag]
      cases c <;> simp_all
    obtain ⟨hord, hclosed⟩ := hconv.orderly hs hflag
    obtain ⟨-, hrules⟩ := hconv.rulesFor_eq
    have haddress : h.address = address := by cases hi <;> rfl
    rw [List.append_cons, hrules]
    refine ⟨(orderly_append _ _ _).2 ⟨hs.orderly hnil, ?_⟩, fun h => hclosed ?_⟩
    · rw [List.nil_append, ← haddress]; exact hord
    · rwa [heardReplies_append, heardReplies_eq_nil hs.reply?, List.nil_append] at h

end OpenRelay
