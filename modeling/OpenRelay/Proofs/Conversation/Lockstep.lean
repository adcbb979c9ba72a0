import OpenRelay.Proofs.Conversation.Round

/-!
# Replies in step with commands

* `replies_in_lockstep`: a record holds the replies that were read, all of them and in order. Each
  reply noted for a stage was read right after the command of that stage had gone out, within the
  round of its own rule.
-/

namespace OpenRelay

variable {s : Settings} {address : Address} {index : Nat} {rule : Rule} {banner : Option Reply}
  {stage : Stage} {st reset : Step} {steps : List Step} {a : Attempt} {c c' : Bool}
  {es : List Entry} {h h' : HostRecord}

/-! ## What a record says was answered -/

/-- The reply noted for a stage, with the command of that stage. -/
def Attempt.answer? (a : Attempt) (st : Stage) : Option (String × Reply) :=
  (a.reply? st).map fun r => (a.rule.line st, r)

/-- The replies of an attempt, each with the command of its stage. -/
def Attempt.answers (a : Attempt) : List (String × Reply) := Stage.ofAttempt.filterMap a.answer?

/-- The replies of a record after the banner, each with the command that it answers. -/
def HostRecord.answers (h : HostRecord) : List (String × Reply) :=
  h.attempts.flatMap Attempt.answers ++ h.quit.toList.map fun r => ("QUIT", r)

/-- The replies of a record: the banner, those of the attempts, and the one to `QUIT`. -/
def HostRecord.replies (h : HostRecord) : List Reply :=
  h.banner.toList ++ (h.attempts.flatMap fun a => Stage.ofAttempt.filterMap a.reply?) ++
    h.quit.toList

theorem Attempt.map_snd_answers (a : Attempt) :
    a.answers.map Prod.snd = Stage.ofAttempt.filterMap a.reply? := by
  rw [Attempt.answers, List.map_filterMap]
  congr 1
  funext st
  unfold Attempt.answer?
  cases a.reply? st <;> rfl

theorem HostRecord.replies_eq (h : HostRecord) :
    h.replies = h.banner.toList ++ h.answers.map Prod.snd := by
  unfold HostRecord.replies HostRecord.answers
  rw [List.map_append, List.map_flatMap, List.append_assoc]
  congr 2
  · congr 1
    funext a
    exact a.map_snd_answers.symm
  · cases h.quit <;> rfl

/-- The replies noted of an attempt grow by each reply, if they come in the order of the stages. -/
theorem Attempt.answers_noteReply (a : Attempt) {stage : Stage} {before after : List Stage}
    (hsplit : Stage.ofAttempt = before ++ stage :: after)
    (hfresh : ∀ st ∈ stage :: after, a.reply? st = none) (r : Reply) :
    (a.noteReply stage r).answers = a.answers ++ [(a.rule.line stage, r)] ∧
      ∀ st ∈ after, (a.noteReply stage r).reply? st = none := by
  have hmem : stage ∈ Stage.ofAttempt := by rw [hsplit]; simp
  have hnodup : Stage.ofAttempt.Nodup := by decide
  rw [hsplit, List.nodup_append] at hnodup
  obtain ⟨-, hcons, hdisjoint⟩ := hnodup
  have hlater : ∀ st ∈ after, (a.noteReply stage r).reply? st = none := by
    intro st hst
    rw [a.reply?_noteReply hmem, if_neg, hfresh st (List.mem_cons_of_mem _ hst)]
    rintro rfl
    exact (List.nodup_cons.1 hcons).1 hst
  have hbefore : before.filterMap (a.noteReply stage r).answer? = before.filterMap a.answer? := by
    refine List.filterMap_congr fun st hst => ?_
    unfold Attempt.answer?
    rw [a.reply?_noteReply hmem, if_neg (hdisjoint st hst stage List.mem_cons_self),
      Attempt.rule_noteReply]
  have hstage : (a.noteReply stage r).answer? stage = some (a.rule.line stage, r) := by
    unfold Attempt.answer?
    rw [a.reply?_noteReply hmem, if_pos rfl, Attempt.rule_noteReply]
    rfl
  have hafter : after.filterMap (a.noteReply stage r).answer? = [] :=
    List.filterMap_eq_nil_iff.2 fun st hst => by simp [Attempt.answer?, hlater st hst]
  have hold : (stage :: after).filterMap a.answer? = [] :=
    List.filterMap_eq_nil_iff.2 fun st hst => by simp [Attempt.answer?, hfresh st hst]
  refine ⟨?_, hlater⟩
  unfold Attempt.answers
  rw [hsplit, List.filterMap_append, List.filterMap_append, hbefore, hold, List.append_nil,
    List.filterMap_cons_some hstage, hafter]

@[simp] theorem Attempt.answers_noteRequest (a : Attempt) (stage : Stage) (line : String) :
    (a.noteRequest stage line).answers = a.answers := by
  unfold Attempt.answers Attempt.answer?
  simp

@[simp] theorem Attempt.answers_ended (a : Attempt) (halt : Option Halt) :
    (a.ended halt).answers = a.answers := by
  unfold Attempt.answers Attempt.answer?
  simp

/-- Nothing is noted of an attempt before it is made. -/
theorem Attempt.reply?_new (index : Nat) (rule : Rule) (banner : Option Reply) :
    ∀ st ∈ Stage.ofAttempt,
      ({ ruleIndex := index, rule, banner } : Attempt).reply? st = none := by
  simp [Stage.ofAttempt, Attempt.reply?]

theorem Attempt.answers_new (index : Nat) (rule : Rule) (banner : Option Reply) :
    ({ ruleIndex := index, rule, banner } : Attempt).answers = [] :=
  List.filterMap_eq_nil_iff.2 fun st hst => by
    rw [Attempt.answer?, Attempt.reply?_new index rule banner st hst]; rfl

/-! ## Every reply is an exchange -/

/-- Every reply of a part of a log was read right after a line. -/
def Paired (es : List Entry) : Prop := heardReplies es = (exchanges es).map Prod.snd

theorem Paired.append {es es' : List Entry} (h : Paired es) (h' : Paired es')
    (hs : Speaks es') : Paired (es ++ es') := by
  unfold Paired at *
  rw [heardReplies_append, exchanges_append hs, List.map_append, h, h']

theorem Takes.paired {out : Except Halt Reply} (ht : Takes st c es out c') : Paired es := by
  unfold Paired
  cases out with
  | error halt =>
    have hnone := ht.halted.1
    rw [heardReplies_eq_nil hnone, exchanges_eq_nil hnone]; rfl
  | ok r => rw [ht.heardReplies_answered, ht.exchanges_answered]; rfl

theorem Pursues.paired {out : Attempt × Option Halt} (hp : Pursues steps a c es out c') :
    Paired es := by
  induction hp with
  | through => rfl
  | halted ht => exact ht.paired
  | refused ht _ => exact ht.paired
  | accepted ht _ hp ih => exact ht.paired.append ih hp.speaks

theorem Tries.paired {out : Attempt × Option Halt} (ht : Tries steps reset a c es out c') :
    Paired es := by
  cases ht with
  | halted hp => exact hp.paired
  | unreset hp ht => exact hp.paired.append ht.paired ht.speaks
  | reset hp ht => exact hp.paired.append ht.paired ht.speaks

/-! ## Attempts note the exchanges of their rounds -/

/-- **Steps note what they exchange**, if their stages come in order and nothing was noted for
them before. -/
theorem Pursues.answers {out : Attempt × Option Halt} (hp : Pursues steps a c es out c') :
    ∀ (before after : List Stage), Stage.ofAttempt = before ++ steps.map (·.stage) ++ after →
      (∀ st ∈ steps, st.command = a.rule.line st.stage) →
      (∀ st ∈ steps.map (·.stage) ++ after, a.reply? st = none) →
      out.1.answers = a.answers ++ exchanges es ∧ ∀ st ∈ after, out.1.reply? st = none := by
  -- one answered step: its reply is noted, and the stages after it are still without one
  have key : ∀ {st : Step} {rest : List Step} {a : Attempt} {before after : List Stage} (r : Reply),
      Stage.ofAttempt = before ++ (st :: rest).map (·.stage) ++ after →
      st.command = a.rule.line st.stage →
      (∀ x ∈ (st :: rest).map (·.stage) ++ after, a.reply? x = none) →
      ((a.noteRequest st.stage st.command).noteReply st.stage r).answers =
          a.answers ++ [(st.command, r)] ∧
        ∀ x ∈ rest.map (·.stage) ++ after,
          ((a.noteRequest st.stage st.command).noteReply st.stage r).reply? x = none := by
    intro st rest a before after r hsplit hcmd hfresh
    have := (a.noteRequest st.stage st.command).answers_noteReply
      (List.map_cons ▸ hsplit.trans (List.append_assoc _ _ _)) (by simpa using hfresh) r
    rw [Attempt.answers_noteRequest, Attempt.rule_noteRequest, ← hcmd] at this
    exact this
  induction hp with
  | through =>
    intro before after _ _ hfresh
    exact ⟨(List.append_nil _).symm, hfresh⟩
  | halted ht =>
    intro before after _ _ hfresh
    rw [exchanges_eq_nil ht.halted.1]
    exact ⟨by simp, fun st hst => by simpa using hfresh st (List.mem_append_right _ hst)⟩
  | @refused st rest a c es r c' ht _ =>
    intro before after hsplit hcmd hfresh
    obtain ⟨hans, hlater⟩ := key r hsplit (hcmd st List.mem_cons_self) hfresh
    rw [ht.exchanges_answered]
    exact ⟨hans, fun st hst => hlater st (List.mem_append_right _ hst)⟩
  | @accepted st rest a c es r c' es' out c'' ht _ hp ih =>
    intro before after hsplit hcmd hfresh
    obtain ⟨hans, hlater⟩ := key r hsplit (hcmd st List.mem_cons_self) hfresh
    obtain ⟨hout, hafter⟩ := ih (before ++ [st.stage]) after (by simpa using hsplit)
      (fun st' hst' => by simpa using hcmd st' (List.mem_cons_of_mem _ hst')) hlater
    refine ⟨?_, hafter⟩
    rw [hout, hans, exchanges_append hp.speaks, ht.exchanges_answered, List.append_assoc]

/-- An attempt notes the exchanges of its round, all of them and no others. -/
theorem Tries.answers {out : Attempt × Option Halt}
    (ht : Tries (s.stepsOf address index rule) s.resetStep { ruleIndex := index, rule, banner }
      false es out c') : out.1.answers = exchanges es := by
  obtain ⟨after, hafter⟩ : ∃ after, Stage.ofAttempt = s.stages ++ after ++ [.rset] := by
    unfold Settings.stages
    split
    · exact ⟨[], rfl⟩
    · exact ⟨[.dataStart, .dataEnd], rfl⟩
  have key : ∀ {es : List Entry} {out : Attempt × Option Halt} {c' : Bool},
      Pursues (s.stepsOf address index rule) { ruleIndex := index, rule, banner } false es out c' →
        out.1.answers = exchanges es ∧ out.1.reply? .rset = none := by
    intro es out c' hp
    obtain ⟨hout, hlater⟩ := hp.answers [] (after ++ [.rset])
      (by rw [map_stage_stepsOf, List.nil_append, hafter, List.append_assoc])
      (fun st hst => command_of_mem_stepsOf hst) (by
        rw [map_stage_stepsOf, ← List.append_assoc, ← hafter]
        exact Attempt.reply?_new index rule banner)
    rw [Attempt.answers_new, List.nil_append] at hout
    exact ⟨hout, hlater _ (by simp)⟩
  cases ht with
  | halted hp => exact (key hp).1
  | unreset hp ht =>
    rw [exchanges_append ht.speaks, exchanges_eq_nil ht.halted.1, List.append_nil]
    exact (key hp).1
  | reset hp ht =>
    obtain ⟨hans, hrset⟩ := key hp
    rw [exchanges_append ht.speaks, ht.exchanges_answered, ← hans]
    exact (Attempt.answers_noteReply _ hafter (by simpa using hrset) _).1

theorem Attempted.answers (h : Attempted s address banner a es) : a.answers = exchanges es := by
  obtain ⟨b, halt, c', ht, hb⟩ := h
  rw [hb, Attempt.answers_ended]
  exact ht.answers

/-! ## The whole record -/

theorem Quits.exchanges_eq {t : Duration} {quit : Option Reply} (hq : Quits t c es quit c') :
    exchanges es = quit.toList.map fun r => ("QUIT", r) := by
  cases hq <;> rfl

theorem Quits.paired {t : Duration} {quit : Option Reply} (hq : Quits t c es quit c') :
    Paired es := by
  cases hq <;> rfl

theorem Quits.speaks {t : Duration} {quit : Option Reply} (hq : Quits t c es quit c') :
    Speaks es := by
  cases hq <;> exact speaks_sent _ _ _ _

theorem Closes.speaks {t : Duration} {halt : Halt} (hc : Closes t h halt c es h' c') :
    Speaks es := by
  cases hc with
  | silently _ => exact speaks_nil
  | politely _ _ hq => exact hq.speaks
  | broken => exact speaks_nil

theorem Closes.paired {t : Duration} {halt : Halt} (hc : Closes t h halt c es h' c') :
    Paired es := by
  cases hc with
  | silently _ => rfl
  | politely _ _ hq => exact hq.paired
  | broken => rfl

theorem Closes.answers {t : Duration} {halt : Halt} (hc : Closes t h halt c es h' c')
    (hquit : h.quit = none) : h'.answers = h.answers ++ exchanges es := by
  cases hc with
  | silently _ => exact (List.append_nil _).symm
  | politely _ _ hq => simp [HostRecord.answers, hquit, hq.exchanges_eq]
  | broken => exact (List.append_nil _).symm

theorem TriesAll.speaks {rules : List (Rule × Nat)} (ht : TriesAll s rules h c es h' c') :
    Speaks es := by
  induction ht with
  | finished hq => exact hq.speaks
  | cancelled hq => exact hq.speaks
  | halted ht hq => exact ht.speaks.append hq.speaks
  | next ht _ ih => exact ht.speaks.append ih

theorem TriesAll.paired {rules : List (Rule × Nat)} (ht : TriesAll s rules h c es h' c') :
    Paired es := by
  induction ht with
  | finished hq => exact hq.paired
  | cancelled hq => exact hq.paired
  | halted ht hq => exact ht.paired.append hq.paired hq.speaks
  | next ht ht' ih => exact ht.paired.append ih ht'.speaks

/-- A conversation adds its exchanges to the record, attempt by attempt. -/
theorem TriesAll.answers {rules : List (Rule × Nat)} (ht : TriesAll s rules h c es h' c')
    (hquit : h.quit = none) : h'.answers = h.answers ++ exchanges es := by
  have hnoted : ∀ (h : HostRecord) (a : Attempt), h.quit = none →
      ({ h with attempts := h.attempts ++ [a] } : HostRecord).answers = h.answers ++ a.answers := by
    intro h a hquit
    simp [HostRecord.answers, hquit]
  induction ht with
  | finished hq => simp [HostRecord.answers, hquit, hq.exchanges_eq]
  | cancelled hq => exact hq.answers hquit
  | @halted rule index rest h es a halt c' es' h' c'' ht hq =>
    have ha : (a.cutOff halt).answers = exchanges es := by
      rw [← ht.answers]; exact a.answers_ended (some halt)
    rw [hq.answers hquit, hnoted h _ hquit, ha, List.append_assoc, exchanges_append hq.speaks]
  | next ht ht' ih =>
    rw [ih hquit, hnoted _ _ hquit, ht.answers, List.append_assoc, exchanges_append ht'.speaks]

theorem Hears.brings {t : Duration} {r : Reply} (hr : Hears stage t c es (.ok r) c') :
    heardReplies es = [r] ∧ exchanges es = [] := by
  cases hr; exact ⟨rfl, rfl⟩

theorem Hears.brings_nothing {t : Duration} {halt : Halt}
    (hr : Hears stage t c es (.error halt) c') : heardReplies es = [] ∧ exchanges es = [] := by
  cases hr; exact ⟨rfl, rfl⟩

theorem Closes.banner_eq {t : Duration} {halt : Halt} (hc : Closes t h halt c es h' c') :
    h'.banner = h.banner := hc.sameHost.2.2

/-- The record of a conversation holds the replies of its log, and after the banner each is the
answer to a line. -/
theorem Converses.answers (hc : Converses s h c es h' c') (hnew : h.banner = none)
    (hquit : h.quit = none) (hnone : h.attempts = []) :
    h'.replies = heardReplies es ∧ h'.answers = exchanges es := by
  have hans : h.answers = [] := by simp [HostRecord.answers, hquit, hnone]
  cases hc with
  | cancelled hq =>
    have hout := hq.answers hquit
    rw [hans, List.nil_append] at hout
    exact ⟨by rw [HostRecord.replies_eq, hq.banner_eq, hnew, hout, hq.paired]; rfl, hout⟩
  | unheard hr hq =>
    have hout := hq.answers hquit
    rw [hans, List.nil_append] at hout
    rw [HostRecord.replies_eq, hq.banner_eq, hnew, hout, heardReplies_append,
      exchanges_append hq.speaks, hr.brings_nothing.1, hr.brings_nothing.2, hq.paired]
    exact ⟨rfl, rfl⟩
  | greeted hr ht =>
    have hout := ht.answers hquit
    have hbanner := ht.sameHost.2.2
    have hans' : ∀ banner, ({ h with banner } : HostRecord).answers = [] := fun _ => hans
    rw [hans', List.nil_append] at hout
    rw [HostRecord.replies_eq, hbanner, hout, heardReplies_append, exchanges_append ht.speaks,
      hr.brings.1, hr.brings.2, ht.paired]
    exact ⟨rfl, rfl⟩

/-- Before the connection nothing is read, and nothing of it is noted. -/
theorem Identifies.nothing (hi : Identifies s { index, address } c es h c') :
    (∀ e ∈ es, e.reply? = none) ∧ h.banner = none ∧ h.quit = none ∧ h.attempts = [] := by
  cases hi with
  | unasked _ => exact ⟨by simp, rfl, rfl, rfl⟩
  | named _ _ => exact ⟨by simp [Entry.reply?], rfl, rfl, rfl⟩
  | unnamed _ _ _ => exact ⟨by simp [Entry.reply?], rfl, rfl, rfl⟩

/-- The record of a check holds the replies of its log, and after the banner each is the answer
to a line. -/
theorem Checks.answers (hc : Checks s index address c es h c') :
    h.replies = heardReplies es ∧ h.answers = exchanges es := by
  cases hc with
  | skipped => exact ⟨rfl, rfl⟩
  | @unreachable es h c e c' hi _ =>
    obtain ⟨hes, hbanner, hquit, hnone⟩ := hi.nothing
    have hall : ∀ x ∈ es ++ [⟨.connected h.address s.port s.connectTimeout s.readTimeout
        (.error e), c'⟩], x.reply? = none := by
      intro x hx
      rcases List.mem_append.1 hx with hx | hx
      · exact hes x hx
      · rw [List.mem_singleton.1 hx]; rfl
    rw [heardReplies_eq_nil hall, exchanges_eq_nil hall]
    simp [HostRecord.replies, HostRecord.answers, hbanner, hquit, hnone]
  | @reached es h c c₁ es' h' c₂ hi _ hconv =>
    obtain ⟨hes, hbanner, hquit, hnone⟩ := hi.nothing
    have hspeaks : Speaks (⟨.connected h.address s.port s.connectTimeout s.readTimeout
        (.ok ()), c₁⟩ :: es') := by simp [Speaks, Event.isRead]
    rw [heardReplies_append, exchanges_append hspeaks, heardReplies_eq_nil hes,
      exchanges_eq_nil hes]
    exact hconv.answers hbanner hquit hnone

/-- **Replies are in step with commands.** A record holds exactly the replies that were read, in
order: the banner, those of each attempt by stage, and the one to `QUIT`. Each reply after the
banner was read right after its command went out, and the replies of an attempt are the exchanges
of its own round. -/
theorem replies_in_lockstep (s : Settings) (p : Peer) (index : Nat) (address : Address)
    (cancelled : Bool) :
    let h := s.recordOf p index address cancelled
    let log := s.logOf p index address cancelled
    h.replies = heardReplies log ∧ h.answers = exchanges log ∧
      List.Forall₂ (fun a round => a.answers = exchanges round) h.attempts (rounds log) ∧
      h.attempts.map (fun a => (a.rule, a.ruleIndex)) <+: s.rulesFor h := by
  intro h log
  obtain ⟨c', hc⟩ := s.checks p index address cancelled
  obtain ⟨hall, hrules⟩ := hc.attempted
  obtain ⟨hreplies, hans⟩ := hc.answers
  exact ⟨hreplies, hans, hall.imp fun _ _ => Attempted.answers, hrules⟩

end OpenRelay
