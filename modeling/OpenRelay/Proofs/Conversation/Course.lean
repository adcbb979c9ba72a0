import OpenRelay.Conversation.Check

/-!
# What can happen in a check

A run depends on the peer, and a peer may answer anything. This module forgets the peer: for each
dialogue of a check there is a relation between the flag before it (whether the scan is cancelled),
the entries that it leaves in the log, its result, and the flag after it. A relation has one case
for each way in which the dialogue can go.

* `Dialogue.Follows`: every run of a dialogue, against any peer, goes as a relation says.
* `transmit_follows`, `take_follows`, `pursue_follows`, `tryRule_follows`, `sayQuit_follows`,
  `closeEarly_follows`, `tryRules_follows`, `converse_follows`, `identify_follows`: the dialogues
  follow their relations.
* `checkHost_follows`: so does the whole check. What holds of all courses of a check holds of all
  its runs.
-/

namespace OpenRelay

/-- Every run of a dialogue goes as `R` says: `R c es a c'` holds of the flag `c` before the run,
the entries `es` that it appends to the log, its result `a`, and the flag `c'` after it. -/
def Dialogue.Follows {α : Type} (d : Dialogue α) (R : Bool → List Entry → α → Bool → Prop) : Prop :=
  ∀ (p : Peer) (w : World), ∃ es, (d.run p w).2.log = w.log ++ es ∧
    R w.cancelled es (d.run p w).1 (d.run p w).2.cancelled

theorem sendLine_follows (line : String) :
    (Dialogue.sendLine line).Follows fun c es out c' =>
      es = [⟨.sent line out, c'⟩] ∧ (c = true → c' = true) := by
  intro p w
  exact ⟨_, rfl, rfl, fun h => by simp [World.after, h]⟩

theorem readReply_follows (timeout : Duration) :
    (Dialogue.readReply timeout).Follows fun c es out c' =>
      es = [⟨.heard timeout out, c'⟩] ∧ (c = true → c' = true) := by
  intro p w
  exact ⟨_, rfl, rfl, fun h => by simp [World.after, h]⟩

theorem lookUpName_follows (x : Address) :
    (Dialogue.lookUpName x).Follows fun c es out c' =>
      es = [⟨.lookedUp x out, c'⟩] ∧ (c = true → c' = true) := by
  intro p w
  exact ⟨_, rfl, rfl, fun h => by simp [World.after, h]⟩

theorem connectTo_follows (x : Address) (port : Nat) (t t' : Duration) :
    (Dialogue.connectTo x port t t').Follows fun c es out c' =>
      es = [⟨.connected x port t t' out, c'⟩] ∧ (c = true → c' = true) := by
  intro p w
  exact ⟨_, rfl, rfl, fun h => by simp [World.after, h]⟩

/-- An entry of a line that went out while the scan was going on. -/
abbrev Entry.calm (line : String) : Entry := ⟨.sent line (.ok ()), false⟩

/-- How the sending of lines can go. -/
inductive Transmits (stage : Stage) :
    List String → Bool → List Entry → Except Halt Unit → Bool → Prop where
  | done {c} : Transmits stage [] c [] (.ok ()) c
  | cancelled {line rest} :
      Transmits stage (line :: rest) true [] (.error (.cancelled stage)) true
  | failed {line rest e c} :
      Transmits stage (line :: rest) false [⟨.sent line (.error e), c⟩]
        (.error (.broken (.io stage e))) c
  | sent {line rest c es out c'} : Transmits stage rest c es out c' →
      Transmits stage (line :: rest) false (⟨.sent line (.ok ()), c⟩ :: es) out c'

theorem transmit_follows (stage : Stage) (lines : List String) :
    (transmit stage lines).Follows (Transmits stage lines) := by
  induction lines with
  | nil => intro p w; exact ⟨[], by simp [transmit], .done⟩
  | cons line rest ih =>
    intro p w
    simp only [transmit, Dialogue.run_bind, Dialogue.run_isCancelled]
    cases hc : w.cancelled with
    | true =>
      -- the flag is read before each line, so nothing is logged
      refine ⟨[], by simp, ?_⟩
      simp only [Dialogue.run_pure, hc]
      exact .cancelled
    | false =>
      simp only [Dialogue.run_bind, Dialogue.run_sendLine]
      cases (p.send w.log line).value with
      | error e => exact ⟨_, rfl, .failed⟩
      | ok u =>
        obtain ⟨es, hlog, h⟩ := ih p (w.after (.sent line (.ok u)) (p.send w.log line).cancels)
        refine ⟨_ :: es, ?_, .sent h⟩
        rw [hlog]; simp [World.after]

/-- How the reading of a reply can go. -/
inductive Hears (stage : Stage) (timeout : Duration) :
    Bool → List Entry → Except Halt Reply → Bool → Prop where
  | failed {c e c'} (hc : c = true → c' = true) :
      Hears stage timeout c [⟨.heard timeout (.error e), c'⟩] (.error (.broken (.io stage e))) c'
  | answered {c r c'} (hc : c = true → c' = true) :
      Hears stage timeout c [⟨.heard timeout (.ok r), c'⟩] (.ok r) c'

theorem hear_follows (stage : Stage) (timeout : Duration) :
    (hear stage timeout).Follows (Hears stage timeout) := by
  intro p w
  obtain ⟨es, hlog, rfl, hc⟩ := readReply_follows timeout p w
  simp only [hear, Dialogue.run_bind]
  generalize (Dialogue.readReply timeout).run p w = heard at hlog hc
  obtain ⟨out, w'⟩ := heard
  cases out with
  | error e => exact ⟨_, hlog, .failed hc⟩
  | ok r => exact ⟨_, hlog, .answered hc⟩

/-- How a step can go. -/
inductive Takes (st : Step) : Bool → List Entry → Except Halt Reply → Bool → Prop where
  | unsent {c es h c'} : Transmits st.stage (st.body ++ [st.command]) c es (.error h) c' →
      Takes st c es (.error h) c'
  | sent {c es c' es' out c''} : Transmits st.stage (st.body ++ [st.command]) c es (.ok ()) c' →
      Hears st.stage st.timeout c' es' out c'' → Takes st c (es ++ es') out c''

theorem take_follows (st : Step) : st.take.Follows (Takes st) := by
  intro p w
  obtain ⟨es, hlog, h⟩ := transmit_follows st.stage (st.body ++ [st.command]) p w
  simp only [Step.take, Dialogue.run_bind]
  generalize (transmit st.stage (st.body ++ [st.command])).run p w = sent at hlog h
  obtain ⟨out, w'⟩ := sent
  cases out with
  | error halt => exact ⟨es, hlog, .unsent h⟩
  | ok u =>
    obtain ⟨es', hlog', h'⟩ := hear_follows st.stage st.timeout p w'
    exact ⟨es ++ es', by simp_all, .sent h h'⟩

/-- How the steps of an attempt can go. -/
inductive Pursues :
    List Step → Attempt → Bool → List Entry → Attempt × Option Halt → Bool → Prop where
  | through {a c} : Pursues [] a c [] ({ a with verdict := .relayed }, none) c
  | halted {st rest a c es h c'} : Takes st c es (.error h) c' →
      Pursues (st :: rest) a c es (a.noteRequest st.stage st.command, some h) c'
  | refused {st rest a c es r c'} : Takes st c es (.ok r) c' → st.stage.accepts r = false →
      Pursues (st :: rest) a c es
        ({ (a.noteRequest st.stage st.command).noteReply st.stage r with
            failure := some (.rejected st.stage r) }, none) c'
  | accepted {st rest a c es r c' es' out c''} : Takes st c es (.ok r) c' →
      st.stage.accepts r = true →
      Pursues rest ((a.noteRequest st.stage st.command).noteReply st.stage r) c' es' out c'' →
      Pursues (st :: rest) a c (es ++ es') out c''

theorem pursue_follows (steps : List Step) :
    ∀ a, (pursue steps a).Follows (Pursues steps a) := by
  induction steps with
  | nil => intro a p w; exact ⟨[], by simp [pursue], .through⟩
  | cons st rest ih =>
    intro a p w
    obtain ⟨es, hlog, h⟩ := take_follows st p w
    simp only [pursue, Dialogue.run_bind]
    generalize st.take.run p w = taken at hlog h
    obtain ⟨out, w'⟩ := taken
    cases out with
    | error halt => exact ⟨es, hlog, .halted h⟩
    | ok r =>
      cases hr : st.stage.accepts r with
      | false =>
        refine ⟨es, ?_, ?_⟩
        · simpa [hr] using hlog
        · simpa [hr] using Pursues.refused h hr
      | true =>
        obtain ⟨es', hlog', h'⟩ :=
          ih ((a.noteRequest st.stage st.command).noteReply st.stage r) p w'
        refine ⟨es ++ es', ?_, ?_⟩
        · simp_all
        · simpa [hr] using Pursues.accepted h hr h'

/-- How an attempt can go. -/
inductive Tries (steps : List Step) (reset : Step) (a : Attempt) :
    Bool → List Entry → Attempt × Option Halt → Bool → Prop where
  | halted {c es b h c'} : Pursues steps a c es (b, some h) c' →
      Tries steps reset a c es (b, some h) c'
  | unreset {c es b c' es' h c''} : Pursues steps a c es (b, none) c' →
      Takes reset c' es' (.error h) c'' → Tries steps reset a c (es ++ es') (b, some h) c''
  | reset {c es b c' es' r c''} : Pursues steps a c es (b, none) c' →
      Takes reset c' es' (.ok r) c'' →
      Tries steps reset a c (es ++ es') (b.noteReply reset.stage r, none) c''

theorem tryRule_follows (steps : List Step) (reset : Step) (a : Attempt) :
    (tryRule steps reset a).Follows (Tries steps reset a) := by
  intro p w
  obtain ⟨es, hlog, h⟩ := pursue_follows steps a p w
  simp only [tryRule, Dialogue.run_bind]
  generalize (pursue steps a).run p w = pursued at hlog h
  obtain ⟨⟨b, halt⟩, w'⟩ := pursued
  cases halt with
  | some halt => exact ⟨es, hlog, .halted h⟩
  | none =>
    obtain ⟨es', hlog', h'⟩ := take_follows reset p w'
    simp only [conclude, Dialogue.run_bind]
    generalize reset.take.run p w' = taken at hlog' h'
    obtain ⟨out, w''⟩ := taken
    cases out with
    | error halt => exact ⟨es ++ es', by simp_all, .unreset h h'⟩
    | ok r => exact ⟨es ++ es', by simp_all, .reset h h'⟩

/-- How the leave-taking can go. -/
inductive Quits (timeout : Duration) : Bool → List Entry → Option Reply → Bool → Prop where
  | unsent {c e c'} (hc : c = true → c' = true) :
      Quits timeout c [⟨.sent "QUIT" (.error e), c'⟩] none c'
  | unanswered {c c' e c''} (hc : c = true → c' = true) (hc' : c' = true → c'' = true) :
      Quits timeout c [⟨.sent "QUIT" (.ok ()), c'⟩, ⟨.heard timeout (.error e), c''⟩] none c''
  | answered {c c' r c''} (hc : c = true → c' = true) (hc' : c' = true → c'' = true) :
      Quits timeout c [⟨.sent "QUIT" (.ok ()), c'⟩, ⟨.heard timeout (.ok r), c''⟩] (some r) c''

theorem sayQuit_follows (timeout : Duration) : (sayQuit timeout).Follows (Quits timeout) := by
  intro p w
  obtain ⟨es, hlog, rfl, hc⟩ := sendLine_follows "QUIT" p w
  simp only [sayQuit, Dialogue.run_bind]
  generalize (Dialogue.sendLine "QUIT").run p w = sent at hlog hc
  obtain ⟨out, w'⟩ := sent
  cases out with
  | error e => exact ⟨_, hlog, .unsent hc⟩
  | ok u =>
    obtain ⟨es', hlog', rfl, hc'⟩ := readReply_follows timeout p w'
    simp only [Dialogue.run_bind]
    generalize (Dialogue.readReply timeout).run p w' = heard at hlog' hc'
    obtain ⟨out, w''⟩ := heard
    change w'.log = _ at hlog
    rw [hlog, List.append_assoc] at hlog'
    cases out with
    | error e => exact ⟨_, hlog', .unanswered hc hc'⟩
    | ok r => exact ⟨_, hlog', .answered hc hc'⟩

/-- How an early end can go. -/
inductive Closes (timeout : Duration) (h : HostRecord) :
    Halt → Bool → List Entry → HostRecord → Bool → Prop where
  | silently {stage c} : stage = .banner ∨ stage = .dataEnd →
      Closes timeout h (.cancelled stage) c [] { h with cancelled := true } c
  | politely {stage c es quit c'} : stage ≠ .banner → stage ≠ .dataEnd →
      Quits timeout c es quit c' →
      Closes timeout h (.cancelled stage) c es { h with cancelled := true, quit } c'
  | broken {failure c} :
      Closes timeout h (.broken failure) c []
        { h with fatal := true, error := some (toString failure) } c

theorem closeEarly_follows (timeout : Duration) (h : HostRecord) (halt : Halt) :
    (closeEarly timeout h halt).Follows (Closes timeout h halt) := by
  intro p w
  cases halt with
  | broken failure => exact ⟨[], by simp [closeEarly], .broken⟩
  | cancelled stage =>
    by_cases hs : stage = .banner ∨ stage = .dataEnd
    · refine ⟨[], ?_, ?_⟩
      · rcases hs with rfl | rfl <;> simp [closeEarly]
      · rcases hs with rfl | rfl <;> exact .silently (by simp)
    · -- every other stage closes in the same way
      obtain ⟨hb, hd⟩ := not_or.1 hs
      obtain ⟨es, hlog, hq⟩ := sayQuit_follows timeout p w
      have hrun : (closeEarly timeout h (.cancelled stage)).run p w =
          ({ h with cancelled := true, quit := ((sayQuit timeout).run p w).1 },
            ((sayQuit timeout).run p w).2) := by
        cases stage <;> simp_all [closeEarly]
      rw [hrun]
      exact ⟨es, hlog, .politely hb hd hq⟩

/-- How the rules of a host can go. -/
inductive TriesAll (s : Settings) :
    List (Rule × Nat) → HostRecord → Bool → List Entry → HostRecord → Bool → Prop where
  | finished {h c es quit c'} : Quits s.readTimeout c es quit c' →
      TriesAll s [] h c es { h with quit } c'
  | cancelled {x rest h es h' c'} : Closes s.readTimeout h (.cancelled .helo) true es h' c' →
      TriesAll s (x :: rest) h true es h' c'
  | halted {rule index rest h es a halt c' es' h' c''} :
      Tries (s.stepsOf h.address index rule) s.resetStep
        { ruleIndex := index, rule, banner := h.banner } false es (a, some halt) c' →
      Closes s.readTimeout { h with attempts := h.attempts ++ [a.cutOff halt] } halt c' es' h' c'' →
      TriesAll s ((rule, index) :: rest) h false (es ++ es') h' c''
  | next {rule index rest h es a c' es' h' c''} :
      Tries (s.stepsOf h.address index rule) s.resetStep
        { ruleIndex := index, rule, banner := h.banner } false es (a, none) c' →
      TriesAll s rest { h with attempts := h.attempts ++ [a] } c' es' h' c'' →
      TriesAll s ((rule, index) :: rest) h false (es ++ es') h' c''

theorem tryRules_follows (s : Settings) (rules : List (Rule × Nat)) :
    ∀ h, (tryRules s rules h).Follows (TriesAll s rules h) := by
  induction rules with
  | nil =>
    intro h p w
    obtain ⟨es, hlog, hq⟩ := sayQuit_follows s.readTimeout p w
    simp only [tryRules, Dialogue.run_bind, Dialogue.run_pure]
    exact ⟨es, hlog, .finished hq⟩
  | cons x rest ih =>
    intro h p w
    obtain ⟨rule, index⟩ := x
    simp only [tryRules, Dialogue.run_bind, Dialogue.run_isCancelled]
    cases hc : w.cancelled with
    | true =>
      obtain ⟨es, hlog, hq⟩ := closeEarly_follows s.readTimeout h (.cancelled .helo) p w
      rw [hc] at hq
      exact ⟨es, hlog, .cancelled hq⟩
    | false =>
      obtain ⟨es, hlog, ht⟩ := tryRule_follows (s.stepsOf h.address index rule) s.resetStep
        { ruleIndex := index, rule, banner := h.banner } p w
      rw [hc] at ht
      simp only [Dialogue.run_bind]
      generalize (tryRule _ _ _).run p w = tried at hlog ht
      obtain ⟨⟨a, halt⟩, w'⟩ := tried
      cases halt with
      | none =>
        obtain ⟨es', hlog', h'⟩ := ih { h with attempts := h.attempts ++ [a] } p w'
        exact ⟨es ++ es', by simp_all, .next ht h'⟩
      | some halt =>
        obtain ⟨es', hlog', h'⟩ := closeEarly_follows s.readTimeout
          { h with attempts := h.attempts ++ [a.cutOff halt] } halt p w'
        exact ⟨es ++ es', by simp_all, .halted ht h'⟩

/-- How the conversation on an open connection can go. -/
inductive Converses (s : Settings) (h : HostRecord) :
    Bool → List Entry → HostRecord → Bool → Prop where
  | cancelled {es h' c'} : Closes s.readTimeout h (.cancelled .banner) true es h' c' →
      Converses s h true es h' c'
  | unheard {es halt c es' h' c'} : Hears .banner s.readTimeout false es (.error halt) c →
      Closes s.readTimeout h halt c es' h' c' → Converses s h false (es ++ es') h' c'
  | greeted {es r c es' h' c'} : Hears .banner s.readTimeout false es (.ok r) c →
      TriesAll s (s.rulesFor h) { h with banner := some r } c es' h' c' →
      Converses s h false (es ++ es') h' c'

theorem converse_follows (s : Settings) (h : HostRecord) :
    (converse s h).Follows (Converses s h) := by
  intro p w
  simp only [converse, Dialogue.run_bind, Dialogue.run_isCancelled]
  cases hc : w.cancelled with
  | true =>
    obtain ⟨es, hlog, hq⟩ := closeEarly_follows s.readTimeout h (.cancelled .banner) p w
    rw [hc] at hq
    exact ⟨es, hlog, .cancelled hq⟩
  | false =>
    obtain ⟨es, hlog, hr⟩ := hear_follows .banner s.readTimeout p w
    rw [hc] at hr
    simp only [Dialogue.run_bind]
    generalize (hear .banner s.readTimeout).run p w = heard at hlog hr
    obtain ⟨out, w'⟩ := heard
    cases out with
    | error halt =>
      obtain ⟨es', hlog', h'⟩ := closeEarly_follows s.readTimeout h halt p w'
      exact ⟨es ++ es', by simp_all, .unheard hr h'⟩
    | ok r =>
      obtain ⟨es', hlog', h'⟩ :=
        tryRules_follows s (s.rulesFor h) { h with banner := some r } p w'
      exact ⟨es ++ es', by simp_all, .greeted hr h'⟩

/-- How the look-up of a name can go. -/
inductive Identifies (s : Settings) (h : HostRecord) :
    Bool → List Entry → HostRecord → Bool → Prop where
  | unasked {c} (hs : s.resolveHostnames = false) : Identifies s h c [] h c
  | named {c name c'} (hs : s.resolveHostnames = true) (hc : c = true → c' = true) :
      Identifies s h c [⟨.lookedUp h.address (.named name), c'⟩]
        { h with hostname := some name, resolved := true } c'
  | unnamed {c found c'} (hs : s.resolveHostnames = true) (hc : c = true → c' = true)
      (hfound : ∀ name, found ≠ .named name) :
      Identifies s h c [⟨.lookedUp h.address found, c'⟩] h c'

theorem identify_follows (s : Settings) (h : HostRecord) :
    (identify s h).Follows (Identifies s h) := by
  intro p w
  simp only [identify, Dialogue.run_ite, Dialogue.run_pure]
  by_cases hs : s.resolveHostnames = true
  · rw [if_pos hs]
    obtain ⟨es, hlog, rfl, hc⟩ := lookUpName_follows h.address p w
    simp only [resolve, Dialogue.run_bind]
    generalize (Dialogue.lookUpName h.address).run p w = found at hlog hc
    obtain ⟨out, w'⟩ := found
    cases out with
    | named name => exact ⟨_, hlog, .named hs hc⟩
    | unnamed => exact ⟨_, hlog, .unnamed hs hc (by simp)⟩
    | failed => exact ⟨_, hlog, .unnamed hs hc (by simp)⟩
  · rw [if_neg hs]
    exact ⟨[], by simp, .unasked (by simpa using hs)⟩

/-- How a check can go. -/
inductive Checks (s : Settings) (index : Nat) (address : Address) :
    Bool → List Entry → HostRecord → Bool → Prop where
  | skipped : Checks s index address true [] { index, address, cancelled := true } true
  | unreachable {es h c e c'} : Identifies s { index, address } false es h c →
      (c = true → c' = true) →
      Checks s index address false
        (es ++ [⟨.connected h.address s.port s.connectTimeout s.readTimeout (.error e), c'⟩])
        { h with error := some (Stage.connect.label ++ ": " ++ e) } c'
  | reached {es h c c' es' h' c''} : Identifies s { index, address } false es h c →
      (c = true → c' = true) → Converses s { h with smtpOpen := true } c' es' h' c'' →
      Checks s index address false
        (es ++ ⟨.connected h.address s.port s.connectTimeout s.readTimeout (.ok ()), c'⟩ :: es')
        h' c''

/-- **A check goes in one of the ways of `Checks`**, whatever the peer does. -/
theorem checkHost_follows (s : Settings) (index : Nat) (address : Address) :
    (checkHost s index address).Follows (Checks s index address) := by
  intro p w
  simp only [checkHost, Dialogue.run_bind, Dialogue.run_isCancelled]
  cases hc : w.cancelled with
  | true =>
    refine ⟨[], by simp, ?_⟩
    simp only [Dialogue.run_pure, hc]
    exact .skipped
  | false =>
    obtain ⟨es, hlog, hi⟩ := identify_follows s { index, address } p w
    rw [hc] at hi
    simp only [contact, Dialogue.run_bind]
    generalize (identify s { index, address }).run p w = identified at hlog hi
    obtain ⟨h, w'⟩ := identified
    obtain ⟨es', hlog', rfl, hc'⟩ :=
      connectTo_follows h.address s.port s.connectTimeout s.readTimeout p w'
    generalize (Dialogue.connectTo h.address s.port s.connectTimeout s.readTimeout).run p w' =
      connected at hlog' hc'
    obtain ⟨out, w''⟩ := connected
    cases out with
    | error e => exact ⟨_, by simp_all, .unreachable hi hc'⟩
    | ok u =>
      obtain ⟨es', hlog'', h'⟩ := converse_follows s { h with smtpOpen := true } p w''
      exact ⟨_, by simp_all, .reached hi hc' h'⟩

/-! ## Runs -/

/-- The record of a check against a peer; `cancelled` says whether the scan was cancelled before. -/
def Settings.recordOf (s : Settings) (p : Peer) (index : Nat) (address : Address)
    (cancelled : Bool) : HostRecord :=
  ((checkHost s index address).run p { cancelled }).1

/-- The log of a check against a peer. -/
def Settings.logOf (s : Settings) (p : Peer) (index : Nat) (address : Address)
    (cancelled : Bool) : List Entry :=
  ((checkHost s index address).run p { cancelled }).2.log

theorem Settings.checks (s : Settings) (p : Peer) (index : Nat) (address : Address)
    (cancelled : Bool) : ∃ c', Checks s index address cancelled
      (s.logOf p index address cancelled) (s.recordOf p index address cancelled) c' := by
  obtain ⟨es, hlog, h⟩ := checkHost_follows s index address p { cancelled }
  rw [List.nil_append] at hlog
  rw [← hlog] at h
  exact ⟨_, h⟩

end OpenRelay
