import Mathlib.Data.List.Chain
import OpenRelay.Conversation.Deadline
import OpenRelay.Proofs.Conversation.Round

/-!
# The deadline of a host is exact

Each call of a check has a time budget. However a check goes, its calls together have no more time
than the deadline of the host; and where every call succeeds and every command is accepted, they
have exactly that much. So no shorter deadline would do.

* `Settings.timeOf`: the time that the calls of a log have.
* `Checks.timeOf_le`: no check has more than `Settings.hostTime`.
* `Checks.timeOf_smooth`: a check without a setback has that much.
* `hostDeadline_exact`: `Settings.hostTime` is the deadline, and some peers lead to it.
-/

namespace OpenRelay

variable {s : Settings} {stage : Stage} {st : Step} {steps : List Step} {a : Attempt}
  {timeout : Duration} {c c' : Bool} {es es' : List Entry} {h h' : HostRecord}
  {index : Nat} {address : Address}

/-! ## Budgets -/

/-- The time that a call has, in nanoseconds. Names are looked up before the clock starts, and lines
are written within the time that the connection was opened with, which is that for a reply. -/
def Settings.budgetOf (s : Settings) : Event → Nat
  | .lookedUp .. => 0
  | .connected _ _ connectTimeout _ _ => connectTimeout.nanos
  | .sent .. => s.readTimeout.nanos
  | .heard timeout _ => timeout.nanos

/-- The time that the calls of a log have together. -/
def Settings.timeOf (s : Settings) : List Entry → Nat
  | [] => 0
  | e :: es => s.budgetOf e.event + s.timeOf es

@[simp] theorem timeOf_nil : s.timeOf [] = 0 := rfl

@[simp] theorem timeOf_cons (e : Entry) :
    s.timeOf (e :: es) = s.budgetOf e.event + s.timeOf es := rfl

@[simp] theorem timeOf_append : s.timeOf (es ++ es') = s.timeOf es + s.timeOf es' := by
  induction es with
  | nil => simp
  | cons e es ih => rw [List.cons_append, timeOf_cons, timeOf_cons, ih, Nat.add_assoc]

/-- The time of a step: each line is written, and one reply is read. -/
def Settings.stepTime (s : Settings) (st : Step) : Nat :=
  st.lines.length * s.readTimeout.nanos + st.timeout.nanos

/-- The time of steps one after the other. -/
def Settings.stepsTime (s : Settings) : List Step → Nat
  | [] => 0
  | st :: steps => s.stepTime st + s.stepsTime steps

/-- The time of one rule, its `RSET` included. -/
def Settings.ruleTime (s : Settings) : Nat :=
  8 * s.readTimeout.nanos +
    if s.sendData then (3 + messageLength) * s.readTimeout.nanos + s.mailTimeout.nanos else 0

/-- The time of a whole check. -/
def Settings.hostTime (s : Settings) : Nat :=
  s.connectTimeout.nanos + 3 * s.readTimeout.nanos + s.rules.length * s.ruleTime

@[simp] theorem stepsTime_cons :
    s.stepsTime (st :: steps) = s.stepTime st + s.stepsTime steps := rfl

/-- Every rule has the same time. -/
theorem stepsTime_stepsOf (s : Settings) (address : Address) (index : Nat) (rule : Rule) :
    s.stepsTime (s.stepsOf address index rule) + s.stepTime s.resetStep = s.ruleTime := by
  unfold Settings.stepsOf Settings.ruleTime
  split
  · simp only [Settings.stepsTime, Settings.stepTime, Step.lines, Settings.resetStep,
      List.cons_append, List.nil_append, List.length_cons, List.length_nil, List.length_append,
      List.length_map, length_messageLines, Nat.add_mul]
    omega
  · simp only [Settings.stepsTime, Settings.stepTime, Step.lines, Settings.resetStep,
      List.nil_append, List.append_nil, List.length_cons, List.length_nil]
    omega

/-! ## However it goes -/

theorem Transmits.timeOf_le {lines : List String} {out : Except Halt Unit}
    (ht : Transmits stage lines c es out c') :
    s.timeOf es ≤ lines.length * s.readTimeout.nanos := by
  induction ht with
  | done => simp
  | cancelled => simp
  | failed => simp [Settings.budgetOf, Nat.succ_mul]
  | sent _ ih =>
    simp only [timeOf_cons, Settings.budgetOf, List.length_cons, Nat.succ_mul]
    omega

theorem Hears.timeOf_eq {out : Except Halt Reply} (hr : Hears stage timeout c es out c') :
    s.timeOf es = timeout.nanos := by
  cases hr with
  | failed _ => simp [Settings.budgetOf]
  | answered _ => simp [Settings.budgetOf]

theorem Takes.timeOf_le {out : Except Halt Reply} (ht : Takes st c es out c') :
    s.timeOf es ≤ s.stepTime st := by
  cases ht with
  | unsent ht => exact Nat.le_add_right_of_le ht.timeOf_le
  | sent ht hr =>
    rw [timeOf_append, hr.timeOf_eq]
    exact Nat.add_le_add_right ht.timeOf_le _

theorem Pursues.timeOf_le {out : Attempt × Option Halt} (hp : Pursues steps a c es out c') :
    s.timeOf es ≤ s.stepsTime steps := by
  induction hp with
  | through => simp
  | halted ht => exact stepsTime_cons ▸ Nat.le_add_right_of_le ht.timeOf_le
  | refused ht _ => exact stepsTime_cons ▸ Nat.le_add_right_of_le ht.timeOf_le
  | accepted ht _ _ ih =>
    rw [timeOf_append, stepsTime_cons]
    exact Nat.add_le_add ht.timeOf_le ih

theorem Tries.timeOf_le {rule : Rule} {out : Attempt × Option Halt}
    (ht : Tries (s.stepsOf address index rule) s.resetStep a c es out c') :
    s.timeOf es ≤ s.ruleTime := by
  rw [← stepsTime_stepsOf s address index rule]
  cases ht with
  | halted hp => exact Nat.le_add_right_of_le hp.timeOf_le
  | unreset hp ht =>
    rw [timeOf_append]
    exact Nat.add_le_add hp.timeOf_le ht.timeOf_le
  | reset hp ht =>
    rw [timeOf_append]
    exact Nat.add_le_add hp.timeOf_le ht.timeOf_le

theorem Quits.timeOf_le {quit : Option Reply} (hq : Quits s.readTimeout c es quit c') :
    s.timeOf es ≤ 2 * s.readTimeout.nanos := by
  cases hq with
  | unsent _ => simp [Settings.budgetOf]; omega
  | unanswered _ _ => simp [Settings.budgetOf]; omega
  | answered _ _ => simp [Settings.budgetOf]; omega

theorem Closes.timeOf_le {halt : Halt} (hq : Closes s.readTimeout h halt c es h' c') :
    s.timeOf es ≤ 2 * s.readTimeout.nanos := by
  cases hq with
  | silently _ => simp
  | politely _ _ hq => exact hq.timeOf_le
  | broken => simp

theorem TriesAll.timeOf_le {rules : List (Rule × Nat)} (ht : TriesAll s rules h c es h' c') :
    s.timeOf es ≤ rules.length * s.ruleTime + 2 * s.readTimeout.nanos := by
  induction ht with
  | finished hq => exact Nat.le_add_left_of_le hq.timeOf_le
  | cancelled hq => exact Nat.le_add_left_of_le hq.timeOf_le
  | halted ht hq =>
    have htry := ht.timeOf_le
    have hclose := hq.timeOf_le
    rw [timeOf_append, List.length_cons, Nat.succ_mul]
    omega
  | next ht _ ih =>
    have htry := ht.timeOf_le
    rw [timeOf_append, List.length_cons, Nat.succ_mul]
    omega

theorem length_rulesFor (s : Settings) (h : HostRecord) :
    (s.rulesFor h).length = s.rules.length := by
  simp [Settings.rulesFor]

theorem Converses.timeOf_le (hc : Converses s h c es h' c') :
    s.timeOf es ≤ 3 * s.readTimeout.nanos + s.rules.length * s.ruleTime := by
  cases hc with
  | cancelled hq =>
    have hclose := hq.timeOf_le
    omega
  | unheard hr hq =>
    have hclose := hq.timeOf_le
    rw [timeOf_append, hr.timeOf_eq]
    omega
  | greeted hr ht =>
    have hrules := ht.timeOf_le
    rw [length_rulesFor] at hrules
    rw [timeOf_append, hr.timeOf_eq]
    omega

theorem Identifies.timeOf_eq (hi : Identifies s h c es h' c') : s.timeOf es = 0 := by
  cases hi with
  | unasked _ => rfl
  | named _ _ => rfl
  | unnamed _ _ _ => rfl

/-- **No check has more time**, whatever the peer does and whenever it cancels the scan. -/
theorem Checks.timeOf_le (hc : Checks s index address c es h c') : s.timeOf es ≤ s.hostTime := by
  unfold Settings.hostTime
  cases hc with
  | skipped => simp
  | unreachable hi _ =>
    simp only [timeOf_append, hi.timeOf_eq, timeOf_cons, timeOf_nil, Settings.budgetOf]
    omega
  | reached hi _ hconv =>
    have hrest := hconv.timeOf_le
    simp only [timeOf_append, hi.timeOf_eq, timeOf_cons, Settings.budgetOf]
    omega

/-! ## Without a setback -/

/-- Whether a call did what it was made for. A host may have no name. -/
def Event.succeeds : Event → Bool
  | .lookedUp .. => true
  | .connected _ _ _ _ result => result.isOk
  | .sent _ result => result.isOk
  | .heard _ result => result.isOk

/-- If the second entry is the reply to the command of the first, its stage accepts it. -/
def Entry.AcceptedBy (e e' : Entry) : Prop :=
  ∀ stage ∈ e.command?, ∀ r ∈ e'.reply?, stage.accepts r = true

/-- A log without a setback: the scan goes on, all calls succeed, and the reply to each command is
one that its stage accepts. -/
structure Smooth (es : List Entry) : Prop where
  calls : ∀ e ∈ es, e.cancelled = false ∧ e.event.succeeds = true
  replies : es.IsChain Entry.AcceptedBy

theorem Smooth.left (hs : Smooth (es ++ es')) : Smooth es :=
  ⟨fun e he => hs.calls e (List.mem_append_left _ he), (List.isChain_append.1 hs.replies).1⟩

theorem Smooth.right (hs : Smooth (es ++ es')) : Smooth es' :=
  ⟨fun e he => hs.calls e (List.mem_append_right _ he), (List.isChain_append.1 hs.replies).2.1⟩

theorem Smooth.tail {e : Entry} (hs : Smooth (e :: es)) : Smooth es := by
  rw [← List.singleton_append] at hs
  exact hs.right

theorem Smooth.concat {e : Entry} (hs : Smooth es) (hcancelled : e.cancelled = false)
    (hsucceeds : e.event.succeeds = true) (hreply : ∀ last ∈ es.getLast?, last.AcceptedBy e) :
    Smooth (es ++ [e]) := by
  refine ⟨List.forall_mem_append.2 ⟨hs.calls, by simp [hcancelled, hsucceeds]⟩, ?_⟩
  exact List.isChain_append.2 ⟨hs.replies, by simp, by simpa using hreply⟩

theorem Transmits.timeOf_smooth {lines : List String} {out : Except Halt Unit}
    (ht : Transmits stage lines c es out c') (hc : c = false) (hs : Smooth es) :
    out = .ok () ∧ c' = false ∧ s.timeOf es = lines.length * s.readTimeout.nanos := by
  induction ht with
  | done => exact ⟨rfl, hc, by simp⟩
  | cancelled => cases hc
  | failed => cases (hs.calls _ List.mem_cons_self).2
  | @sent line rest c es out c' _ ih =>
    obtain ⟨hout, hc', htime⟩ := ih (hs.calls _ List.mem_cons_self).1 hs.tail
    refine ⟨hout, hc', ?_⟩
    simp only [timeOf_cons, htime, Settings.budgetOf, List.length_cons, Nat.succ_mul]
    omega

theorem Takes.timeOf_smooth {out : Except Halt Reply} (ht : Takes st false es out c')
    (hs : Smooth es) (hcommand : Stage.ofLine? st.command = some st.stage) :
    ∃ r, out = .ok r ∧ st.stage.accepts r = true ∧ c' = false ∧ s.timeOf es = s.stepTime st := by
  cases ht with
  | unsent ht => cases (ht.timeOf_smooth (s := s) rfl hs).1
  | sent ht hr =>
    obtain ⟨-, -, htime⟩ := ht.timeOf_smooth (s := s) rfl hs.left
    obtain ⟨-, rfl⟩ := ht.eq_of_ok
    have hheard := hr.timeOf_eq (s := s)
    cases hr with
    | failed _ => cases (hs.right.calls _ List.mem_cons_self).2
    | answered _ =>
      refine ⟨_, rfl, ?_, (hs.right.calls _ List.mem_cons_self).1, ?_⟩
      · rw [List.append_assoc] at hs
        exact (List.isChain_cons_cons.1 hs.right.replies).1 _ hcommand _ rfl
      · rw [timeOf_append, htime, hheard]
        rfl

theorem Pursues.timeOf_smooth {out : Attempt × Option Halt} (hp : Pursues steps a c es out c')
    (hc : c = false) (hs : Smooth es)
    (hcommands : ∀ st ∈ steps, Stage.ofLine? st.command = some st.stage) :
    out.2 = none ∧ c' = false ∧ s.timeOf es = s.stepsTime steps := by
  induction hp with
  | through => exact ⟨rfl, hc, rfl⟩
  | halted ht =>
    subst hc
    obtain ⟨r, hr, -⟩ := ht.timeOf_smooth (s := s) hs (hcommands _ List.mem_cons_self)
    cases hr
  | refused ht hr =>
    subst hc
    obtain ⟨r, hout, hacc, -⟩ := ht.timeOf_smooth (s := s) hs (hcommands _ List.mem_cons_self)
    cases hout
    exact absurd hacc (by simp [hr])
  | accepted ht _ _ ih =>
    subst hc
    obtain ⟨hcommand, hcommands⟩ := List.forall_mem_cons.1 hcommands
    obtain ⟨-, -, -, hc, htime⟩ := ht.timeOf_smooth (s := s) hs.left hcommand
    obtain ⟨hout, hc', hrest⟩ := ih hc hs.right hcommands
    exact ⟨hout, hc', by rw [timeOf_append, htime, hrest, stepsTime_cons]⟩

theorem Tries.timeOf_smooth {rule : Rule} {out : Attempt × Option Halt}
    (ht : Tries (s.stepsOf address index rule) s.resetStep a false es out c') (hs : Smooth es) :
    out.2 = none ∧ c' = false ∧ s.timeOf es = s.ruleTime := by
  rw [← stepsTime_stepsOf s address index rule]
  cases ht with
  | halted hp =>
    obtain ⟨hout, -⟩ := hp.timeOf_smooth (s := s) rfl hs fun _ => ofLine?_command
    cases hout
  | unreset hp ht =>
    obtain ⟨-, rfl, -⟩ := hp.timeOf_smooth (s := s) rfl hs.left fun _ => ofLine?_command
    obtain ⟨r, hr, -⟩ := ht.timeOf_smooth (s := s) hs.right ofLine?_rset
    cases hr
  | reset hp ht =>
    obtain ⟨-, rfl, htime⟩ := hp.timeOf_smooth (s := s) rfl hs.left fun _ => ofLine?_command
    obtain ⟨r, -, -, hc, hreset⟩ := ht.timeOf_smooth (s := s) hs.right ofLine?_rset
    exact ⟨rfl, hc, by rw [timeOf_append, htime, hreset]⟩

theorem Quits.timeOf_smooth {quit : Option Reply} (hq : Quits s.readTimeout c es quit c')
    (hs : Smooth es) : s.timeOf es = 2 * s.readTimeout.nanos := by
  cases hq with
  | unsent _ => cases (hs.calls _ List.mem_cons_self).2
  | unanswered _ _ => simp [Settings.budgetOf]; omega
  | answered _ _ => simp [Settings.budgetOf]; omega

theorem TriesAll.timeOf_smooth {rules : List (Rule × Nat)} (ht : TriesAll s rules h c es h' c')
    (hc : c = false) (hs : Smooth es) :
    s.timeOf es = rules.length * s.ruleTime + 2 * s.readTimeout.nanos := by
  induction ht with
  | finished hq => rw [hq.timeOf_smooth hs, List.length_nil, Nat.zero_mul, Nat.zero_add]
  | cancelled _ => cases hc
  | halted ht _ => cases (ht.timeOf_smooth hs.left).1
  | next ht _ ih =>
    obtain ⟨-, hc, htime⟩ := ht.timeOf_smooth hs.left
    simp only [timeOf_append, htime, ih hc hs.right, List.length_cons, Nat.add_one_mul]
    omega

theorem Converses.timeOf_smooth (hconv : Converses s h false es h' c') (hs : Smooth es) :
    s.timeOf es = 3 * s.readTimeout.nanos + s.rules.length * s.ruleTime := by
  cases hconv with
  | unheard hr _ =>
    cases hr with
    | failed _ => cases (hs.calls _ List.mem_cons_self).2
  | greeted hr ht =>
    have hheard := hr.timeOf_eq (s := s)
    cases hr with
    | answered _ =>
      have hrules := ht.timeOf_smooth (hs.calls _ List.mem_cons_self).1 hs.right
      rw [timeOf_append, hheard, hrules, length_rulesFor]
      omega

/-- **A check without a setback has all the time.** -/
theorem Checks.timeOf_smooth (hc : Checks s index address false es h c') (hs : Smooth es) :
    s.timeOf es = s.hostTime := by
  unfold Settings.hostTime
  cases hc with
  | unreachable hi _ => cases (hs.right.calls _ List.mem_cons_self).2
  | reached hi _ hconv =>
    obtain rfl := (hs.right.calls _ List.mem_cons_self).1
    have hrest := hconv.timeOf_smooth hs.right.tail
    simp only [timeOf_append, hi.timeOf_eq, timeOf_cons, Settings.budgetOf, hrest]
    omega

/-! ## Peers without a setback -/

/-- A peer with which all goes well: it connects, takes every line, and accepts every command. -/
structure Peer.Accepts (p : Peer) : Prop where
  calm : ∀ log, (p.lookUp log).cancels = false
  connects : ∀ log, p.connect log = { value := .ok () }
  listens : ∀ log line, p.send log line = { value := .ok () }
  replies : ∀ log timeout, ∃ r, p.read log timeout = { value := .ok r } ∧
    ∀ last ∈ log.getLast?, ∀ stage ∈ last.command?, stage.accepts r = true

theorem Peer.Accepts.smooth_run {α : Type} {p : Peer} (hp : p.Accepts) (d : Dialogue α) {w : World}
    (hw : w.cancelled = false) (hs : Smooth w.log) : Smooth (d.run p w).2.log := by
  induction d generalizing w with
  | done a => exact hs
  | poll next ih => exact ih _ hw hs
  | lookUp x next ih =>
    refine ih _ (by simp [World.after, hw, hp.calm]) ?_
    exact hs.concat (by simp [hw, hp.calm]) rfl fun last _ stage _ r hr => by cases hr
  | connect x port t t' next ih =>
    refine ih _ (by simp [World.after, hw, hp.connects]) ?_
    exact hs.concat (by simp [hw, hp.connects]) (by simp [hp.connects, Event.succeeds]; rfl)
      fun last _ stage _ r hr => by cases hr
  | send line next ih =>
    refine ih _ (by simp [World.after, hw, hp.listens]) ?_
    exact hs.concat (by simp [hw, hp.listens]) (by simp [hp.listens, Event.succeeds]; rfl)
      fun last _ stage _ r hr => by cases hr
  | read t next ih =>
    obtain ⟨r, hread, hacc⟩ := hp.replies w.log t
    refine ih _ (by simp [World.after, hw, hread]) ?_
    refine hs.concat (by simp [hw, hread]) (by simp [hread, Event.succeeds]; rfl) ?_
    intro last hlast stage hstage r' hr'
    simp only [hread, Entry.reply?, Option.mem_def, Option.some.injEq] at hr'
    exact hr' ▸ hacc last hlast stage hstage

/-! ## The deadline -/

theorem Duration.nanos_of_check? {n : Nat} {d : Duration} (h : Duration.check? n = some d) :
    d.nanos = n := by
  unfold Duration.check? at h
  split at h
  · cases h; rfl
  · cases h

theorem nanos_ruleDeadline {rule : Duration} (h : s.ruleDeadline? = some rule) :
    rule.nanos = s.ruleTime := by
  unfold Settings.ruleDeadline? at h
  unfold Settings.ruleTime
  obtain ⟨envelope, henvelope, h⟩ := Option.bind_eq_some_iff.1 h
  have he := Duration.nanos_of_check? henvelope
  split at h
  · rename_i hdata
    obtain ⟨writes, hwrites, h⟩ := Option.bind_eq_some_iff.1 h
    obtain ⟨started, hstarted, h⟩ := Option.bind_eq_some_iff.1 h
    obtain ⟨message, hmessage, h⟩ := Option.bind_eq_some_iff.1 h
    rw [Duration.nanos_of_check? h, Duration.nanos_of_check? hmessage,
      Duration.nanos_of_check? hstarted, Duration.nanos_of_check? hwrites, he, if_pos hdata]
    simp only [Nat.add_mul, Nat.mul_add, messageLength]
    omega
  · rename_i hdata
    cases h
    rw [he, if_neg hdata]
    omega

/-- The deadline is the time of a check, if nothing is cut off. -/
theorem nanos_hostDeadline {d : Duration} (hd : s.hostDeadline? = some d)
    (hrules : s.rules.length ≤ Settings.maxFactor)
    (hfits : ∀ rule ∈ s.ruleDeadline?, rule.nanos * s.rules.length ≤ Duration.longest.nanos) :
    d.nanos = s.hostTime := by
  unfold Settings.hostDeadline? at hd
  obtain ⟨rule, hrule, hd⟩ := Option.bind_eq_some_iff.1 hd
  obtain ⟨edges, hedges, hd⟩ := Option.bind_eq_some_iff.1 hd
  obtain ⟨around, haround, hd⟩ := Option.bind_eq_some_iff.1 hd
  have hcut := hfits rule hrule
  rw [nanos_ruleDeadline hrule] at hcut
  unfold Settings.hostTime
  rw [Duration.nanos_of_check? hd, Duration.nanos_of_check? haround,
    Duration.nanos_of_check? hedges, Duration.scaleSaturating, Nat.min_eq_left hrules,
    nanos_ruleDeadline hrule, Nat.min_eq_left hcut]
  rw [Nat.mul_comm s.ruleTime, Nat.mul_comm s.readTimeout.nanos]

/-- A peer that accepts everything. -/
def Peer.yielding : Peer where
  lookUp _ := { value := .unnamed }
  connect _ := { value := .ok () }
  send _ _ := { value := .ok () }
  read log _ :=
    let code := if (log.getLast?.bind Entry.command?) = some .dataStart then 354 else 250
    { value := .ok { code, text := "" } }

theorem Peer.yielding_accepts : Peer.yielding.Accepts where
  calm _ := rfl
  connects _ := rfl
  listens _ _ := rfl
  replies log timeout := by
    refine ⟨_, rfl, fun last hlast stage hstage => ?_⟩
    rw [Option.mem_def.1 hlast, Option.bind_some, Option.mem_def.1 hstage]
    cases stage <;> rfl

/-- **The deadline of a host is exact**, when it can be computed and is not cut off. No check has
more time for its calls, whatever the peer does and whenever it cancels the scan; and with a peer
that accepts everything a check has exactly that much. -/
theorem hostDeadline_exact {d : Duration} (hrules : s.rules.length ≤ Settings.maxFactor)
    (hd : s.hostDeadline? = some d)
    (hfits : ∀ rule ∈ s.ruleDeadline?, rule.nanos * s.rules.length ≤ Duration.longest.nanos) :
    (∀ p index address cancelled, s.timeOf (s.logOf p index address cancelled) ≤ d.nanos) ∧
      (∀ p : Peer, p.Accepts → ∀ index address,
        s.timeOf (s.logOf p index address false) = d.nanos) ∧
      ∃ p : Peer, p.Accepts := by
  rw [nanos_hostDeadline hd hrules hfits]
  refine ⟨fun p index address cancelled => ?_, fun p hp index address => ?_, _,
    Peer.yielding_accepts⟩
  · obtain ⟨c', hc⟩ := s.checks p index address cancelled
    exact hc.timeOf_le
  · obtain ⟨c', hc⟩ := s.checks p index address false
    exact hc.timeOf_smooth (hp.smooth_run _ rfl ⟨by simp, List.isChain_nil⟩)

/-- One rule with a message, against a peer that accepts everything: a second to connect, three
times two for the banner and `QUIT`, eight times two for the commands and their replies, ten for
`DATA`, the message and its end, and the replies to them. -/
theorem hostDeadline_of_message :
    let s : Settings :=
      { rules := [{ helo := "probe.example", mailFrom := "a@probe.example",
                    rcptTo := "b@probe.example" }],
        connectTimeout := .ofSeconds 1, readTimeout := .ofSeconds 2, mailTimeout := .ofSeconds 5,
        sendData := true }
    s.hostDeadline? = some (.ofSeconds (1 + 6 + 16 + 20 + 2 + 5)) ∧
      s.timeOf (s.logOf Peer.yielding 0 ⟨192, 0, 2, 1⟩ false) =
        (Duration.ofSeconds (1 + 6 + 16 + 20 + 2 + 5)).nanos := by
  intro s
  have hd : s.hostDeadline? = some (.ofSeconds (1 + 6 + 16 + 20 + 2 + 5)) := by decide
  exact ⟨hd, (hostDeadline_exact (by decide) hd (by decide)).2.1 _ Peer.yielding_accepts _ _⟩

end OpenRelay
