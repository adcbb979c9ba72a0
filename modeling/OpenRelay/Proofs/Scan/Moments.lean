import OpenRelay.Proofs.Conversation.Failures
import OpenRelay.Proofs.Scan.Interrupted
import OpenRelay.Proofs.Scan.Secure

/-!
# Cancellation at any moment

In a run against a peer the scan is cancelled during calls. An interruption from elsewhere can also
come between two steps of a check, where no call is under way. Nobody can tell whether it came there
or within the call next to it, unless the check asks twice with no call in between: then the first
question may be answered with no, and the second with yes. A check does so in one place, before each
rule and again before its `HELO`.

* `Dialogue.runCancelled`: a run that is cancelled after some steps.
* `Dialogue.Spaced`: dialogues that call on the outside after each question answered with no, but for
  questions of a given kind.
* `Dialogue.Spaced.noticed`: what such a dialogue can notice of the moment.
* `HostRecord.CutLate`: the one difference that it makes to a record.
* `cancelled_at_any_moment`: what a check does when it is cancelled at any moment, it does when it is
  cancelled during a call or before it begins, but for that difference.
* `accountable_at_any_moment`, `stands_at_any_moment`, `refused_at_any_moment`: what that says about
  records.
-/

namespace OpenRelay

/-! ## Runs that are cancelled between two steps -/

/-- Runs a dialogue against a peer, and cancels the scan after so many steps. A call is a step, and so
is a question whether the scan is cancelled. -/
def Dialogue.runCancelled {α : Type} (p : Peer) : Nat → Dialogue α → World → α × World
  | 0, d, w => d.run p { w with cancelled := true }
  | _ + 1, .done a, w => (a, w)
  | n + 1, .poll next, w => (next w.cancelled).runCancelled p n w
  | n + 1, .lookUp x next, w =>
    let a := p.lookUp w.log
    (next a.value).runCancelled p n (w.after (.lookedUp x a.value) a.cancels)
  | n + 1, .connect x port c t next, w =>
    let a := p.connect w.log
    (next a.value).runCancelled p n (w.after (.connected x port c t a.value) a.cancels)
  | n + 1, .send line next, w =>
    let a := p.send w.log line
    (next a.value).runCancelled p n (w.after (.sent line a.value) a.cancels)
  | n + 1, .read t next, w =>
    let a := p.read w.log t
    (next a.value).runCancelled p n (w.after (.heard t a.value) a.cancels)

/-- An answer that may cancel the scan besides. -/
def Answer.cancelling {α : Type} (a : Answer α) (now : Bool) : Answer α :=
  { a with cancels := a.cancels || now }

@[simp] theorem Answer.cancelling_false {α : Type} (a : Answer α) : a.cancelling false = a := by
  simp [cancelling]

theorem Answer.disturbs_cancelling {α : Type} (a : Answer α) (now : Bool) :
    (a.cancelling now).Disturbs a :=
  ⟨rfl, fun h => by simp [cancelling, h]⟩

/-- A peer that also cancels the scan during a call, which is given by its number from zero. -/
def Peer.cancelling (p : Peer) (k : Nat) : Peer where
  lookUp log := (p.lookUp log).cancelling (log.length = k)
  connect log := (p.connect log).cancelling (log.length = k)
  send log line := (p.send log line).cancelling (log.length = k)
  read log timeout := (p.read log timeout).cancelling (log.length = k)

theorem Peer.disturbs_cancelling (p : Peer) (k : Nat) : (p.cancelling k).Disturbs p :=
  ⟨fun _ => Answer.disturbs_cancelling _ _, fun _ => Answer.disturbs_cancelling _ _,
    fun _ _ => Answer.disturbs_cancelling _ _, fun _ _ => Answer.disturbs_cancelling _ _⟩

namespace Dialogue

variable {α β : Type} {R : α → α → Prop} {p : Peer} {d : Dialogue α} {w w' : World} {k n : Nat}

/-! ## Dialogues that open with a call -/

/-- Whether a dialogue opens with a call. -/
def isCall : Dialogue α → Bool
  | done _ | poll _ => false
  | _ => true

/-- How a dialogue goes on that opens with a call, whichever call it is. -/
structure Opens (d : Dialogue α) (ask : Peer → List Entry → Answer β) (event : β → Event)
    (next : β → Dialogue α) : Prop where
  isCall : d.isCall = true
  run : ∀ p w, d.run p w = (next (ask p w.log).value).run p
    (w.after (event (ask p w.log).value) (ask p w.log).cancels)
  runCancelled : ∀ p n w, d.runCancelled p (n + 1) w = (next (ask p w.log).value).runCancelled p n
    (w.after (event (ask p w.log).value) (ask p w.log).cancels)
  cancelling : ∀ p k log, ask (p.cancelling k) log = (ask p log).cancelling (log.length = k)
  oblivious : ∀ {p : Peer}, p.Oblivious → ∀ {log log'}, eventsOf log = eventsOf log' →
    (ask p log).value = (ask p log').value

theorem opens_lookUp (x : Address) (next : Lookup → Dialogue α) :
    (lookUp x next).Opens (fun p => p.lookUp) (.lookedUp x) next :=
  ⟨rfl, fun _ _ => rfl, fun _ _ _ => rfl, fun _ _ _ => rfl, fun hp => hp.lookUp⟩

theorem opens_connect (x : Address) (port : Nat) (c t : Duration)
    (next : Except String Unit → Dialogue α) :
    (connect x port c t next).Opens (fun p => p.connect) (.connected x port c t) next :=
  ⟨rfl, fun _ _ => rfl, fun _ _ _ => rfl, fun _ _ _ => rfl, fun hp => hp.connect⟩

theorem opens_send (line : String) (next : Except String Unit → Dialogue α) :
    (send line next).Opens (fun p log => p.send log line) (.sent line) next :=
  ⟨rfl, fun _ _ => rfl, fun _ _ _ => rfl, fun _ _ _ => rfl, fun hp => hp.send line⟩

theorem opens_read (t : Duration) (next : Except String Reply → Dialogue α) :
    (read t next).Opens (fun p log => p.read log t) (.heard t) next :=
  ⟨rfl, fun _ _ => rfl, fun _ _ _ => rfl, fun _ _ _ => rfl, fun hp => hp.read t⟩

/-- The four calls are one case of an induction. -/
theorem opens_induction {P : Dialogue α → Prop} (hdone : ∀ a, P (done a))
    (hpoll : ∀ next : Bool → Dialogue α, (∀ b, P (next b)) → P (poll next))
    (hcall : ∀ {β : Type} {d : Dialogue α} {ask : Peer → List Entry → Answer β} {event : β → Event}
      {next : β → Dialogue α}, d.Opens ask event next → (∀ r, P (next r)) → P d) :
    ∀ d, P d := by
  intro d
  induction d with
  | done a => exact hdone a
  | poll next ih => exact hpoll next ih
  | lookUp x next ih => exact hcall (opens_lookUp x next) ih
  | connect x port c t next ih => exact hcall (opens_connect x port c t next) ih
  | send line next ih => exact hcall (opens_send line next) ih
  | read t next ih => exact hcall (opens_read t next) ih

/-- A call counts as one of the calls made, whatever it says. -/
theorem length_after (w : World) (event : Event) (cancels : Bool) :
    (w.after event cancels).log.length = w.log.length + 1 := by
  simp [World.after]

/-- A call that was made is not cancelled any more. -/
theorem run_cancelling (hk : k < w.log.length) : d.run (p.cancelling k) w = d.run p w := by
  induction d using opens_induction generalizing w with
  | hdone a => rfl
  | hpoll next ih => exact ih _ hk
  | hcall hd ih =>
    have hcall := hd.cancelling p k w.log
    rw [decide_eq_false hk.ne', Answer.cancelling_false] at hcall
    rw [hd.run, hd.run, hcall]
    exact ih _ (by rw [length_after]; omega)

/-- A scan that was cancelled is not cancelled again. -/
theorem runCancelled_of_cancelled (hw : w.cancelled = true) : d.runCancelled p n w = d.run p w := by
  induction d using opens_induction generalizing n w with
  | hdone a => cases n <;> simp [runCancelled, run, ← hw]
  | hpoll next ih =>
    cases n with
    | zero => rw [runCancelled, ← hw]
    | succ n => exact ih _ hw
  | hcall hd ih =>
    cases n with
    | zero => rw [runCancelled, ← hw]
    | succ n =>
      rw [hd.run, hd.runCancelled]
      exact ih _ (by simp [World.after, hw])

/-- A cancellation after the last step comes too late: plain runs are among the others. -/
theorem exists_runCancelled_eq (p : Peer) (d : Dialogue α) (w : World) :
    ∃ n, d.runCancelled p n w = d.run p w := by
  induction d using opens_induction generalizing w with
  | hdone a => exact ⟨1, rfl⟩
  | hpoll next ih =>
    obtain ⟨n, hn⟩ := ih w.cancelled w
    exact ⟨n + 1, hn⟩
  | hcall hd ih =>
    obtain ⟨n, hn⟩ := ih _ _
    exact ⟨n + 1, by rw [hd.runCancelled, hd.run, hn]⟩

/-- Two runs that make the same calls. -/
structure Ran (R : α → α → Prop) (x y : α × World) : Prop where
  result : R x.1 y.1
  events : eventsOf x.2.log = eventsOf y.2.log
  cancelled : x.2.cancelled = y.2.cancelled

theorem Ran.refl (hR : ∀ a, R a a) (x : α × World) : Ran R x x := ⟨hR _, rfl, rfl⟩

theorem Ran.trans_eq {x y z : α × World} (h : Ran R x y) (h' : Ran Eq y z) : Ran R x z :=
  ⟨h'.result ▸ h.result, h.events.trans h'.events, h.cancelled.trans h'.cancelled⟩

/-- An oblivious peer cannot tell when the scan was cancelled. -/
theorem run_oblivious (hp : p.Oblivious) (hlog : eventsOf w.log = eventsOf w'.log)
    (hw : w.cancelled = true) (hw' : w'.cancelled = true) : Ran Eq (d.run p w) (d.run p w') := by
  induction d using opens_induction generalizing w w' with
  | hdone a => exact ⟨rfl, hlog, hw.trans hw'.symm⟩
  | hpoll next ih =>
    rw [run, run, hw, hw']
    exact ih _ hlog hw hw'
  | hcall hd ih =>
    rw [hd.run, hd.run, hd.oblivious hp hlog]
    exact ih _ (eventsOf_after hlog _ _ _) (by simp [World.after, hw]) (by simp [World.after, hw'])

/-! ## What a dialogue can notice -/

/-- Whether a dialogue opens with a question. -/
def isPoll : Dialogue α → Bool
  | poll _ => true
  | _ => false

/-- Whether a dialogue asks again at once if it is answered with no. -/
def asksTwice : Dialogue α → Bool
  | poll next => (next false).isPoll
  | _ => false

/-- A dialogue that makes a call after each question that is answered with no, or whose question is of
a given kind. -/
def Spaced (Q : (Bool → Dialogue α) → Prop) : Dialogue α → Prop
  | done _ => True
  | poll next => ((next false).isCall = true ∨ Q next) ∧ (next false).Spaced Q
  | lookUp _ next => ∀ r, (next r).Spaced Q
  | connect _ _ _ _ next => ∀ r, (next r).Spaced Q
  | send _ next => ∀ r, (next r).Spaced Q
  | read _ next => ∀ r, (next r).Spaced Q

/-- A question that is asked a second time and not a third time, so that it does not matter much
which of the two is answered with yes first. -/
def AsksAgain (R : α → α → Prop) (next : Bool → Dialogue α) : Prop :=
  ∃ next', next false = poll next' ∧ (next' false).isCall = true ∧
    ∀ p w, w.cancelled = true → Ran R ((next' true).run p w) ((next true).run p w)

/-- What can be noticed of a cancellation after so many steps. -/
inductive Noticed (R : α → α → Prop) (p : Peer) (n : Nat) (d : Dialogue α) (w : World) : Prop
  /-- It came too late. -/
  | never (h : d.runCancelled p n w = d.run p w)
  /-- It came as if within a call. -/
  | within (k : Nat) (hk : w.log.length ≤ k)
      (h : Ran R (d.runCancelled p n w) (d.run (p.cancelling k) w))
  /-- It came at once, before a question. -/
  | before (hn : n = 0) (hd : d.isCall = false)
  /-- It came between two questions, almost as if before the first. -/
  | between (hn : n = 1) (hd : d.asksTwice = true)
      (h : Ran R (d.runCancelled p n w) (d.run p { w with cancelled := true }))

theorem isCall_eq_false_of_asksTwice (h : d.asksTwice = true) : d.isCall = false := by
  cases d with
  | poll next => rfl
  | done | lookUp | connect | send | read => cases h

theorem isPoll_eq_false_of_isCall (h : d.isCall = true) : d.isPoll = false := by
  cases d with
  | done | poll => cases h
  | lookUp | connect | send | read => rfl

/-- A cancellation before a call, or right after it, is one within the call. -/
theorem Opens.noticed {d : Dialogue α} {ask : Peer → List Entry → Answer β} {event : β → Event}
    {next : β → Dialogue α} (hd : d.Opens ask event next) (hR : ∀ a, R a a) (hp : p.Oblivious)
    (hw : w.cancelled = false)
    (ih : ∀ r n {w}, w.cancelled = false → Noticed R p n (next r) w) : Noticed R p n d w := by
  -- a run that is cancelled within this call
  have hwithin : d.run (p.cancelling w.log.length) w = (next (ask p w.log).value).run p
      (w.after (event (ask p w.log).value) true) := by
    rw [hd.run, hd.cancelling, decide_eq_true rfl, run_cancelling (by rw [length_after]; omega)]
    simp [Answer.cancelling]
  -- a run that is cancelled before its end, and after the call
  have hafter : Ran Eq
      ((next (ask p w.log).value).run p
        { w.after (event (ask p w.log).value) (ask p w.log).cancels with cancelled := true })
      (d.run (p.cancelling w.log.length) w) := by
    rw [hwithin]
    exact run_oblivious hp (eventsOf_after rfl _ _ _) rfl (by simp [World.after])
  cases n with
  | zero =>
    refine .within w.log.length (le_refl _) ?_
    have hbefore : d.runCancelled p 0 w = d.run (p.cancelling w.log.length) w := by
      show d.run p { w with cancelled := true } = _
      rw [hwithin, hd.run]
      simp [World.after]
    rw [hbefore]
    exact .refl hR _
  | succ n =>
    cases hcancels : (ask p w.log).cancels with
    | true =>
      refine .never ?_
      rw [hd.runCancelled, hd.run]
      exact runCancelled_of_cancelled (by simp [World.after, hcancels])
    | false =>
      have hcalm : (w.after (event (ask p w.log).value) (ask p w.log).cancels).cancelled = false := by
        simp [World.after, hw, hcancels]
      cases ih (ask p w.log).value n hcalm with
      | never h => exact .never (by rw [hd.runCancelled, hd.run, h])
      | within k hk h =>
        rw [length_after] at hk
        refine .within k (by omega) ?_
        rw [hd.runCancelled, hd.run, hd.cancelling,
          decide_eq_false (show w.log.length ≠ k by omega), Answer.cancelling_false]
        exact h
      | before hn _ =>
        subst hn
        refine .within w.log.length (le_refl _) (.trans_eq ?_ hafter)
        rw [hd.runCancelled]
        exact .refl hR _
      | between _ _ h =>
        refine .within w.log.length (le_refl _) (.trans_eq ?_ hafter)
        rw [hd.runCancelled]
        exact h

/-- **What a dialogue can notice of the moment** at which it is cancelled, if it does not ask twice in
a row but where that does not matter much. -/
theorem Spaced.noticed (hd : d.Spaced (AsksAgain R)) (hR : ∀ a, R a a) (hp : p.Oblivious)
    (hw : w.cancelled = false) : Noticed R p n d w := by
  induction d generalizing n w with
  | done a =>
    cases n with
    | zero => exact .before rfl rfl
    | succ n => exact .never rfl
  | poll next ih =>
    cases n with
    | zero => exact .before rfl rfl
    | succ n =>
      have hlate : (poll next).runCancelled p (n + 1) w = (next false).runCancelled p n w := by
        rw [runCancelled, hw]
      have hrun (q : Peer) : (poll next).run q w = (next false).run q w := by rw [run, hw]
      obtain ⟨hask, hspaced⟩ := hd
      cases ih false hspaced (n := n) hw with
      | never h => exact .never (by rw [hlate, hrun, h])
      | within k hk h => exact .within k hk (by rw [hlate, hrun]; exact h)
      | before hn hnext =>
        -- no call comes between the question and the cancellation, so there is a second question
        obtain ⟨next', hagain, -, hran⟩ := hask.resolve_left (by rw [hnext]; exact Bool.false_ne_true)
        subst hn
        refine .between rfl (by rw [asksTwice, hagain]; rfl) ?_
        rw [hlate, hagain]
        exact hran p _ rfl
      | between hn htwice _ =>
        obtain ⟨next', hagain, hcall, -⟩ := hask.resolve_left (by
          rw [isCall_eq_false_of_asksTwice htwice]; exact Bool.false_ne_true)
        rw [hagain, asksTwice, isPoll_eq_false_of_isCall hcall] at htwice
        cases htwice
  | lookUp x next ih => exact (opens_lookUp x next).noticed hR hp hw fun r _ _ => ih r (hd r)
  | connect x port c t next ih =>
    exact (opens_connect x port c t next).noticed hR hp hw fun r _ _ => ih r (hd r)
  | send line next ih => exact (opens_send line next).noticed hR hp hw fun r _ _ => ih r (hd r)
  | read t next ih => exact (opens_read t next).noticed hR hp hw fun r _ _ => ih r (hd r)

/-! ## Dialogues that do not ask twice -/

variable {Q : (Bool → Dialogue α) → Prop}

/-- A dialogue that makes a call after each question that is answered with no. -/
abbrev Prompt (d : Dialogue α) : Prop := d.Spaced fun _ => False

theorem isCall_bind {k : α → Dialogue β} (h : d.isCall = true) : (d >>= k).isCall = true := by
  cases d with
  | done | poll => cases h
  | lookUp | connect | send | read => rfl

theorem Prompt.bind {Q : (Bool → Dialogue β) → Prop} {k : α → Dialogue β} (hd : d.Prompt)
    (hk : ∀ a, (k a).Spaced Q) : (d >>= k).Spaced Q := by
  show (d.bind k).Spaced Q
  induction d with
  | done a => exact hk a
  | poll next ih =>
    obtain ⟨hask, hspaced⟩ := hd
    exact ⟨.inl (isCall_bind (hask.resolve_right id)), ih false hspaced⟩
  | lookUp x next ih | connect x port c t next ih | send line next ih | read t next ih =>
    exact fun r => ih r (hd r)

theorem Prompt.spaced (hd : d.Prompt) : d.Spaced Q := by
  induction d with
  | done a => trivial
  | poll next ih => exact ⟨hd.1.imp_right False.elim, ih false hd.2⟩
  | lookUp x next ih | connect x port c t next ih | send line next ih | read t next ih =>
    exact fun r => ih r (hd r)

theorem Spaced.ask {k : Bool → Dialogue α} (hcall : (k false).isCall = true)
    (h : (k false).Spaced Q) : (isCancelled >>= k).Spaced Q :=
  ⟨.inl hcall, h⟩

end Dialogue

open Dialogue (AsksAgain Prompt Ran Spaced)

theorem prompt_transmit (stage : Stage) (lines : List String) : (transmit stage lines).Prompt := by
  induction lines with
  | nil => trivial
  | cons line rest ih =>
    refine Spaced.ask rfl fun out => ?_
    cases out with
    | error e => trivial
    | ok u => exact ih

theorem prompt_hear (stage : Stage) (t : Duration) : (hear stage t).Prompt := by
  intro out
  cases out <;> trivial

theorem prompt_take (st : Step) : st.take.Prompt := by
  refine (prompt_transmit _ _).bind fun out => ?_
  cases out with
  | error halt => trivial
  | ok u => exact prompt_hear _ _

theorem prompt_pursue (steps : List Step) : ∀ a, (pursue steps a).Prompt := by
  induction steps with
  | nil => exact fun _ => trivial
  | cons st rest ih =>
    intro a
    refine (prompt_take st).bind fun out => ?_
    cases out with
    | error halt => trivial
    | ok r =>
      dsimp only
      split
      · exact ih _
      · trivial

theorem prompt_tryRule (steps : List Step) (reset : Step) (a : Attempt) :
    (tryRule steps reset a).Prompt := by
  refine (prompt_pursue steps a).bind fun out => ?_
  obtain ⟨b, halt⟩ := out
  cases halt with
  | some halt => trivial
  | none =>
    refine (prompt_take reset).bind fun out => ?_
    cases out <;> trivial

theorem prompt_sayQuit (t : Duration) : (sayQuit t).Prompt := by
  intro out
  cases out with
  | error e => trivial
  | ok u =>
    intro out
    cases out <;> trivial

theorem prompt_closeEarly (t : Duration) (h : HostRecord) (halt : Halt) :
    (closeEarly t h halt).Prompt := by
  unfold closeEarly
  split
  · trivial
  · trivial
  · exact (prompt_sayQuit t).bind fun _ => trivial
  · trivial

/-! ## The check -/

/-- An attempt that was begun when the scan was cancelled, and for which nothing was said. -/
def Attempt.unsaid (rule : Rule) (index : Nat) (banner : Option Reply) : Attempt :=
  { ruleIndex := index, rule, banner, heloRequest := some rule.heloCommand
    failure := some (.cancelled .helo) }

/-- The record of a check that was cancelled between the two questions before a `HELO`, and that of the
same check cancelled before the first of them. -/
inductive HostRecord.CutLate (s : Settings) : HostRecord → HostRecord → Prop
  | same (h : HostRecord) : CutLate s h h
  /-- An attempt with the next rule is noted besides. -/
  | begun {h : HostRecord} {rule : Rule} {index : Nat} (hopen : h.smtpOpen = true)
      (hcancelled : h.cancelled = true)
      (hnext : (s.rulesFor h)[h.attempts.length]? = some (rule, index)) :
      CutLate s { h with attempts := h.attempts ++ [.unsaid rule index h.banner] } h

variable {s : Settings} {index : Nat} {address : Address} {p : Peer} {h h' : HostRecord}

theorem spaced_tryRules (rules : List (Rule × Nat)) : ∀ (done : List (Rule × Nat)) (h : HostRecord),
    s.rulesFor h = done ++ rules → h.attempts.length = done.length → h.smtpOpen = true →
      (tryRules s rules h).Spaced (AsksAgain (HostRecord.CutLate s)) := by
  induction rules with
  | nil => exact fun _ _ _ _ _ => (prompt_sayQuit _).bind fun _ => trivial
  | cons r rest ih =>
    obtain ⟨rule, index⟩ := r
    intro done h hrules hlength hopen
    refine ⟨.inr ⟨_, rfl, rfl, fun p w hw => ?_⟩, ?_⟩
    · -- either way the check takes its leave
      show Ran _
        ((closeEarly s.readTimeout
          { h with attempts := h.attempts ++ [.unsaid rule index h.banner] } (.cancelled .helo)).run p w)
        ((closeEarly s.readTimeout h (.cancelled .helo)).run p w)
      have hnext : (s.rulesFor h)[h.attempts.length]? = some (rule, index) := by
        rw [hrules, hlength, List.getElem?_append_right (le_refl _), Nat.sub_self]
        rfl
      simp only [closeEarly, Dialogue.run_bind, Dialogue.run_pure]
      exact ⟨.begun (h := { h with cancelled := true, quit := _ }) hopen rfl hnext, rfl, rfl⟩
    · refine (prompt_tryRule _ _ _).bind fun out => ?_
      obtain ⟨a, halt⟩ := out
      cases halt with
      | some halt => exact (prompt_closeEarly _ _ _).spaced
      | none =>
        refine ih (done ++ [(rule, index)]) _ ?_ ?_ hopen
        · rw [List.append_assoc]
          exact hrules
        · simp [hlength]

theorem spaced_converse (hnone : h.attempts = []) (hopen : h.smtpOpen = true) :
    (converse s h).Spaced (AsksAgain (HostRecord.CutLate s)) := by
  refine Spaced.ask rfl ((prompt_hear _ _).bind fun out => ?_)
  cases out with
  | error halt => exact (prompt_closeEarly _ _ _).spaced
  | ok r => exact spaced_tryRules _ [] _ rfl (congrArg List.length hnone) hopen

theorem spaced_contact (hnone : h.attempts = []) :
    (contact s h).Spaced (AsksAgain (HostRecord.CutLate s)) := by
  intro out
  cases out with
  | error e => trivial
  | ok u => exact spaced_converse hnone rfl

theorem spaced_checkHost (s : Settings) (index : Nat) (address : Address) :
    (checkHost s index address).Spaced (AsksAgain (HostRecord.CutLate s)) := by
  refine Spaced.ask ?_ ?_ <;> dsimp only <;> unfold identify
  · -- the first call is a look-up, or opens the connection
    split <;> rfl
  · split
    · intro found
      cases found <;> exact spaced_contact rfl
    · exact spaced_contact (h := { index, address }) rfl

/-- **A check can be cancelled at any moment.** Whichever steps it has taken, and whatever an oblivious
peer answers, it makes the calls of a check that is cancelled during a call, or before it begins,
and leaves the same record, or one with an attempt more for which nothing was said. -/
theorem cancelled_at_any_moment (hp : p.Oblivious) (s : Settings) (index : Nat) (address : Address)
    (n : Nat) (before : Bool) :
    ∃ q before', q.Disturbs p ∧ (before = true → before' = true) ∧
      Ran (HostRecord.CutLate s)
        ((checkHost s index address).runCancelled p n { cancelled := before })
        ((checkHost s index address).run q { cancelled := before' }) := by
  have hsame := HostRecord.CutLate.same (s := s)
  cases before with
  | true =>
    refine ⟨p, true, .refl p, id, ?_⟩
    rw [Dialogue.runCancelled_of_cancelled rfl]
    exact .refl hsame _
  | false =>
    cases (spaced_checkHost s index address).noticed (n := n) (w := {}) hsame hp rfl with
    | never h =>
      refine ⟨p, false, .refl p, id, ?_⟩
      rw [h]
      exact .refl hsame _
    | within k _ h => exact ⟨p.cancelling k, false, p.disturbs_cancelling k, id, h⟩
    | before hn _ =>
      subst hn
      exact ⟨p, true, .refl p, nofun, .refl hsame _⟩
    | between _ _ h => exact ⟨p, true, .refl p, nofun, h⟩

/-- Such a check passes a cancellation over, if it comes between the two questions before a `HELO`: it
was answered with no when it began the attempt. -/
example :
    let s : Settings := { rules := [{ helo := "a", mailFrom := "b", rcptTo := "c" }] }
    let greets : Script :=
      { send := fun _ => { value := .ok () }
        read := fun _ => { value := .ok { code := 220, text := "" } } }
    ((checkHost s 0 ⟨192, 0, 2, 1⟩).runCancelled greets.peer 5 {}).1.attempts =
      [.unsaid ⟨"a", "b", "c"⟩ 0 (some { code := 220, text := "" })] := by decide +kernel

/-! ## What that says about records -/

/-- An attempt for which nothing was said is that of a course that begins cancelled. -/
theorem Attempt.accountable_unsaid (rule : Rule) (index : Nat) (banner : Option Reply) :
    (Attempt.unsaid rule index banner).Accountable := by
  have htries : Tries (({} : Settings).stepsOf ⟨0, 0, 0, 0⟩ index rule) ({} : Settings).resetStep
      { ruleIndex := index, rule, banner } true []
      ({ ruleIndex := index, rule, banner, heloRequest := some rule.heloCommand },
        some (.cancelled .helo)) true :=
    .halted (.halted (.unsent .cancelled))
  exact htries.accountable

namespace HostRecord.CutLate

theorem accountable (hc : h.CutLate s h') (hall : ∀ a ∈ h'.attempts, a.Accountable) :
    ∀ a ∈ h.attempts, a.Accountable := by
  cases hc with
  | same => exact hall
  | begun hopen hcancelled hnext =>
    rw [List.forall_mem_append, List.forall_mem_singleton]
    exact ⟨hall, Attempt.accountable_unsaid _ _ _⟩

/-- There is a rule for it. -/
theorem stands (hc : h.CutLate s h') (hstands : (h'.placed index address).Stands s) :
    (h.placed index address).Stands s := by
  cases hc with
  | same => exact hstands
  | begun hopen hcancelled hnext =>
    have hset : (h'.placed index address).flags.smtpOpen = true ∧
        (h'.placed index address).flags.cancelled = true := ⟨hopen, hcancelled⟩
    cases hstands with
    | interrupted hflags _ =>
      obtain ⟨hlt, -⟩ := List.getElem?_eq_some_iff.1 hnext
      exact .interrupted hflags (by simpa [placed, Settings.rulesFor, Nat.succ_le_iff] using hlt)
    | skipped hflags _ | unreachable hflags _ | broken hflags _ | complete hflags _
    | failed hflags _ | unstarted hflags _ =>
      rw [hflags] at hset
      exact absurd hset (by decide)

/-- A check that notes it is called cancelled. -/
theorem refused (hc : h.CutLate s h')
    (hrefused : (h'.placed index address).tag = .secure → (h'.placed index address).Refused s)
    (htag : (h.placed index address).tag = .secure) : (h.placed index address).Refused s := by
  cases hc with
  | same => exact hrefused htag
  | begun hopen hcancelled hnext =>
    obtain ⟨-, -, huncut, -⟩ := (tag_eq_iff _ .secure).1 htag
    cases hcancelled.symm.trans huncut

end HostRecord.CutLate

/-- The failures of a check that is cancelled at any moment. -/
theorem accountable_at_any_moment (hp : p.Oblivious) (s : Settings) (index : Nat)
    (address : Address) (n : Nat) (before : Bool) :
    ∀ a ∈ ((checkHost s index address).runCancelled p n { cancelled := before }).1.attempts,
      a.Accountable := by
  obtain ⟨q, before', -, -, hran⟩ := cancelled_at_any_moment hp s index address n before
  refine hran.result.accountable ?_
  obtain ⟨c', hchecks⟩ := s.checks q index address before'
  obtain ⟨hall, -⟩ := hchecks.attempted
  exact ((List.forall₂_and_left _ _).1 (hall.imp fun _ _ ha => ⟨ha.accountable, ha⟩)).1

/-- Its host stands in a report as any host does, so the counts and the tags of the report agree. -/
theorem stands_at_any_moment (hp : p.Oblivious) (s : Settings) (index : Nat) (address : Address)
    (n : Nat) (before : Bool) :
    (((checkHost s index address).runCancelled p n { cancelled := before }).1.placed index
      address).Stands s := by
  obtain ⟨q, before', -, -, hran⟩ := cancelled_at_any_moment hp s index address n before
  obtain ⟨c', hchecks⟩ := s.checks q index address before'
  exact hran.result.stands (hchecks.stands index address)

/-- If it is called secure, it refused every rule with a reply. -/
theorem refused_at_any_moment (hp : p.Oblivious) (s : Settings) (index : Nat) (address : Address)
    (n : Nat) (before : Bool)
    (hrun : ((checkHost s index address).runCancelled p n { cancelled := before }).1 = h)
    (htag : (h.placed index address).tag = .secure) : (h.placed index address).Refused s := by
  obtain ⟨q, before', -, -, hran⟩ := cancelled_at_any_moment hp s index address n before
  obtain ⟨c', hchecks⟩ := s.checks q index address before'
  subst hrun
  exact hran.result.refused hchecks.refused htag

end OpenRelay
