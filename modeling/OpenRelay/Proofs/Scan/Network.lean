import Mathlib.Data.List.Infix
import OpenRelay.Proofs.Conversation.Round
import OpenRelay.Proofs.Scan.Complete
import OpenRelay.Scan.Launcher

/-!
# Scans of a network

A network says how the host at each address answers. During each call of a task on its host the scan
can be cancelled, by this task or from elsewhere, and any call can break the task off. A cancellation
between two calls is one during a call, for all that the host sees; what it can do to a record is said
by `cancelled_at_any_moment`.

* `Network.Ends`: how the task of a host can end.
* `Execution.On`: the executions whose tasks talk to the hosts of a network.
* `Execution.On.source`: where the hosts of their reports come from.
* `Dialogue.run_disturbed`: a run that sees no cancellation is the run without disturbance.
-/

namespace OpenRelay

/-! ## Disturbance -/

/-- An answer that says the same as another one. The scan may be cancelled besides. -/
structure Answer.Disturbs {α : Type} (a b : Answer α) : Prop where
  value : a.value = b.value
  cancels : b.cancels = true → a.cancels = true

/-- A peer that answers as another one does. The scan may be cancelled besides, during any call. -/
structure Peer.Disturbs (q p : Peer) : Prop where
  lookUp : ∀ log, (q.lookUp log).Disturbs (p.lookUp log)
  connect : ∀ log, (q.connect log).Disturbs (p.connect log)
  send : ∀ log line, (q.send log line).Disturbs (p.send log line)
  read : ∀ log timeout, (q.read log timeout).Disturbs (p.read log timeout)

theorem Answer.Disturbs.refl {α : Type} (a : Answer α) : a.Disturbs a := ⟨rfl, id⟩

theorem Peer.Disturbs.refl (p : Peer) : p.Disturbs p :=
  ⟨fun _ => .refl _, fun _ => .refl _, fun _ _ => .refl _, fun _ _ => .refl _⟩

theorem World.log_prefix_after (w : World) (event : Event) (cancels : Bool) :
    w.log <+: (w.after event cancels).log :=
  List.prefix_append _ _

namespace Dialogue

variable {α : Type} {p q : Peer}

/-- A scan that was cancelled stays so. -/
theorem cancelled_run (p : Peer) (d : Dialogue α) {w : World} (h : w.cancelled = true) :
    (d.run p w).2.cancelled = true := by
  induction d generalizing w with
  | done a => exact h
  | poll next ih => exact ih _ h
  | lookUp x next ih | connect x port c t next ih | send line next ih | read t next ih =>
    exact ih _ (by simp [World.after, h])

theorem cancelled_of_run {d : Dialogue α} {w : World} (h : (d.run p w).2.cancelled = false) :
    w.cancelled = false := by
  by_contra hw
  rw [cancelled_run p d (Bool.not_eq_false _ ▸ hw)] at h
  cases h

/-- The log only grows. -/
theorem log_prefix_run (p : Peer) (d : Dialogue α) (w : World) : w.log <+: (d.run p w).2.log := by
  induction d generalizing w with
  | done a => exact List.prefix_rfl
  | poll next ih => exact ih _ w
  | lookUp x next ih | connect x port c t next ih | send line next ih | read t next ih =>
    exact List.IsPrefix.trans (w.log_prefix_after _ _) (ih _ _)

end Dialogue

/-- Without a cancellation, a call leaves the world that it leaves without the disturbance. -/
theorem Answer.Disturbs.after_eq {α : Type} {a b : Answer α} (h : a.Disturbs b) (event : α → Event)
    {w : World} (hcalm : (w.after (event a.value) a.cancels).cancelled = false) :
    w.after (event a.value) a.cancels = w.after (event b.value) b.cancels := by
  have hcancels : a.cancels = b.cancels := by
    have ha : a.cancels = false := (Bool.or_eq_false_iff.1 hcalm).2
    cases hb : b.cancels with
    | false => exact ha
    | true => exact ha.trans (ha.symm.trans (h.cancels hb))
  rw [h.value, hcancels]

namespace Dialogue

variable {α β : Type} {p q : Peer} {a b : Answer β} {next : β → Dialogue α} {w : World}

/-- The step of `run_disturbed`: a call and what follows it. -/
theorem run_next_disturbed (h : a.Disturbs b) (event : β → Event)
    (ih : ∀ r {w}, ((next r).run q w).2.cancelled = false → (next r).run q w = (next r).run p w)
    (hcalm : ((next a.value).run q (w.after (event a.value) a.cancels)).2.cancelled = false) :
    (next a.value).run q (w.after (event a.value) a.cancels) =
      (next b.value).run p (w.after (event b.value) b.cancels) := by
  rw [ih _ hcalm, h.after_eq event (cancelled_of_run hcalm), h.value]

/-- **A run that sees no cancellation is the run without disturbance.** -/
theorem run_disturbed (h : q.Disturbs p) (d : Dialogue α) {w : World}
    (hcalm : (d.run q w).2.cancelled = false) : d.run q w = d.run p w := by
  induction d generalizing w with
  | done a => rfl
  | poll next ih => exact ih _ hcalm
  | lookUp x next ih => exact run_next_disturbed (h.lookUp _) (.lookedUp x) ih hcalm
  | connect x port c t next ih =>
    exact run_next_disturbed (h.connect _) (.connected x port c t) ih hcalm
  | send line next ih => exact run_next_disturbed (h.send _ _) (.sent line) ih hcalm
  | read t next ih => exact run_next_disturbed (h.read _ _) (.heard t) ih hcalm

/-- The step of `log_disturbed`: a call and what follows it. -/
theorem log_next_disturbed (h : a.Disturbs b) (event : β → Event) {es : List Entry}
    (ih : ∀ r {w} {es : List Entry}, w.log ++ es <+: ((next r).run q w).2.log →
      (∀ e ∈ es, e.cancelled = false) → w.log ++ es <+: ((next r).run p w).2.log)
    (hes : w.log ++ es <+: ((next a.value).run q (w.after (event a.value) a.cancels)).2.log)
    (hcalm : ∀ e ∈ es, e.cancelled = false) :
    w.log ++ es <+: ((next b.value).run p (w.after (event b.value) b.cancels)).2.log := by
  cases es with
  | nil =>
    rw [List.append_nil]
    exact (w.log_prefix_after _ _).trans (log_prefix_run p _ _)
  | cons e es =>
    -- the first entry is that of the call
    have hfirst : (w.after (event a.value) a.cancels).log = w.log ++ [e] := by
      have hlen : (w.after (event a.value) a.cancels).log.length = (w.log ++ [e]).length := by
        simp [World.after]
      refine (List.prefix_of_prefix_length_le (log_prefix_run q (next a.value) _) ?_
        (Nat.le_of_eq hlen)).eq_of_length hlen
      exact List.IsPrefix.trans (by simp) hes
    have hworld : w.after (event a.value) a.cancels = w.after (event b.value) b.cancels := by
      refine h.after_eq event ?_
      obtain ⟨-, hentry⟩ := List.append_inj hfirst rfl
      exact (congrArg Entry.cancelled (List.cons.inj hentry).1).trans (hcalm e List.mem_cons_self)
    have hsplit : w.log ++ e :: es = (w.after (event a.value) a.cancels).log ++ es := by
      rw [hfirst, List.append_assoc, List.singleton_append]
    rw [hsplit] at hes ⊢
    rw [← hworld, ← h.value]
    exact ih _ hes fun e' he' => hcalm e' (List.mem_cons_of_mem _ he')

/-- **What a run logs before it sees a cancellation it also logs without disturbance.** -/
theorem log_disturbed (h : q.Disturbs p) (d : Dialogue α) {w : World} {es : List Entry}
    (hes : w.log ++ es <+: (d.run q w).2.log) (hcalm : ∀ e ∈ es, e.cancelled = false) :
    w.log ++ es <+: (d.run p w).2.log := by
  induction d generalizing w es with
  | done a => exact hes
  | poll next ih => exact ih _ hes hcalm
  | lookUp x next ih => exact log_next_disturbed (h.lookUp _) (.lookedUp x) ih hes hcalm
  | connect x port c t next ih =>
    exact log_next_disturbed (h.connect _) (.connected x port c t) ih hes hcalm
  | send line next ih => exact log_next_disturbed (h.send _ _) (.sent line) ih hes hcalm
  | read t next ih => exact log_next_disturbed (h.read _ _) (.heard t) ih hes hcalm

/-- Whether the scan is cancelled after a run, as its log says. -/
theorem cancelled_eq_any (p : Peer) (d : Dialogue α) (w : World) :
    ∃ es, (d.run p w).2.log = w.log ++ es ∧
      (d.run p w).2.cancelled = (w.cancelled || es.any (·.cancelled)) := by
  induction d generalizing w with
  | done a => exact ⟨[], by simp [run], by simp [run]⟩
  | poll next ih => exact ih _ w
  | lookUp x next ih | connect x port c t next ih | send line next ih | read t next ih =>
    obtain ⟨es, hlog, hflag⟩ := ih _ (w.after _ _)
    refine ⟨_ :: es, hlog.trans (List.append_assoc _ _ _), hflag.trans ?_⟩
    simp only [World.after, List.any_cons, Bool.or_assoc]
    cases w.cancelled <;> simp

end Dialogue

/-! ## Networks -/

/-- What the tasks of a scan meet: how the host at each address answers, and whether a task breaks
off within the last of the calls that it made so far. -/
structure Network where
  peer : Address → Peer
  breaks : Address → List Entry → Bool := fun _ _ => false

namespace Network

variable (net : Network) {s : Settings} {index : Nat} {address : Address} {outcome : Outcome}

/-- **How the task of a host can end**, and whether the scan is cancelled then. The scan may have
been cancelled before, and it may be cancelled from elsewhere meanwhile. -/
inductive Ends (s : Settings) (index : Nat) (address : Address) : Outcome → Bool → Prop where
  | reported {q : Peer} {before : Bool} {record : HostRecord} {w : World}
      (hq : q.Disturbs (net.peer address))
      (hrun : (checkHost s index address).run q { cancelled := before } = (record, w))
      (hwhole : ∀ calls, calls <+: w.log → net.breaks address calls = false) :
      Ends s index address (.reported record) w.cancelled
  | died {q : Peer} {before : Bool} {calls : List Entry} (hq : q.Disturbs (net.peer address))
      (hcalls : calls <+: s.logOf q index address before)
      (hbreaks : net.breaks address calls = true) :
      Ends s index address .died (before || calls.any (·.cancelled))

/-- A check that nothing breaks off ends with its record. -/
theorem ends_of_whole (hwhole : ∀ calls, net.breaks address calls = false) (before : Bool) :
    net.Ends s index address (.reported (s.recordOf (net.peer address) index address before))
      ((checkHost s index address).run (net.peer address) { cancelled := before }).2.cancelled :=
  .reported (.refl _) rfl fun calls _ => hwhole calls

/-- If it sees no cancellation either, it ends without one. -/
theorem ends_of_calm (hwhole : ∀ calls, net.breaks address calls = false)
    (hcalm : ((checkHost s index address).run (net.peer address) {}).2.cancelled = false) :
    net.Ends s index address (.reported (s.recordOf (net.peer address) index address false))
      false := by
  have hends := @ends_of_whole net s index address hwhole false
  rwa [hcalm] at hends

/-- The tasks of a launcher end in this way: one that dies does so within the call that opens the
connection. -/
theorem probe_ends (s : Settings) (peer : Peer) (dies : Bool) (index : Nat) (address : Address)
    (before : Bool) :
    let answers := if dies then { peer with connect := fun _ => { value := .error "" } } else peer
    let net : Network :=
      { peer := fun _ => answers
        breaks := fun _ calls => dies && calls.any (·.event.isConnect) }
    net.Ends s index address (probe s peer dies index address before).outcome
      (probe s peer dies index address before).cancelled := by
  intro answers net
  obtain ⟨calls, hlog, hflag⟩ :=
    Dialogue.cancelled_eq_any answers (checkHost s index address) { cancelled := before }
  rw [List.nil_append] at hlog
  have houtcome : (probe s peer dies index address before).outcome =
      if dies && (s.logOf answers index address before).any (·.event.isConnect) then .died
      else .reported (s.recordOf answers index address before) := rfl
  by_cases hdied : (dies && calls.any (·.event.isConnect)) = true
  · rw [houtcome, Settings.logOf, hlog, if_pos hdied]
    show net.Ends s index address .died ((checkHost s index address).run answers _).2.cancelled
    rw [hflag]
    exact @Ends.died net s index address answers before calls (.refl _)
      (hlog ▸ List.prefix_rfl) hdied
  · rw [houtcome, Settings.logOf, hlog, if_neg hdied]
    refine @Ends.reported net s index address answers before _ _ (.refl _) rfl fun cut hcut => ?_
    replace hcut : cut <+: calls := hlog ▸ hcut
    refine Bool.eq_false_iff.2 fun hbreaks => hdied ?_
    obtain ⟨hdies, hcut'⟩ := Bool.and_eq_true_iff.1 hbreaks
    obtain ⟨e, he, hconnect⟩ := List.any_eq_true.1 hcut'
    exact Bool.and_eq_true_iff.2 ⟨hdies, List.any_eq_true.2 ⟨e, hcut.subset he, hconnect⟩⟩

/-- The record of a host that is checked by itself, with nothing else going on. -/
def alone (s : Settings) (index : Nat) (address : Address) : HostRecord :=
  if (s.logOf (net.peer address) index address false).inits.any (net.breaks address) then
    Dispatch.vanished index address
  else { s.recordOf (net.peer address) index address false with visited := true }

/-- **A task that sees no cancellation ends as it does alone.** -/
theorem Ends.settled_eq_alone (h : net.Ends s index address outcome false) :
    outcome.settled index address = net.alone s index address := by
  generalize hflag : false = flag at h
  cases h with
  | @reported q before record w hq hrun hwhole =>
    have hbefore : before = false := Dialogue.cancelled_of_run (by rw [hrun, hflag])
    subst hbefore
    -- the run of the check alone is this run
    have halone := Dialogue.run_disturbed hq (checkHost s index address) (by rw [hrun, hflag])
    rw [hrun] at halone
    have hrecord : s.recordOf (net.peer address) index address false = record :=
      congrArg Prod.fst halone.symm
    have hlog : s.logOf (net.peer address) index address false = w.log :=
      congrArg (·.2.log) halone.symm
    obtain ⟨c', hchecks⟩ := s.checks (net.peer address) index address false
    rw [hrecord] at hchecks
    obtain ⟨rfl, rfl⟩ := Prod.mk.inj hchecks.place_eq
    rw [alone, hlog, hrecord, if_neg]
    · rfl
    · simpa [List.any_eq_true] using hwhole
  | @died q before calls hq hcalls hbreaks =>
    obtain ⟨rfl, hcalm⟩ := Bool.or_eq_false_iff.1 hflag.symm
    have hprefix : calls <+: s.logOf (net.peer address) index address false :=
      Dialogue.log_disturbed (w := {}) hq (checkHost s index address) hcalls
        (by simpa using hcalm)
    rw [alone, if_pos]
    · rfl
    · exact List.any_eq_true.2 ⟨calls, (List.mem_inits _ _).2 hprefix, hbreaks⟩

end Network

/-- For a target without a task nothing was tried. -/
theorem Dispatch.untried_unstarted (abandoned : Option Abandoned) (index : Nat)
    (address : Address) :
    (unstarted abandoned index address).visited = false ∧
      (unstarted abandoned index address).smtpOpen = false ∧
      (unstarted abandoned index address).attempts = [] := by
  unfold unstarted
  split
  · split <;> exact ⟨rfl, rfl, rfl⟩
  · exact ⟨rfl, rfl, rfl⟩

/-- **Where a host of a report comes from.** -/
inductive HostRecord.Source (s : Settings) : HostRecord → Prop where
  /-- Its task has sent the record of a check. -/
  | checked {index : Nat} {address : Address} {c c' : Bool} {es : List Entry} {record : HostRecord}
      (hc : Checks s index address c es record c') : Source s (record.placed index address)
  /-- Its task broke off. -/
  | vanished (index : Nat) (address : Address) : Source s (Dispatch.vanished index address)
  /-- There was no task for it. -/
  | unstarted (abandoned : Option Abandoned) (index : Nat) (address : Address) :
      Source s (Dispatch.unstarted abandoned index address)

/-- An execution whose tasks talk to the hosts of a network: each of them ends in a way in which
the task of its host can end, and the scan is cancelled if that task was. -/
def Execution.On {t : Targets} (x : Execution t) (s : Settings) (net : Network) : Prop :=
  ∀ past index outcome later before,
    x.moves = past ++ .finish index outcome :: later →
    Dispatch.run x.plan x.first past = some before →
    ∃ address flag, t.nth? index = some address ∧ net.Ends s index address outcome flag ∧
      (flag = true → before.cancelled = true)

namespace Execution

variable {t : Targets} {x : Execution t} {s : Settings} {net : Network} {index : Nat}
  {outcome : Outcome}

/-- A task of an execution on a network ends in one of the ways of the network, and without a
cancellation if the execution saw none. -/
theorem On.ends (hx : x.On s net) (h : (index, outcome) ∈ x.endings) :
    ∃ address flag, t.nth? index = some address ∧ net.Ends s index address outcome flag ∧
      (flag = true → x.last.cancelled = true) := by
  obtain ⟨m, hm, hending⟩ := List.mem_filterMap.1 h
  obtain rfl : m = .finish index outcome := by
    cases m <;> simp_all [Dispatch.Move.ending?]
  obtain ⟨past, later, hmoves⟩ := List.append_of_mem hm
  have hrun := x.run
  rw [hmoves, Dispatch.run_append, Option.bind_eq_some_iff] at hrun
  obtain ⟨before, hpast, hlater⟩ := hrun
  obtain ⟨address, flag, hi, hends, hflag⟩ := hx _ _ _ _ _ hmoves hpast
  exact ⟨address, flag, hi, hends, fun h => Dispatch.cancelled_run hlater (hflag h)⟩

/-- Every host of a report comes from somewhere. -/
theorem On.source (hx : x.On s net) {h : HostRecord} (hmem : h ∈ x.report.hosts) : h.Source s := by
  obtain ⟨index, address, haddress, ⟨outcome, hend, rfl⟩ | ⟨-, rfl⟩⟩ := x.mem_hosts hmem
  · obtain ⟨address', flag, haddress', hends, -⟩ := hx.ends hend
    obtain rfl : address = address' := Option.some.inj (haddress.symm.trans haddress')
    cases hends with
    | died => exact .vanished index address
    | @reported q before record w hq hrun hwhole =>
      obtain ⟨c', hchecks⟩ := s.checks q index address before
      rw [show s.recordOf q index address before = record from congrArg Prod.fst hrun] at hchecks
      exact .checked hchecks
  · exact .unstarted _ index address

/-- Tasks that see no cancellation can end at any moment. -/
theorem on_of_ends (h : ∀ e ∈ x.endings, ∃ address, t.nth? e.1 = some address ∧
    net.Ends s e.1 address e.2 false) : x.On s net := by
  intro past index outcome later before hmoves _
  have hmem : (index, outcome) ∈ x.endings := by
    rw [endings, hmoves, Dispatch.endings_append]
    exact List.mem_append_right _ List.mem_cons_self
  obtain ⟨address, hi, hends⟩ := h _ hmem
  exact ⟨address, false, hi, hends, nofun⟩

end Execution

end OpenRelay
