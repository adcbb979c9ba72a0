import OpenRelay.Output.Human
import OpenRelay.Proofs.Conversation.Notice
import OpenRelay.Proofs.Scan.States

/-!
# What an interrupted scan has missed

A report says that the scan was cancelled if it was by the end, whether a check has noticed or not.
Its records say what was missed.

* `Heeds.run_alike`: a check that has not noticed a cancellation comes out as it does without one.
* `incomplete_iff`: a report is incomplete exactly if its records are not those of a scan without
  disturbance.
* `cancelled_at_quit`: a report that says that it was interrupted and misses nothing.
-/

namespace OpenRelay

/-! ## Peers without their cancellations -/

/-- The calls of a log, without what it says about the scan. -/
def eventsOf (log : List Entry) : List Event := log.map (·.event)

/-- A peer that does not know whether the scan is cancelled. -/
structure Peer.Oblivious (p : Peer) : Prop where
  lookUp : ∀ {log log'}, eventsOf log = eventsOf log' → (p.lookUp log).value = (p.lookUp log').value
  connect : ∀ {log log'}, eventsOf log = eventsOf log' →
    (p.connect log).value = (p.connect log').value
  send : ∀ {log log'} line, eventsOf log = eventsOf log' →
    (p.send log line).value = (p.send log' line).value
  read : ∀ {log log'} timeout, eventsOf log = eventsOf log' →
    (p.read log timeout).value = (p.read log' timeout).value

/-- The peer with the same answers that never cancels the scan. -/
def Peer.calm (p : Peer) : Peer where
  lookUp log := { value := (p.lookUp log).value }
  connect log := { value := (p.connect log).value }
  send log line := { value := (p.send log line).value }
  read log timeout := { value := (p.read log timeout).value }

/-- A script counts calls. -/
theorem Script.oblivious_peer (script : Script) : script.peer.Oblivious := by
  have hcount (counts : Event → Bool) {log log' : List Entry} (h : eventsOf log = eventsOf log') :
      log.countP (fun e => counts e.event) = log'.countP fun e => counts e.event := by
    have hmap := congrArg (List.countP counts) h
    rwa [eventsOf, eventsOf, List.countP_map, List.countP_map] at hmap
  refine ⟨fun _ => rfl, fun _ => rfl, fun _ h => ?_, fun _ h => ?_⟩
  · exact congrArg (fun n => (script.send n).value) (hcount Event.isSend h)
  · exact congrArg (fun n => (script.read n).value) (hcount Event.isRead h)

theorem eventsOf_after {w w' : World} (h : eventsOf w.log = eventsOf w'.log) (event : Event)
    (c c' : Bool) : eventsOf (w.after event c).log = eventsOf (w'.after event c').log := by
  simp only [eventsOf] at h
  simp only [eventsOf, World.after, List.map_append, h, List.map_cons, List.map_nil]

namespace Dialogue

variable {α β : Type} {R : α → Prop} {d : Dialogue α} {p q : Peer} {w w' : World}

theorem Always.run (hd : d.Always R) (p : Peer) (w : World) : R (d.run p w).1 := by
  induction d generalizing w with
  | done a => exact hd
  | poll next ih | lookUp x next ih | connect x port c t next ih | send line next ih
  | read t next ih => exact ih _ (hd _) _

/-- Without a cancellation there is none to be noticed. -/
theorem Heeds.not_of_run (hd : d.Heeds R) (hcalm : (d.run p w).2.cancelled = false) :
    ¬ R (d.run p w).1 := by
  induction d generalizing w with
  | done a => exact hd
  | poll next ih =>
    have hw : w.cancelled = false := cancelled_of_run hcalm
    simp only [Dialogue.run, hw] at hcalm ⊢
    exact ih false hd.2 hcalm
  | lookUp x next ih | connect x port c t next ih | send line next ih | read t next ih =>
    exact ih _ (hd _) hcalm

/-- A peer that never cancels the scan leaves it as it is. -/
theorem cancelled_run_calm (p : Peer) (d : Dialogue α) (w : World) :
    (d.run p.calm w).2.cancelled = w.cancelled := by
  induction d generalizing w with
  | done a => rfl
  | poll next ih => exact ih _ w
  | lookUp x next ih | connect x port c t next ih | send line next ih | read t next ih =>
    exact (ih _ _).trans (Bool.or_false _)

/-- The step of `Heeds.run_alike`: a call that is answered alike, and what follows it. -/
theorem run_next_alike {a b : Answer β} {next : β → Dialogue α} (event : β → Event)
    (ih : ∀ r {w w'}, eventsOf w.log = eventsOf w'.log → w'.cancelled = false →
      R ((next r).run q w).1 ∨ ((next r).run q w).1 = ((next r).run p.calm w').1)
    (hvalue : a.value = b.value) (hlog : eventsOf w.log = eventsOf w'.log)
    (hcalm : w'.cancelled = false) :
    R ((next a.value).run q (w.after (event a.value) a.cancels)).1 ∨
      ((next a.value).run q (w.after (event a.value) a.cancels)).1 =
        ((next b.value).run p.calm (w'.after (event b.value) false)).1 := by
  rw [← hvalue]
  exact ih _ (eventsOf_after hlog _ _ _) (by simp [World.after, hcalm])

/-- **A cancellation that is not noticed changes nothing.** -/
theorem Heeds.run_alike (hd : d.Heeds R) (hq : q.Disturbs p) (hp : p.Oblivious)
    (hlog : eventsOf w.log = eventsOf w'.log) (hcalm : w'.cancelled = false) :
    R (d.run q w).1 ∨ (d.run q w).1 = (d.run p.calm w').1 := by
  induction d generalizing w w' with
  | done a => exact Or.inr rfl
  | poll next ih =>
    simp only [Dialogue.run, hcalm]
    cases hw : w.cancelled with
    | true => exact Or.inl (hd.1.run q w)
    | false => exact ih false hd.2 hlog hcalm
  | lookUp x next ih =>
    exact run_next_alike (.lookedUp x) (fun r => ih r (hd r))
      ((hq.lookUp w.log).value.trans (hp.lookUp hlog)) hlog hcalm
  | connect x port c t next ih =>
    exact run_next_alike (.connected x port c t) (fun r => ih r (hd r))
      ((hq.connect w.log).value.trans (hp.connect hlog)) hlog hcalm
  | send line next ih =>
    exact run_next_alike (.sent line) (fun r => ih r (hd r))
      ((hq.send w.log line).value.trans (hp.send line hlog)) hlog hcalm
  | read t next ih =>
    exact run_next_alike (.heard t) (fun r => ih r (hd r))
      ((hq.read w.log t).value.trans (hp.read t hlog)) hlog hcalm

end Dialogue

/-! ## Scans without disturbance -/

namespace Settings

variable (s : Settings) {p q : Peer} {index : Nat} {address : Address} {before : Bool}

/-- What a scan with nothing to disturb it says about a host. -/
def calmRecord (p : Peer) (index : Nat) (address : Address) : HostRecord :=
  (s.recordOf p.calm index address false).placed index address

/-- The records of a scan with nothing to disturb it. -/
def calmRecords (net : Network) (t : Targets) : List HostRecord :=
  t.toList.zipIdx.map fun (address, index) => s.calmRecord (net.peer address) index address

theorem cancelled_calmRecord (p : Peer) (index : Nat) (address : Address) :
    (s.calmRecord p index address).cancelled = false :=
  Bool.eq_false_iff.2 <| (heeds_checkHost s index address).not_of_run
    (Dialogue.cancelled_run_calm p (checkHost s index address) {})

/-- A check that has not noticed a cancellation comes out as one that nothing disturbs. -/
theorem placed_eq_calmRecord (hq : q.Disturbs p) (hp : p.Oblivious)
    (hcalm : (s.recordOf q index address before).cancelled = false) :
    (s.recordOf q index address before).placed index address = s.calmRecord p index address := by
  have halike : (s.recordOf q index address before).Noticed ∨
      s.recordOf q index address before = s.recordOf p.calm index address false :=
    (heeds_checkHost s index address).run_alike hq hp rfl rfl
  rw [halike.resolve_left (Bool.eq_false_iff.1 hcalm), calmRecord]

end Settings

/-- A report with a host that was not checked, or not to the end. -/
def Report.Incomplete (r : Report) : Prop :=
  ∃ h ∈ r.hosts, h.cancelled = true ∨ h.visited = false

namespace Network.Ends

variable {net : Network} {s : Settings} {index : Nat} {address : Address} {outcome : Outcome}
  {flag : Bool}

/-- A task whose record says that the scan was cancelled has seen it cancelled. -/
theorem flag_of_cancelled (h : net.Ends s index address outcome flag)
    (hcancelled : (outcome.settled index address).cancelled = true) : flag = true := by
  cases h with
  | died => cases hcancelled
  | @reported q before record w hq hrun hwhole =>
    by_contra hcalm
    have hnot := (heeds_checkHost s index address).not_of_run (p := q) (w := { cancelled := before })
      (by rw [hrun]; exact Bool.eq_false_iff.2 hcalm)
    rw [hrun] at hnot
    exact hnot hcancelled

/-- **A task that has sent a record which does not say so** ends as it does without disturbance. -/
theorem settled_eq_calm (h : net.Ends s index address outcome flag)
    (hp : (net.peer address).Oblivious)
    (hvisited : (outcome.settled index address).visited = true)
    (hcalm : (outcome.settled index address).cancelled = false) :
    outcome.settled index address = s.calmRecord (net.peer address) index address := by
  cases h with
  | died => cases hvisited
  | @reported q before record w hq hrun hwhole =>
    obtain rfl : s.recordOf q index address before = record := congrArg Prod.fst hrun
    exact s.placed_eq_calmRecord hq hp hcalm

end Network.Ends

namespace Execution

variable {t : Targets} {x : Execution t} {s : Settings} {net : Network} {h : HostRecord}

/-- A host is cancelled only if the scan is. -/
theorem On.cancelled_of_host (hx : x.On s net) (hmem : h ∈ x.report.hosts)
    (hcancelled : h.cancelled = true) : x.report.cancelled = true := by
  obtain ⟨index, address, haddress, ⟨outcome, hend, rfl⟩ | ⟨hlate, rfl⟩⟩ := x.mem_hosts hmem
  · obtain ⟨address', flag, haddress', hends, hflag⟩ := hx.ends hend
    obtain rfl : address = address' := Option.some.inj (haddress.symm.trans haddress')
    exact hflag (hends.flag_of_cancelled hcancelled)
  · -- a task is not started only if the scan is cancelled
    have hlt : index < t.count := by
      rw [← t.isSome_nth?, haddress]
      rfl
    refine (x.tracks.stopped x.draining).resolve_left fun hall => ?_
    exact Nat.not_lt.2 hlate (hall ▸ hlt)

theorem checked_of_complete (hwhole : ¬ x.report.Incomplete) (hmem : h ∈ x.report.hosts) :
    h.cancelled = false ∧ h.visited = true := by
  constructor
  · by_contra hcancelled
    exact hwhole ⟨h, hmem, Or.inl (Bool.not_eq_false _ ▸ hcancelled)⟩
  · by_contra hvisited
    exact hwhole ⟨h, hmem, Or.inr (Bool.not_eq_true _ ▸ hvisited)⟩

/-- **A report that is not incomplete is that of a scan without disturbance.** -/
theorem On.hosts_eq_calm (hx : x.On s net) (hp : ∀ address, (net.peer address).Oblivious)
    (hwhole : ¬ x.report.Incomplete) : x.report.hosts = s.calmRecords net t := by
  refine List.ext_getElem? fun i => ?_
  rw [Settings.calmRecords, List.getElem?_map, List.getElem?_zipIdx, t.getElem?_toList]
  cases haddress : t.nth? i with
  | none =>
    rw [x.getElem?_hosts, haddress]
    rfl
  | some address =>
    simp only [Option.map_some, Nat.zero_add]
    by_cases hlt : i < x.last.admitted
    · obtain ⟨⟨_, outcome⟩, hend, rfl⟩ :=
        List.mem_map.1 (x.ends_perm.mem_iff.2 (List.mem_range.2 hlt))
      have hhost := x.getElem?_hosts_of_ended haddress hend
      obtain ⟨hcalm, hvisited⟩ := checked_of_complete hwhole (List.mem_of_getElem? hhost)
      obtain ⟨address', flag, haddress', hends, -⟩ := hx.ends hend
      obtain rfl : address = address' := Option.some.inj (haddress.symm.trans haddress')
      rw [hhost, hends.settled_eq_calm (hp address) hvisited hcalm]
    · have hhost := x.getElem?_hosts_of_unstarted haddress (Nat.le_of_not_lt hlt)
      have hvisited := (checked_of_complete hwhole (List.mem_of_getElem? hhost)).2
      rw [(Dispatch.untried_unstarted _ _ _).1] at hvisited
      cases hvisited

/-- **What the records say about a cancellation.** A host is cancelled only if the scan is. And a
report is incomplete exactly if its hosts are not what a scan finds that nothing disturbs, so a
cancellation that no host shows has made no difference. -/
theorem incomplete_iff (hx : x.On s net) (hp : ∀ address, (net.peer address).Oblivious) :
    ((∃ h ∈ x.report.hosts, h.cancelled = true) → x.report.cancelled = true) ∧
      (x.report.Incomplete ↔ x.report.hosts ≠ s.calmRecords net t) := by
  refine ⟨fun ⟨h, hmem, hcancelled⟩ => hx.cancelled_of_host hmem hcancelled, ?_, fun hne => ?_⟩
  · rintro ⟨h, hmem, hmissed⟩ heq
    rw [heq] at hmem
    obtain ⟨⟨address, index⟩, -, rfl⟩ := List.mem_map.1 hmem
    rcases hmissed with hcancelled | hvisited
    · rw [s.cancelled_calmRecord] at hcancelled
      cases hcancelled
    · cases hvisited
  · by_contra hwhole
    exact hne (hx.hosts_eq_calm hp hwhole)

/-- A scan that is cancelled before its last host is tried. -/
theorem mixed_incomplete :
    Mixed.execution.On Mixed.settings Mixed.network ∧
      (∀ address, (Mixed.network.peer address).Oblivious) ∧
      Mixed.execution.report.Incomplete ∧
      Mixed.execution.report.hosts ≠ Mixed.settings.calmRecords Mixed.network Mixed.targets := by
  have hp : ∀ address, (Mixed.network.peer address).Oblivious :=
    fun address => (Mixed.script address).oblivious_peer
  have hmissed : Mixed.execution.report.Incomplete := by
    unfold Report.Incomplete
    decide +kernel
  exact ⟨Mixed.execution_on, hp, hmissed, (incomplete_iff Mixed.execution_on hp).2.1 hmissed⟩

/-- **A report that says that it was interrupted and misses nothing**: the scan is cancelled while the
reply to the last `QUIT` is awaited. -/
theorem cancelled_at_quit :
    let a : Address := ⟨192, 0, 2, 1⟩
    let s : Settings := { rules := [⟨"h", "a@b.test", "c@d.test"⟩] }
    let refuses : Script :=
      { send := fun _ => { value := .ok () }
        read := fun n =>
          { value := .ok { code := if n = 3 then 550 else 250, text := "" }, cancels := n = 5 } }
    let net : Network := { peer := fun _ => refuses.peer }
    ∃ x : Execution (.list [a]), x.On s net ∧ x.report.cancelled = true ∧
      "scan interrupted before every host was checked" ∈ x.report.closing ∧
      ¬ x.report.Incomplete := by
  intro a s refuses net
  let outcome : Outcome := .reported (s.recordOf (net.peer a) 0 a false)
  let x : Execution (.list [a]) :=
    { retries := 0, limit := 1, moves := [.ask, .launched, .cancel, .finish 0 outcome, .release 0]
      last := _, run := rfl, done := rfl }
  have hends := @Network.ends_of_whole net s 0 a (fun _ => rfl) false
  have hx : x.On s net := by
    intro past index outcome' later before hmoves hrun
    -- the only task ends behind the cancellation
    rcases past with _ | ⟨_, _ | ⟨_, _ | ⟨_, _ | ⟨_, _ | ⟨_, past⟩⟩⟩⟩⟩ <;> simp [x] at hmoves
    obtain ⟨rfl, rfl, rfl, ⟨rfl, rfl⟩, rfl⟩ := hmoves
    have hcancelled : before.cancelled = true := by
      obtain rfl := Option.some.inj hrun
      rfl
    exact ⟨a, _, rfl, hends, fun _ => hcancelled⟩
  have hwhole : ¬ x.report.Incomplete := by
    unfold Report.Incomplete
    decide +kernel
  exact ⟨x, hx, rfl, by decide +kernel, hwhole⟩

end Execution

end OpenRelay
