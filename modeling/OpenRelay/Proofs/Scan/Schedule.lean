import OpenRelay.Proofs.Scan.Network

/-!
# A scan does not depend on its schedule

Unless something cancels it, a scan finds out the same whatever its limit is, whichever starts are
refused, and in whatever order its tasks run and end.

* `Execution.hosts_eq_alone`: the report holds for each target what a check of it alone finds out.
* `Execution.schedule_independent`: so any two executions lead to the same records.
-/

namespace OpenRelay

open Dispatch (Move)

namespace Execution

variable {t : Targets} {x : Execution t} {s : Settings} {net : Network}

/-- An execution that nothing cancels. -/
structure Undisturbed (x : Execution t) : Prop where
  before : x.cancelled = false
  during : .cancel ∉ x.moves
  kept : x.last.abandoned = none

theorem Undisturbed.calm (hx : x.Undisturbed) : x.last.cancelled = false := by
  by_contra hc
  rcases Dispatch.cancelled_cases x.run (Bool.not_eq_false _ ▸ hc) with h | h | h
  · exact Bool.false_ne_true (hx.before.symm.trans h)
  · exact hx.during h
  · rw [hx.kept] at h
    cases h

/-- Unless something cancels it, an execution starts a task for each target. -/
theorem Undisturbed.admitted_eq (hx : x.Undisturbed) : x.last.admitted = t.count := by
  refine (x.tracks.stopped x.draining).resolve_right ?_
  simp [hx.calm]

/-- **The report holds for each target what a check of it alone finds out.** -/
theorem hosts_eq_alone (hx : x.Undisturbed) (hon : x.On s net) :
    x.report.hosts = t.toList.zipIdx.map fun (address, index) => net.alone s index address := by
  refine List.ext_getElem? fun i => ?_
  rw [List.getElem?_map, List.getElem?_zipIdx, t.getElem?_toList]
  by_cases hi : i < t.count
  · -- each target has its task, and that has ended
    have hended : i ∈ x.endings.map Prod.fst :=
      x.ends_perm.mem_iff.2 (List.mem_range.2 (hx.admitted_eq.symm ▸ hi))
    obtain ⟨⟨_, outcome⟩, hmem, rfl⟩ := List.mem_map.1 hended
    obtain ⟨address, flag, haddress, hends, hflag⟩ := hon.ends hmem
    obtain rfl : flag = false := by
      by_contra hf
      simp [hx.calm, Bool.not_eq_false _ ▸ hf] at hflag
    rw [x.getElem?_hosts_of_ended haddress hmem, haddress, hends.settled_eq_alone]
    simp
  · have hnone : t.nth? i = none := by
      rw [← Option.not_isSome_iff_eq_none, t.isSome_nth?]
      exact hi
    rw [x.getElem?_hosts, hnone]
    rfl

/-- **A scan does not depend on its schedule.** Any two executions that nothing cancels lead to the
same records, and these are what checks of the targets one by one find out. -/
theorem schedule_independent {x y : Execution t} (hx : x.Undisturbed) (hy : y.Undisturbed)
    (hon : x.On s net) (hon' : y.On s net) :
    x.report.hosts = y.report.hosts ∧
      x.report.hosts = t.toList.zipIdx.map fun (address, index) => net.alone s index address :=
  ⟨(hosts_eq_alone hx hon).trans (hosts_eq_alone hy hon').symm, hosts_eq_alone hx hon⟩

/-- A scan of two hosts, where the second check breaks off: one host after the other, or both at
the same time after a refused start, with the second one to end first. -/
theorem schedules_agree :
    let a : Address := ⟨192, 0, 2, 1⟩
    let b : Address := ⟨192, 0, 2, 2⟩
    let s : Settings := { rules := [{ helo := "a", mailFrom := "b", rcptTo := "c" }] }
    let accepts : Script :=
      { send := fun _ => { value := .ok () }
        read := fun _ => { value := .ok { code := 250, text := "" } } }
    let net : Network := { peer := fun _ => accepts.peer, breaks := fun x _ => x = b }
    let outcome : Outcome := .reported (s.recordOf (net.peer a) 0 a false)
    let inTurn : List Move := [.ask, .launched, .finish 0 outcome, .release 0, .ask, .launched,
      .finish 1 .died, .release 1]
    let atOnce : List Move := [.ask, .refused "busy", .ask, .launched, .ask, .launched,
      .finish 1 .died, .finish 0 outcome, .release 0, .release 1]
    ∃ x y : Execution (.list [a, b]), x.moves = inTurn ∧ y.moves = atOnce ∧
      x.report.hosts = y.report.hosts ∧
      x.report.hosts = [net.alone s 0 a, net.alone s 1 b] := by
  intro a b s accepts net outcome inTurn atOnce
  let x : Execution (.list [a, b]) :=
    { retries := 0, limit := 1, moves := inTurn, last := _, run := rfl, done := rfl }
  let y : Execution (.list [a, b]) :=
    { retries := 1, limit := 2, moves := atOnce, last := _, run := rfl, done := rfl }
  have hreported : net.Ends s 0 a outcome false :=
    net.ends_of_calm (by simp [net, a, b]) (by decide +kernel)
  have hdied : net.Ends s 1 b .died false :=
    @Network.Ends.died net s 1 b _ false [] (.refl _) List.nil_prefix (by simp [net])
  have hx : x.On s net := on_of_ends <|
    List.forall_mem_cons.2 ⟨⟨a, rfl, hreported⟩, List.forall_mem_singleton.2 ⟨b, rfl, hdied⟩⟩
  have hy : y.On s net := on_of_ends <|
    List.forall_mem_cons.2 ⟨⟨b, rfl, hdied⟩, List.forall_mem_singleton.2 ⟨a, rfl, hreported⟩⟩
  have hx' : Move.cancel ∉ inTurn := by simp [inTurn]
  have hy' : Move.cancel ∉ atOnce := by simp [atOnce]
  obtain ⟨heq, hall⟩ := schedule_independent ⟨rfl, hx', rfl⟩ ⟨rfl, hy', rfl⟩ hx hy
  exact ⟨x, y, rfl, rfl, heq, hall⟩

end Execution

end OpenRelay
