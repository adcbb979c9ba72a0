import OpenRelay.Proofs.Scan.Ledger
import OpenRelay.Proofs.Scan.Moves

/-!
# The report of a scan is complete

An execution is a sequence of moves that leads a scan from its start to where nothing is left to
do: tasks end in any order and with any outcome, starts are refused at any time, and the scan is
cancelled at any time.

* `Execution.report_complete`: the report accounts for every target, and loses nothing that a task
  sent.
-/

namespace OpenRelay

open Dispatch

/-- An execution of a scan. -/
structure Execution (t : Targets) where
  retries : UInt32
  limit : Nat
  /-- Whether the scan was cancelled before its first move. -/
  cancelled : Bool := false
  moves : List Move
  last : State
  run : Dispatch.run { count := t.count, retries }
    (Plan.start { count := t.count, retries } limit cancelled) moves = some last
  done : last.isDone = true

/-- The record of a host whose task has ended. -/
def Outcome.settled (index : Nat) (address : Address) : Outcome → HostRecord
  | .reported record => record.placed index address
  | .died => vanished index address

namespace Execution

variable {t : Targets} (x : Execution t) {i k : Nat} {address : Address} {outcome : Outcome}

/-- What is fixed for the execution. -/
def plan : Plan := { count := t.count, retries := x.retries }

/-- The scan before the first move. -/
def first : State := x.plan.start x.limit x.cancelled

/-- The tasks that were started, in order. -/
def starts : List Nat := Dispatch.starts x.plan x.first x.moves

/-- The tasks that have ended, in order, and how they ended. -/
def endings : List (Nat × Outcome) := Dispatch.endings x.moves

/-- The report that the execution leads to. -/
def report : Report := Dispatch.report t x.last

/-- What the report of an execution says, when tasks were started for the first `k` targets. -/
structure Complete (k : Nat) : Prop where
  /-- There is one record for each target, at its place. -/
  places : x.report.hosts.map (fun h => (h.address, h.index)) = t.toList.zipIdx
  length : x.report.hosts.length = t.count
  /-- Each of the first targets gets one task, in the order of the targets. -/
  starts : x.starts = List.range k
  /-- Each of these tasks ends once, and no other does. -/
  ends : (x.endings.map Prod.fst).Perm (List.range k)
  /-- No record that a task sent is turned down. -/
  taken : ∀ before after index record, x.last.sent = before ++ (index, record) :: after →
    ∃ l, ((Ledger.ofTargets t).enterAll before).complete index record = .ok l
  /-- A task that has ended leaves what its end says. -/
  ended : ∀ index address outcome, t.nth? index = some address →
    (index, outcome) ∈ x.endings →
    x.report.hosts[index]? = some (outcome.settled index address)
  /-- A target without a task is left unvisited. -/
  unstarted : ∀ index address, k ≤ index → t.nth? index = some address →
    x.report.hosts[index]? = some (unstarted x.last.abandoned index address)
  /-- Only the task that was next can have used up all tries. -/
  abandoned : ∀ a ∈ x.last.abandoned, a.index = k

theorem tracks : Tracks x.plan x.first x.moves x.last := tracks_of_run x.run

theorem draining : x.last.phase = .draining := (isDone_iff.1 x.done).1

/-- All tasks that were started have ended. -/
theorem ends_perm : (x.endings.map Prod.fst).Perm (List.range x.last.admitted) := by
  have htasks := x.tracks.tasks
  rwa [(isDone_iff.1 x.done).2.1, List.nil_append] at htasks

theorem nodup_ends : (x.endings.map Prod.fst).Nodup :=
  x.ends_perm.nodup_iff.2 List.nodup_range

/-- The records of an execution, place by place. -/
theorem getElem?_hosts (i : Nat) : x.report.hosts[i]? = (t.nth? i).map fun address =>
    match (records x.endings).lookup i with
    | some r => r.placed i address
    | none =>
      if i < x.last.admitted then vanished i address
      else Dispatch.unstarted x.last.abandoned i address := by
  have hless : ∀ a ∈ x.last.abandoned, x.last.admitted ≤ a.index :=
    fun a ha => Nat.le_of_eq (x.tracks.abandoned a ha).2.1.symm
  have hledger := get?_ledger t hless i
  rw [x.tracks.sent] at hledger
  rw [report, Dispatch.report, Array.getElem?_toList]
  exact hledger

theorem getElem?_hosts_of_ended (hi : t.nth? i = some address) (h : (i, outcome) ∈ x.endings) :
    x.report.hosts[i]? = some (outcome.settled i address) := by
  have hlt : i < x.last.admitted :=
    List.mem_range.1 (x.ends_perm.mem_iff.1 (List.mem_map_of_mem h))
  rw [x.getElem?_hosts, hi, lookup_records x.nodup_ends h]
  cases outcome with
  | reported r => rfl
  | died => simp [Outcome.record?, Outcome.settled, hlt]

theorem getElem?_hosts_of_unstarted (hi : t.nth? i = some address) (h : x.last.admitted ≤ i) :
    x.report.hosts[i]? = some (Dispatch.unstarted x.last.abandoned i address) := by
  have hnone : i ∉ x.endings.map Prod.fst := fun hmem =>
    Nat.not_lt.2 h (List.mem_range.1 (x.ends_perm.mem_iff.1 hmem))
  rw [x.getElem?_hosts, hi, lookup_records_eq_none hnone]
  simp [Nat.not_lt.2 h]

/-- The hosts of a report are those whose tasks have ended and those that got none. -/
theorem mem_hosts {h : HostRecord} (hmem : h ∈ x.report.hosts) :
    ∃ index address, t.nth? index = some address ∧
      ((∃ outcome, (index, outcome) ∈ x.endings ∧ h = outcome.settled index address) ∨
        (x.last.admitted ≤ index ∧ h = Dispatch.unstarted x.last.abandoned index address)) := by
  obtain ⟨i, hi⟩ := List.mem_iff_getElem?.1 hmem
  rw [x.getElem?_hosts] at hi
  obtain ⟨address, haddress, -⟩ := Option.map_eq_some_iff.1 hi
  rw [← x.getElem?_hosts] at hi
  refine ⟨i, address, haddress, ?_⟩
  by_cases hlt : i < x.last.admitted
  · obtain ⟨⟨_, outcome⟩, hend, rfl⟩ :=
      List.mem_map.1 (x.ends_perm.mem_iff.2 (List.mem_range.2 hlt))
    rw [x.getElem?_hosts_of_ended haddress hend] at hi
    exact Or.inl ⟨outcome, hend, (Option.some.inj hi).symm⟩
  · rw [x.getElem?_hosts_of_unstarted haddress (Nat.le_of_not_lt hlt)] at hi
    exact Or.inr ⟨Nat.le_of_not_lt hlt, (Option.some.inj hi).symm⟩

theorem admitted_le : x.last.admitted ≤ t.count := by
  have hphase := x.tracks.phase
  rwa [x.draining] at hphase

theorem places : x.report.hosts.map (fun h => (h.address, h.index)) = t.toList.zipIdx := by
  refine List.ext_getElem? fun i => ?_
  rw [List.getElem?_map, List.getElem?_zipIdx, t.getElem?_toList, x.getElem?_hosts, Option.map_map,
    Nat.zero_add]
  congr 1
  funext address
  simp only [Function.comp_apply, HostRecord.placed, vanished, Dispatch.unstarted]
  -- whichever record stands at the place, it carries the place and the target
  split
  · rfl
  · split
    · rfl
    · split
      · split <;> rfl
      · rfl

/-- A record that a task sends comes to an empty place. -/
theorem taken {before after : List (Nat × HostRecord)} {index : Nat} {record : HostRecord}
    (h : x.last.sent = before ++ (index, record) :: after) :
    ∃ l, ((Ledger.ofTargets t).enterAll before).complete index record = .ok l := by
  have hkeys : (x.last.sent.map Prod.fst).Sublist (x.endings.map Prod.fst) :=
    x.tracks.sent ▸ sublist_records x.endings
  have honce := hkeys.nodup x.nodup_ends
  rw [h, List.map_append, List.map_cons, List.perm_middle.nodup_iff, List.nodup_cons] at honce
  have hmem : index ∈ x.endings.map Prod.fst := hkeys.subset (by simp [h])
  have hlt := List.mem_range.1 (x.ends_perm.mem_iff.1 hmem)
  exact Ledger.exists_complete (Nat.lt_of_lt_of_le hlt x.admitted_le)
    (fun hold => honce.1 (List.mem_append_left _ hold)) record

/-- **The report of a scan is complete**, whatever the order of its moves. -/
theorem report_complete : ∃ k ≤ t.count, x.Complete k := by
  refine ⟨x.last.admitted, x.admitted_le, ?_⟩
  have hlength : x.report.hosts.length = t.count := by
    simpa [t.length_toList] using congrArg List.length x.places
  exact {
    places := x.places
    length := hlength
    starts := x.tracks.started
    ends := x.ends_perm
    taken := fun _ _ _ _ h => x.taken h
    ended := fun _ _ _ hi h => x.getElem?_hosts_of_ended hi h
    unstarted := fun _ _ h hi => x.getElem?_hosts_of_unstarted hi h
    abandoned := fun a ha => (x.tracks.abandoned a ha).2.1 }

/-- A start that is refused, tasks that end out of order, one of them without a record, and a target
that is given up. -/
theorem complete_out_of_order : ∃ x : Execution (.list
      [⟨192, 0, 2, 1⟩, ⟨192, 0, 2, 2⟩, ⟨192, 0, 2, 3⟩, ⟨192, 0, 2, 4⟩]),
    x.starts = [0, 1] ∧ x.endings.map Prod.fst = [1, 0] ∧
      x.report.hosts.map (·.fatalError) = [false, true, true, false] ∧ ∃ k, x.Complete k := by
  let record : HostRecord := .pending 0 ⟨192, 0, 2, 1⟩
  let last : State :=
    { phase := .draining, permits := { limit := 2, peak := 2 }, sent := [(0, record)]
      admitted := 2, launches := 5, cancelled := true, abandoned := some ⟨2, 2, "busy"⟩ }
  let moves : List Move :=
    [.ask, .refused "busy", .ask, .launched, .ask, .launched, .finish 1 .died, .release 1, .ask,
      .refused "busy", .finish 0 (.reported record), .ask, .refused "busy", .release 0]
  refine ⟨{ retries := 1, limit := 2, moves, last, run := rfl, done := rfl }, rfl, rfl,
    by decide +kernel, ?_⟩
  obtain ⟨k, -, h⟩ := report_complete _
  exact ⟨k, h⟩

end Execution

end OpenRelay
