import OpenRelay.Proofs.Scan.Tries
import OpenRelay.Proofs.Scan.Schedule

/-!
# Starts that are refused

A start may be refused at any time, and is then tried again for the same target, so often and no
more. A scan that has used up all tries for a target is given up: it starts no more tasks, and waits
for those that run.

* `Dispatch.counts_of_run`: how often the start of each task was refused.
* `Dispatch.length_le_of_run`, `Dispatch.Faces.exists_next`: a scan comes to its end.
* `Execution.settled_of_faces`: what becomes of a scan, whichever starts are refused.
-/

namespace OpenRelay

namespace Dispatch

variable {p : Plan} {s s' : State} {m : Move} {moves : List Move} {limit : Nat}
  {refuses : Nat → Bool}

/-! ## How often starts are refused -/

/-- The refusals that a phase counts. A scan that was given up has noted them. -/
def Phase.tried (abandoned : Option Abandoned) : Phase → Nat
  | .admitting _ attempt | .launching _ attempt => attempt.toNat
  | .draining =>
    match abandoned with
    | some a => a.attempts.toNat
    | none => 0

/-- How often the start of the task that is next was refused. -/
def State.tried (s : State) : Nat := s.phase.tried s.abandoned

/-- What is true of the starts after any moves, if nothing but the scan itself cancels it. -/
structure Counts (p : Plan) (start : State) (past : List Move) (s : State) : Prop where
  /-- Each answer is counted, and each start that was not refused is that of a task. -/
  launches : s.launches = (calls p start past).length
  granted : (calls p start past).countP (fun c => !c.2) = s.admitted
  /-- No start was asked for out of turn. -/
  earlier : ∀ c ∈ calls p start past, c.1 ≤ s.admitted
  tried : (calls p start past).count (s.admitted, true) = s.tried
  /-- The tries for all other targets were enough. -/
  spared : ∀ index, index ≠ s.admitted →
    (calls p start past).count (index, true) ≤ p.retries.toNat
  left : s.abandoned = none → s.tried ≤ p.retries.toNat
  spent : ∀ a ∈ s.abandoned, a.attempts.toNat = p.retries.toNat + 1

/-- **How often starts were refused**, after any moves. -/
theorem counts_of_run (hretries : p.retries < 0xFFFFFFFF)
    (h : run p (p.start limit false) moves = some s) (hcalm : .cancel ∉ moves) :
    Counts p (p.start limit false) moves s := by
  have htries := tries_of_run h
  have htracks := tracks_of_run h
  have hover := not_runsOver h hretries
  have htried : refusals p (p.start limit false) moves s.admitted = s.tried := by
    unfold State.tried
    cases hphase : s.phase with
    | admitting index attempt | launching index attempt =>
      exact (attempt_eq_refusals h hover (by simp [hphase, Phase.attempt?])).symm
    | draining =>
      cases hgiven : s.abandoned with
      | some a =>
        obtain ⟨-, hattempts, hall⟩ := htries.spent a hgiven
        exact hall.trans hattempts.symm
      | none =>
        -- only a scan that was given up is cancelled, so all tasks were started
        have hall : s.admitted = p.count := by
          refine (htracks.stopped hphase).resolve_right fun hflag => ?_
          rcases cancelled_cases h hflag with hstart | hcancel | hsome
          · simp [Plan.start] at hstart
          · exact hcalm hcancel
          · simp [hgiven] at hsome
        refine List.count_eq_zero.2 fun hmem => ?_
        exact Nat.lt_irrefl _ (hall ▸ (htries.turn _ hmem).2)
  refine ⟨htries.launches, ?_, fun c hc => (htries.turn c hc).1, htried, fun index hindex => ?_,
    fun hkept => ?_, fun a ha => (htries.spent a ha).2.1⟩
  · rw [List.countP_eq_length_filter, ← List.length_map Prod.fst, htries.granted,
      List.length_range]
  · exact htries.spared hretries index fun heq => absurd heq hindex
  · rw [← htried]
    exact htries.spared hretries s.admitted fun _ => hkept

/-! ## The end of a scan -/

/-- A scan that nothing but itself cancels, and of whose starts just those are refused of which
`refuses` says so, by their number counted from zero. -/
structure Faces (p : Plan) (limit : Nat) (refuses : Nat → Bool) (moves : List Move) (s : State) :
    Prop where
  run : Dispatch.run p (p.start limit false) moves = some s
  calm : .cancel ∉ moves
  answers : (calls p (p.start limit false) moves).map Prod.snd =
    (List.range (calls p (p.start limit false) moves).length).map refuses

theorem Faces.concat (h : Faces p limit refuses moves s) (hstep : step p s m = some s')
    (hm : m ≠ .cancel) (hanswer : ∀ c ∈ answered? s m,
      c.2 = refuses (calls p (p.start limit false) moves).length) :
    Faces p limit refuses (moves ++ [m]) s' where
  run := run_concat.2 ⟨s, h.run, hstep⟩
  calm hmem := by
    rcases List.mem_append.1 hmem with hmem | hmem
    · exact h.calm hmem
    · exact hm (List.mem_singleton.1 hmem).symm
  answers := by
    rw [calls_concat h.run]
    cases hcall : answered? s m with
    | none => simpa using h.answers
    | some c => simp [h.answers, List.range_succ, hanswer c hcall]

/-- **A scan goes on** as long as there is something left to do, whichever starts are refused. -/
theorem Faces.exists_next (h : Faces p limit refuses moves s) (hdone : s.isDone = false) :
    ∃ m s', Faces p limit refuses (moves ++ [m]) s' := by
  by_cases hasked : ∃ index attempt, s.phase = .launching index attempt
  · obtain ⟨index, attempt, hphase⟩ := hasked
    cases hrefuses : refuses (calls p (p.start limit false) moves).length with
    | true =>
      exact ⟨.refused "", refuse p s index attempt "", h.concat (by simp only [step, hphase])
        (by simp) (by simp [answered?, hphase, hrefuses])⟩
    | false =>
      exact ⟨.launched, launch p s index, h.concat (by simp only [step, hphase])
        (by simp) (by simp [answered?, hphase, hrefuses])⟩
  · -- no start is asked for, so any move will do
    obtain ⟨m, hm, hstep⟩ := (held_of_run h.run).exists_move p hdone
    obtain ⟨s', hstep⟩ := Option.isSome_iff_exists.1 hstep
    refine ⟨m, s', h.concat hstep hm fun c hc => (hasked ?_).elim⟩
    exact asked_of_answered hc

/-- **A scan does not go on for ever.** -/
theorem length_le_of_run (hretries : p.retries < 0xFFFFFFFF)
    (h : run p (p.start limit false) moves = some s) (hcalm : .cancel ∉ moves) :
    moves.length + s.ahead p ≤ p.movesPerTarget * p.count := by
  have hown : ∀ m ∈ moves, m.isOwn = true := by
    intro m hm
    cases m with
    | cancel => exact absurd hm hcalm
    | _ => rfl
  have hle := countP_isOwn_le h (not_runsOver h hretries)
  rwa [List.countP_eq_length.2 hown] at hle

/-- A scan that has come to its end is an execution. -/
def Faces.execution {t : Targets} {retries : UInt32}
    (h : Faces { count := t.count, retries } limit refuses moves s) (hdone : s.isDone = true) :
    Execution t :=
  { retries, limit, moves, last := s, run := h.run, done := hdone }

end Dispatch

open Dispatch

namespace Execution

variable {t : Targets} (x : Execution t)

/-- The starts that were asked for, in order: the target, and whether the start was refused. -/
def calls : List (Nat × Bool) := Dispatch.calls x.plan x.first x.moves

/-- How many starts were refused. -/
def refusals : Nat := x.calls.countP (·.2)

/-- How many starts of the task of a target were refused. -/
def refusalsOf (index : Nat) : Nat := x.calls.count (index, true)

/-- What a scan leaves behind that was given up. -/
structure GivenUp (a : Abandoned) : Prop where
  index : a.index = x.starts.length
  attempts : a.attempts.toNat = x.retries.toNat + 1
  launches : x.last.launches = a.index + x.refusals
  cancelled : x.last.cancelled = true ∧ x.report.cancelled = true
  /-- The tasks that were started have ended, and their records are kept. -/
  kept : ∀ i < a.index, ∃ address outcome, t.nth? i = some address ∧
    (i, outcome) ∈ x.endings ∧ x.report.hosts[i]? = some (outcome.settled i address)
  /-- The target at which it was given up was not visited, and that is an error. -/
  unstarted : ∃ address, t.nth? a.index = some address ∧ x.report.hosts[a.index]? = some
    { index := a.index, address, fatalError := true
      error := some ("scan task not started: " ++ a.reason) }
  /-- The targets behind it were not visited, as the scan was cancelled. -/
  later : ∀ i address, a.index < i → t.nth? i = some address →
    x.report.hosts[i]? = some { index := i, address, cancelled := true }

/-- What becomes of a scan, by the starts that are refused. -/
structure Settled (refuses : Nat → Bool) : Prop where
  refused : x.refusals = (List.range x.last.launches).countP refuses
  /-- It is given up if all tries for some target were refused, and only then. -/
  givenUp_iff : x.last.abandoned.isSome ↔
    x.starts.length < t.count ∧ ∃ index, x.refusalsOf index = x.retries.toNat + 1
  givenUp : ∀ a ∈ x.last.abandoned, x.GivenUp a
  /-- Otherwise all tasks were started. -/
  through : x.last.abandoned = none →
    x.starts.length = t.count ∧ x.last.launches = t.count + x.refusals
  /-- No permit stays behind. -/
  permits : x.last.permits.active = 0

theorem length_starts : x.starts.length = x.last.admitted := by
  rw [starts, x.tracks.started, List.length_range]

variable (hcounts : Counts x.plan x.first x.moves x.last)

include hcounts

/-- Each start that was asked for was refused, or was that of a task. -/
theorem launches_eq : x.last.launches = x.last.admitted + x.refusals := by
  rw [hcounts.launches, ← hcounts.granted, List.length_eq_countP_add_countP fun c => !c.2]
  simp [refusals, calls]

/-- All tries for the target at which a scan is given up were refused. -/
theorem refusalsOf_eq {a : Abandoned} (ha : a ∈ x.last.abandoned) :
    x.refusalsOf a.index = x.retries.toNat + 1 ∧ a.attempts.toNat = x.retries.toNat + 1 := by
  obtain ⟨-, hindex, -⟩ := x.tracks.abandoned a ha
  have htried := hcounts.tried
  rw [State.tried, x.draining, Option.mem_def.1 ha] at htried
  rw [hindex]
  exact ⟨htried.trans (hcounts.spent a ha), hcounts.spent a ha⟩

/-- A scan that was not given up got through with each target. -/
theorem refusalsOf_le (hkept : x.last.abandoned = none) (index : Nat) :
    x.refusalsOf index ≤ x.retries.toNat := by
  by_cases hindex : index = x.last.admitted
  · rw [hindex]
    exact Nat.le_trans (Nat.le_of_eq hcounts.tried) (hcounts.left hkept)
  · exact hcounts.spared index hindex

/-- **A scan that was given up** keeps what it found out, and says of each other target why it was
not visited. -/
theorem givenUp {a : Abandoned} (ha : a ∈ x.last.abandoned) : x.GivenUp a := by
  obtain ⟨-, hindex, hlt, hcancelled⟩ := x.tracks.abandoned a ha
  have hunstarted : ∀ i address, a.index ≤ i → t.nth? i = some address →
      x.report.hosts[i]? = some (Dispatch.unstarted (some a) i address) := fun i address hi hnth =>
    Option.mem_def.1 ha ▸ x.getElem?_hosts_of_unstarted hnth (hindex ▸ hi)
  refine ⟨?_, (x.refusalsOf_eq hcounts ha).2, ?_, ⟨hcancelled, hcancelled⟩, ?_, ?_, ?_⟩
  · rw [length_starts, hindex]
  · rw [x.launches_eq hcounts, hindex]
  · intro i hi
    obtain ⟨address, haddress⟩ := t.exists_nth? (Nat.lt_trans (hindex ▸ hi) hlt)
    obtain ⟨⟨_, outcome⟩, hend, rfl⟩ :=
      List.mem_map.1 (x.ends_perm.mem_iff.2 (List.mem_range.2 (hindex ▸ hi)))
    exact ⟨address, outcome, haddress, hend, x.getElem?_hosts_of_ended haddress hend⟩
  · obtain ⟨address, haddress⟩ := t.exists_nth? (hindex ▸ hlt)
    refine ⟨address, haddress, ?_⟩
    rw [hunstarted _ _ (Nat.le_refl _) haddress, Dispatch.unstarted, if_pos rfl]
  · intro i address hi haddress
    rw [hunstarted _ _ (Nat.le_of_lt hi) haddress, Dispatch.unstarted, if_neg (Nat.ne_of_lt hi)]

end Execution

/-- Starts are refused as `refuses` says. -/
theorem Dispatch.Faces.refusals_eq {p : Plan} {limit : Nat} {refuses : Nat → Bool}
    {moves : List Move} {s : State} (h : Faces p limit refuses moves s) :
    (Dispatch.calls p (p.start limit false) moves).countP (·.2) =
      (List.range (Dispatch.calls p (p.start limit false) moves).length).countP refuses := by
  have hcount := congrArg (List.countP id) h.answers
  rwa [List.countP_map, List.countP_map] at hcount

theorem Dispatch.Faces.settled {t : Targets} {retries : UInt32} {limit : Nat}
    {refuses : Nat → Bool} {moves : List Move} {s : State}
    (h : Faces { count := t.count, retries } limit refuses moves s)
    (hretries : retries < 0xFFFFFFFF) (hdone : s.isDone = true) :
    (h.execution hdone).Settled refuses := by
  let x := h.execution hdone
  have hcounts : Counts x.plan x.first x.moves x.last := counts_of_run hretries h.run h.calm
  refine ⟨?_, ⟨fun hsome => ?_, fun ⟨_, index, hall⟩ => ?_⟩, fun a ha => x.givenUp hcounts ha,
    fun hkept => ?_, (held_of_run h.run).active_of_isDone hdone⟩
  · rw [show x.last.launches = _ from hcounts.launches]
    exact h.refusals_eq
  · obtain ⟨a, ha⟩ := Option.isSome_iff_exists.1 hsome
    refine ⟨?_, a.index, (x.refusalsOf_eq hcounts ha).1⟩
    rw [x.length_starts]
    exact (x.tracks.abandoned a ha).2.2.1
  · by_contra hnone
    have hle := x.refusalsOf_le hcounts (Option.not_isSome_iff_eq_none.1 hnone) index
    exact Nat.not_succ_le_self _ (Nat.le_trans (Nat.le_of_eq hall.symm) hle)
  · have hall : x.last.admitted = t.count :=
      Execution.Undisturbed.admitted_eq ⟨rfl, h.calm, hkept⟩
    rw [x.length_starts, x.launches_eq hcounts, hall]
    exact ⟨rfl, rfl⟩

/-- **What becomes of a scan, whichever starts are refused**, whatever its tasks do, and in whatever
order they do it. It takes no more than so many moves, and goes on until nothing is left to do. Then
it has been given up if all tries for some target were refused, and otherwise it has started all
tasks. -/
theorem settled_of_faces {t : Targets} {retries : UInt32} {limit : Nat} {refuses : Nat → Bool}
    {moves : List Move} {s : State} (hretries : retries < 0xFFFFFFFF)
    (h : Faces { count := t.count, retries } limit refuses moves s) :
    moves.length ≤ 2 * (retries.toNat + 2) * t.count ∧
      (s.isDone = false →
        ∃ m s', Faces { count := t.count, retries } limit refuses (moves ++ [m]) s') ∧
      ∀ hdone : s.isDone = true, (h.execution hdone).Settled refuses := by
  refine ⟨?_, h.exists_next, h.settled hretries⟩
  exact Nat.le_trans (Nat.le_add_right _ _) (length_le_of_run hretries h.run h.calm)

/-- One start refused and tried again, then two tasks that end out of order, and a target that is
given up after two tries. -/
theorem settled_after_refusals :
    let t : Targets := .list [⟨192, 0, 2, 1⟩, ⟨192, 0, 2, 2⟩, ⟨192, 0, 2, 3⟩, ⟨192, 0, 2, 4⟩]
    let refuses : Nat → Bool := fun n => n == 0 || 3 ≤ n
    ∃ moves s, ∃ h : Faces { count := t.count, retries := 1 } 2 refuses moves s,
      ∃ hdone : s.isDone = true, s.abandoned = some ⟨2, 2, "busy"⟩ ∧ s.launches = 5 ∧
        (h.execution hdone).Settled refuses := by
  intro t refuses
  let moves : List Move :=
    [.ask, .refused "busy", .ask, .launched, .ask, .launched, .finish 1 .died, .release 1, .ask,
      .refused "busy", .finish 0 (.reported { index := 0, address := ⟨192, 0, 2, 1⟩ }), .ask,
      .refused "busy", .release 0]
  have h : Faces { count := t.count, retries := 1 } 2 refuses moves _ :=
    ⟨rfl, by simp [moves], rfl⟩
  exact ⟨moves, _, h, rfl, rfl, rfl, (settled_of_faces (by decide) h).2.2 rfl⟩

end OpenRelay
