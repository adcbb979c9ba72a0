import OpenRelay.Proofs.Scan.Moves

/-!
# The permits of a scan

A permit is out for each task from before its start until it gives the permit back, whether the
start is refused, the task breaks off, or the scan is cancelled.

* `Dispatch.Goes.passes`: what each move does to the permits and to those who hold them.
* `Dispatch.held_of_run`: the permits out are those held by the admitting side and by tasks.
* `Dispatch.Held.exists_move`: so a scan with something left to do is never stuck.
-/

namespace OpenRelay.Dispatch

variable {p : Plan} {s s' : State} {m : Move} {moves : List Move} {limit : Nat} {cancelled : Bool}

/-- The permits that the admitting side holds. -/
def Phase.holds : Phase → Nat
  | .launching _ _ => 1
  | .admitting _ _ | .draining => 0

/-- The permits that are held, on the admitting side and by tasks. -/
def State.holders (s : State) : Nat := s.phase.holds + s.running.length + s.leaving.length

/-- The permits out are those that are held, and they are within the limit. -/
structure Held (s : State) : Prop where
  active : s.permits.active = s.holders
  within : s.permits.active ≤ s.permits.limit
  limit : 0 < s.permits.limit

theorem holds_turnTo (p : Plan) (index : Nat) : (p.turnTo index).holds = 0 := by
  unfold Plan.turnTo
  split <;> rfl

theorem held_start (p : Plan) (limit : Nat) (cancelled : Bool) :
    Held (p.start limit cancelled) where
  active := by simp [State.holders, Plan.start, Permits.ofLimit, holds_turnTo]
  within := Nat.zero_le _
  limit := Nat.lt_of_lt_of_le Nat.zero_lt_one (Nat.le_max_right _ _)

/-- Whether a move gives a permit back. -/
def Move.returns : Move → Bool
  | .refused _ | .release _ => true
  | .ask | .launched | .finish _ _ | .cancel => false

/-- What a move does to the permits: one is handed out, one comes back, or all stay where they
are. -/
inductive Passes (s : State) (m : Move) (s' : State) : Prop where
  | handed (hkind : m.returns = false) (hflag : s.cancelled = false)
      (hfree : s.permits.active < s.permits.limit)
      (hpermits : s'.permits = { s.permits with
        active := s.permits.active + 1, peak := max s.permits.peak (s.permits.active + 1) })
      (hholders : s'.holders = s.holders + 1)
  | returned (hpermits : s'.permits = s.permits.release) (hholders : s'.holders + 1 = s.holders)
  | kept (hkind : m.returns = false) (hpermits : s'.permits = s.permits)
      (hholders : s'.holders = s.holders)

/-- **A permit passes with each move as its holder does.** -/
theorem Goes.passes (h : Goes p s m s') : Passes s m s' := by
  cases h with
  | granted hat hflag hfree =>
    refine .handed rfl hflag hfree rfl ?_
    simp only [State.holders, hat, Phase.holds]
    omega
  | denied hat _ => exact .kept rfl rfl (by simp only [State.holders, hat, Phase.holds])
  | launched hat =>
    refine .kept rfl rfl ?_
    simp only [State.holders, launch, holds_turnTo, List.length_append, List.length_singleton]
    rw [hat, Phase.holds]
    omega
  | retried hat _ =>
    refine .returned rfl ?_
    simp only [State.holders, hat, Phase.holds]
    omega
  | gaveUp hat _ =>
    refine .returned rfl ?_
    simp only [State.holders, hat, Phase.holds]
    omega
  | finished hrunning =>
    have hlength := List.length_erase_of_mem hrunning
    have hpos := List.length_pos_of_mem hrunning
    refine .kept rfl rfl ?_
    simp only [State.holders, finish, List.length_append, List.length_singleton]
    omega
  | released hleaving =>
    have hlength := List.length_erase_of_mem hleaving
    have hpos := List.length_pos_of_mem hleaving
    refine .returned rfl ?_
    simp only [State.holders]
    omega
  | cancelled => exact .kept rfl rfl rfl

/-- A permit that comes back is one of those that are out. -/
theorem Held.active_release (h : Held s) (hpos : 0 < s.holders) :
    s.permits.release.active + 1 = s.permits.active :=
  Nat.sub_add_cancel (h.active ▸ hpos)

/-- **Each move keeps the permits with their holders.** -/
theorem Held.move (h : Held s) (hgoes : Goes p s m s') : Held s' := by
  have hactive := h.active
  have hwithin := h.within
  have hlimit := h.limit
  cases hgoes.passes with
  | handed _ _ hfree hpermits hholders =>
    rw [← hactive] at hholders
    exact ⟨by rw [hpermits, hholders], by rw [hpermits]; exact hfree, by rw [hpermits]; exact hlimit⟩
  | returned hpermits hholders =>
    have hrelease := h.active_release (by omega)
    have hlower : s.permits.release.active ≤ s.permits.limit := by omega
    refine ⟨?_, by rw [hpermits]; exact hlower, by rw [hpermits]; exact hlimit⟩
    rw [hpermits]
    omega
  | kept _ hpermits hholders =>
    exact ⟨by rw [hpermits, hholders, hactive], by rwa [hpermits], by rwa [hpermits]⟩

/-- **The permits out are those that are held**, after any moves. -/
theorem held_of_run (h : run p (p.start limit cancelled) moves = some s) : Held s :=
  run_induction (motive := fun _ s => Held s) (held_start p limit cancelled)
    (fun _ _ _ _ _ hs hgoes => hs.move hgoes) h

/-- When nothing is left to do, all permits are back. -/
theorem Held.active_of_isDone (h : Held s) (hdone : s.isDone = true) : s.permits.active = 0 := by
  obtain ⟨hphase, hrunning, hleaving⟩ := isDone_iff.1 hdone
  rw [h.active, State.holders, hphase, hrunning, hleaving]
  rfl

/-- A task that holds a permit has a move. -/
theorem exists_move_of_task (p : Plan) (h : 0 < s.running.length + s.leaving.length) :
    ∃ m, m ≠ .cancel ∧ (step p s m).isSome := by
  cases hrunning : s.running with
  | cons index rest => exact ⟨.finish index .died, by simp, by simp [step, hrunning]⟩
  | nil =>
    cases hleaving : s.leaving with
    | cons index rest => exact ⟨.release index, by simp, by simp [step, hleaving]⟩
    | nil => simp [hrunning, hleaving] at h

/-- **A scan with something left to do is never stuck**: its admitting side can go on, or waits for
a permit that some task holds. -/
theorem Held.exists_move (h : Held s) (p : Plan) (hdone : s.isDone = false) :
    ∃ m, m ≠ .cancel ∧ (step p s m).isSome := by
  cases hphase : s.phase with
  | launching index attempt => exact ⟨.launched, by simp, by simp [step, hphase]⟩
  | admitting index attempt =>
    by_cases hgoes : s.cancelled = true ∨ s.permits.active < s.permits.limit
    · refine ⟨.ask, by simp, ?_⟩
      rcases hgoes with hflag | hfree
      · simp [step, hphase, ask, Permits.acquire, hflag]
      · cases hflag : s.cancelled <;>
          simp [step, hphase, ask, Permits.acquire, hflag, Permits.tryAcquire, hfree]
    · have hactive := h.active
      have hlimit := h.limit
      rw [State.holders, hphase, Phase.holds] at hactive
      exact exists_move_of_task p (by omega)
  | draining =>
    refine exists_move_of_task p (Nat.pos_of_ne_zero fun hnone => ?_)
    obtain ⟨hrunning, hleaving⟩ := Nat.add_eq_zero_iff.1 hnone
    have hall := isDone_iff.2
      ⟨hphase, List.length_eq_zero_iff.1 hrunning, List.length_eq_zero_iff.1 hleaving⟩
    rw [hdone] at hall
    cases hall

end OpenRelay.Dispatch
