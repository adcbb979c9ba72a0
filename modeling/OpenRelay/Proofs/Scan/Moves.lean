import Mathlib.Data.List.Induction
import OpenRelay.Scan.Dispatch

/-!
# The moves of a scan

What each move does is said once, by `Dispatch.Goes`; what holds after any moves follows by
induction on them.

* `Dispatch.goes_of_step`: every step is one of these moves.
* `Dispatch.run_induction`: what holds at the start and is kept by each move holds after all.
* `Dispatch.tracks_of_run`: which tasks were started, which have ended, and what they sent.
-/

namespace OpenRelay

/-- The record that a task sends when it ends. -/
def Outcome.record? : Outcome → Option HostRecord
  | .reported record => some record
  | .died => none

namespace Dispatch

variable {p : Plan} {s s' start : State} {m : Move} {moves past : List Move}

/-! ## One move -/

/-- What a move does, for each way in which it can go. -/
inductive Goes (p : Plan) (s : State) : Move → State → Prop where
  | granted {index : Nat} {attempt : UInt32} (hphase : s.phase = .admitting index attempt)
      (hflag : s.cancelled = false) (hfree : s.permits.active < s.permits.limit) :
      Goes p s .ask { s with
        phase := .launching index attempt
        permits := { s.permits with
          active := s.permits.active + 1, peak := max s.permits.peak (s.permits.active + 1) } }
  | denied {index : Nat} {attempt : UInt32} (hphase : s.phase = .admitting index attempt)
      (hflag : s.cancelled = true) : Goes p s .ask { s with phase := .draining }
  | launched {index : Nat} {attempt : UInt32} (hphase : s.phase = .launching index attempt) :
      Goes p s .launched (launch p s index)
  | retried {index : Nat} {attempt : UInt32} {reason : String}
      (hphase : s.phase = .launching index attempt) (hleft : attempt + 1 ≤ p.retries) :
      Goes p s (.refused reason) { s with
        permits := s.permits.release, launches := s.launches + 1
        phase := .admitting index (attempt + 1) }
  | gaveUp {index : Nat} {attempt : UInt32} {reason : String}
      (hphase : s.phase = .launching index attempt) (hout : p.retries < attempt + 1) :
      Goes p s (.refused reason) { s with
        permits := s.permits.release, launches := s.launches + 1, phase := .draining
        cancelled := true, abandoned := some { index, attempts := attempt + 1, reason } }
  | finished {index : Nat} {outcome : Outcome} (hrunning : index ∈ s.running) :
      Goes p s (.finish index outcome) (finish s index outcome)
  | released {index : Nat} (hleaving : index ∈ s.leaving) :
      Goes p s (.release index)
        { s with leaving := s.leaving.erase index, permits := s.permits.release }
  | cancelled : Goes p s .cancel { s with cancelled := true }

/-- **Every step is one of the moves.** -/
theorem goes_of_step (h : step p s m = some s') : Goes p s m s' := by
  cases m with
  | ask =>
    simp only [step] at h
    split at h
    case h_2 => cases h
    next index attempt hphase =>
      unfold ask Permits.acquire at h
      by_cases hflag : s.cancelled = true
      · rw [if_pos hflag] at h
        exact Option.some.inj h ▸ .denied hphase hflag
      · rw [if_neg hflag, Permits.tryAcquire] at h
        by_cases hfree : s.permits.active < s.permits.limit
        · rw [if_pos hfree] at h
          exact Option.some.inj h ▸ .granted hphase (Bool.eq_false_iff.2 hflag) hfree
        · rw [if_neg hfree] at h
          cases h
  | launched =>
    simp only [step] at h
    split at h
    case h_2 => cases h
    next index attempt hphase => exact Option.some.inj h ▸ .launched hphase
  | refused reason =>
    simp only [step] at h
    split at h
    case h_2 => cases h
    next index attempt hphase =>
      obtain rfl := Option.some.inj h
      by_cases hout : p.retries < attempt + 1
      · simpa only [refuse, if_pos hout] using Goes.gaveUp hphase hout
      · simpa only [refuse, if_neg hout] using Goes.retried hphase (UInt32.not_lt.1 hout)
  | finish index outcome =>
    simp only [step] at h
    split at h
    next hrunning => exact Option.some.inj h ▸ .finished hrunning
    next => cases h
  | release index =>
    simp only [step] at h
    split at h
    next hleaving => exact Option.some.inj h ▸ .released hleaving
    next => cases h
  | cancel => exact Option.some.inj h ▸ .cancelled

theorem isDone_iff : s.isDone = true ↔ s.phase = .draining ∧ s.running = [] ∧ s.leaving = [] := by
  simp [State.isDone, and_assoc]

/-! ## Any moves -/

theorem run_append (p : Plan) (s : State) (moves more : List Move) :
    run p s (moves ++ more) = (run p s moves).bind fun s => run p s more := by
  induction moves generalizing s with
  | nil => rfl
  | cons m moves ih =>
    simp only [List.cons_append, run, Option.bind_assoc]
    congr 1
    funext s'
    exact ih s'

theorem run_concat : run p s (moves ++ [m]) = some s' ↔
    ∃ s₁, run p s moves = some s₁ ∧ step p s₁ m = some s' := by
  rw [run_append, Option.bind_eq_some_iff]
  simp only [run, Option.bind_fun_some]

/-- **Induction over the moves of a scan**, with all that happened before at hand. -/
theorem run_induction {motive : List Move → State → Prop} (h0 : motive [] start)
    (hmove : ∀ past s m s', run p start past = some s → motive past s → Goes p s m s' →
      motive (past ++ [m]) s') (h : run p start moves = some s) : motive moves s := by
  induction moves using List.reverseRecOn generalizing s with
  | nil => exact Option.some.inj h ▸ h0
  | append_singleton moves m ih =>
    obtain ⟨s₁, hrun, hstep⟩ := run_concat.1 h
    exact hmove moves s₁ m s hrun (ih hrun) (goes_of_step hstep)

/-- A scan that was cancelled stays so. -/
theorem cancelled_run (h : run p start moves = some s) (hstart : start.cancelled = true) :
    s.cancelled = true := by
  refine run_induction (motive := fun _ s => s.cancelled = true) hstart
    (fun past s m s' _ hs hgoes => ?_) h
  cases hgoes with
  | gaveUp => rfl
  | cancelled => rfl
  | _ => exact hs

/-- **What cancels a scan**: it was cancelled before, or a move cancels it, or it gives up. -/
theorem cancelled_cases (h : run p start moves = some s) (hs : s.cancelled = true) :
    start.cancelled = true ∨ .cancel ∈ moves ∨ s.abandoned.isSome := by
  refine run_induction (motive := fun past s => s.cancelled = true →
    start.cancelled = true ∨ .cancel ∈ past ∨ s.abandoned.isSome) Or.inl
    (fun past s m s' _ ih hgoes hs => ?_) h hs
  have hlater : .cancel ∈ past → .cancel ∈ past ++ [m] := fun hc => List.mem_append_left _ hc
  cases hgoes with
  | gaveUp => exact Or.inr (Or.inr rfl)
  | cancelled => exact Or.inr (Or.inl (by simp))
  | _ => exact (ih hs).imp_right fun h => h.imp_left hlater

/-! ## What moves say about tasks -/

/-- The task that a move starts. -/
def started? (s : State) : Move → Option Nat
  | .launched =>
    match s.phase with
    | .launching index _ => some index
    | _ => none
  | _ => none

/-- The tasks that moves start, in order. -/
def starts (p : Plan) (s : State) : List Move → List Nat
  | [] => []
  | m :: moves =>
    (started? s m).toList ++
      match step p s m with
      | some s => starts p s moves
      | none => []

/-- The task that ends with a move, and how it ends. -/
def Move.ending? : Move → Option (Nat × Outcome)
  | .finish index outcome => some (index, outcome)
  | _ => none

/-- The tasks that end with moves, in order, and how they end. -/
def endings (moves : List Move) : List (Nat × Outcome) := moves.filterMap Move.ending?

/-- The records that tasks send when they end. -/
def records (ends : List (Nat × Outcome)) : List (Nat × HostRecord) :=
  ends.filterMap fun x => x.2.record?.map (x.1, ·)

theorem starts_concat (h : run p start past = some s) (m : Move) :
    starts p start (past ++ [m]) = starts p start past ++ (started? s m).toList := by
  induction past generalizing start with
  | nil =>
    obtain rfl := Option.some.inj h
    cases hstep : step p start m <;> simp [starts, hstep]
  | cons m₀ past ih =>
    obtain ⟨s₁, hstep, hrun⟩ := Option.bind_eq_some_iff.1 h
    simp only [List.cons_append, starts, hstep, ih hrun, List.append_assoc]

theorem endings_append (moves more : List Move) :
    endings (moves ++ more) = endings moves ++ endings more :=
  List.filterMap_append

theorem records_append (ends more : List (Nat × Outcome)) :
    records (ends ++ more) = records ends ++ records more :=
  List.filterMap_append

/-- A task sends no more than one record for each of its ends. -/
theorem sublist_records (ends : List (Nat × Outcome)) :
    ((records ends).map Prod.fst).Sublist (ends.map Prod.fst) := by
  induction ends with
  | nil => exact .slnil
  | cons e ends ih =>
    obtain ⟨index, record | _⟩ := e
    · exact ih.cons_cons index
    · exact ih.cons index

theorem lookup_records_eq_none {ends : List (Nat × Outcome)} {index : Nat}
    (h : index ∉ ends.map Prod.fst) : (records ends).lookup index = none := by
  refine List.lookup_eq_none_iff.2 fun x hx => bne_iff_ne.2 ?_
  obtain ⟨e, he, hrecord⟩ := List.mem_filterMap.1 hx
  obtain ⟨r, -, rfl⟩ := Option.map_eq_some_iff.1 hrecord
  rintro rfl
  exact h (List.mem_map_of_mem he)

/-- A task that ends once sends what its end says. -/
theorem lookup_records {ends : List (Nat × Outcome)} {index : Nat} {outcome : Outcome}
    (honce : (ends.map Prod.fst).Nodup) (h : (index, outcome) ∈ ends) :
    (records ends).lookup index = outcome.record? := by
  obtain ⟨before, after, rfl⟩ := List.append_of_mem h
  rw [List.map_append, List.map_cons, List.perm_middle.nodup_iff, List.nodup_cons] at honce
  -- the other ends are of other tasks
  have hother := not_or.1 (mt List.mem_append.2 honce.1)
  rw [records_append, List.lookup_append, lookup_records_eq_none hother.1, Option.none_or]
  cases outcome with
  | reported r => simp [records, Outcome.record?]
  | died =>
    show (records after).lookup index = none
    exact lookup_records_eq_none hother.2

/-! ## Where tasks stand -/

/-- How the phase goes with the number of tasks that were started. -/
def Phase.Fits (p : Plan) (admitted : Nat) : Phase → Prop
  | .admitting index _ | .launching index _ => index = admitted ∧ index < p.count
  | .draining => admitted ≤ p.count

/-- What is true of a scan after any moves: tasks were started for the first targets, each once and
in their order, each of them either runs or has ended, and what tasks sent came in. -/
structure Tracks (p : Plan) (start : State) (past : List Move) (s : State) : Prop where
  phase : s.phase.Fits p s.admitted
  started : starts p start past = List.range s.admitted
  tasks : (s.running ++ (endings past).map Prod.fst).Perm (List.range s.admitted)
  sent : s.sent = records (endings past)
  abandoned : ∀ a ∈ s.abandoned,
    s.phase = .draining ∧ a.index = s.admitted ∧ s.admitted < p.count ∧ s.cancelled = true
  stopped : s.phase = .draining → s.admitted = p.count ∨ s.cancelled = true

theorem fits_turnTo (p : Plan) {n : Nat} (h : n ≤ p.count) : (p.turnTo n).Fits p n := by
  unfold Plan.turnTo
  split
  case isTrue hlt => exact ⟨rfl, hlt⟩
  case isFalse => exact h

theorem turnTo_eq_draining {n : Nat} (h : p.turnTo n = .draining) : p.count ≤ n := by
  unfold Plan.turnTo at h
  split at h
  case isTrue => cases h
  case isFalse hle => exact Nat.le_of_not_lt hle

theorem tracks_start (p : Plan) (limit : Nat) (cancelled : Bool) :
    Tracks p (p.start limit cancelled) [] (p.start limit cancelled) where
  phase := fits_turnTo p (Nat.zero_le _)
  started := rfl
  tasks := List.Perm.refl _
  sent := rfl
  abandoned := by simp [Plan.start]
  stopped h := Or.inl (Nat.le_antisymm (Nat.zero_le _) (turnTo_eq_draining h))

/-- A scan that still starts tasks has not given up. -/
theorem Tracks.living (h : Tracks p start past s) (hphase : s.phase ≠ .draining) :
    s.abandoned = none :=
  Option.eq_none_iff_forall_not_mem.2 fun a ha => hphase (h.abandoned a ha).1

/-- A task that is started runs. -/
theorem Tracks.tasks_launched (h : Tracks p start past s) :
    (s.running ++ [s.admitted] ++ (endings past).map Prod.fst).Perm
      (List.range (s.admitted + 1)) := by
  rw [List.range_succ, List.append_assoc, List.singleton_append]
  exact List.perm_middle.trans ((h.tasks.cons _).trans (List.perm_append_singleton _ _).symm)

/-- A task that ends has run before. -/
theorem Tracks.tasks_finished {index : Nat} (h : Tracks p start past s) (hi : index ∈ s.running) :
    (s.running.erase index ++ ((endings past).map Prod.fst ++ [index])).Perm
      (List.range s.admitted) :=
  calc s.running.erase index ++ ((endings past).map Prod.fst ++ [index])
    _ = s.running.erase index ++ (endings past).map Prod.fst ++ [index] := by
      rw [List.append_assoc]
    List.Perm _ (index :: (s.running.erase index ++ (endings past).map Prod.fst)) :=
      List.perm_append_singleton _ _
    List.Perm _ (s.running ++ (endings past).map Prod.fst) :=
      (List.perm_cons_erase hi).symm.append_right _
    List.Perm _ (List.range s.admitted) := h.tasks

/-- A move that neither starts nor ends a task leaves the lists of tasks as they are. -/
theorem Tracks.keep (h : Tracks p start past s) (hrun : run p start past = some s)
    (hstart : started? s m = none) (hend : m.ending? = none)
    (hadmitted : s'.admitted = s.admitted) (hrunning : s'.running = s.running)
    (hsent : s'.sent = s.sent) (hphase : s'.phase.Fits p s.admitted)
    (habandoned : ∀ a ∈ s'.abandoned,
      s'.phase = .draining ∧ a.index = s.admitted ∧ s.admitted < p.count ∧ s'.cancelled = true)
    (hstopped : s'.phase = .draining → s.admitted = p.count ∨ s'.cancelled = true) :
    Tracks p start (past ++ [m]) s' := by
  have hends : endings (past ++ [m]) = endings past := by simp [endings, hend]
  have hstarts : starts p start (past ++ [m]) = List.range s.admitted := by
    rw [starts_concat hrun, hstart, h.started, Option.toList_none, List.append_nil]
  refine ⟨?_, ?_, ?_, ?_, ?_, ?_⟩
  · rwa [hadmitted]
  · rw [hstarts, hadmitted]
  · rw [hends, hrunning, hadmitted]
    exact h.tasks
  · rw [hends, hsent]
    exact h.sent
  · rwa [hadmitted]
  · rwa [hadmitted]

/-- **Each move keeps track.** -/
theorem Tracks.move (h : Tracks p start past s) (hrun : run p start past = some s)
    (hgoes : Goes p s m s') : Tracks p start (past ++ [m]) s' := by
  have hphase := h.phase
  have hliving := h.living
  cases hgoes with
  | granted hat =>
    rw [hat] at hphase hliving
    refine h.keep hrun rfl rfl rfl rfl rfl hphase ?_ nofun
    simp [hliving (by simp)]
  | denied hat hflag =>
    rw [hat] at hphase hliving
    have hle : s.admitted ≤ p.count := hphase.1 ▸ Nat.le_of_lt hphase.2
    refine h.keep hrun rfl rfl rfl rfl rfl hle ?_ fun _ => Or.inr hflag
    simp [hliving (by simp)]
  | @launched index attempt hat =>
    rw [hat] at hphase hliving
    obtain ⟨rfl, hlt⟩ := hphase
    have hends : endings (past ++ [.launched]) = endings past := by simp [endings, Move.ending?]
    refine ⟨fits_turnTo p hlt, ?_, ?_, ?_, ?_, fun hdone => Or.inl ?_⟩
    · rw [starts_concat hrun, h.started]
      simp [started?, hat, launch, List.range_succ]
    · rw [hends]
      exact h.tasks_launched
    · rw [hends]
      exact h.sent
    · simp [launch, hliving (by simp)]
    · exact Nat.le_antisymm hlt (turnTo_eq_draining hdone)
  | retried hat =>
    rw [hat] at hphase hliving
    refine h.keep hrun rfl rfl rfl rfl rfl hphase ?_ nofun
    simp [hliving (by simp)]
  | gaveUp hat =>
    rw [hat] at hphase
    have hle : s.admitted ≤ p.count := hphase.1 ▸ Nat.le_of_lt hphase.2
    refine h.keep hrun rfl rfl rfl rfl rfl hle ?_ fun _ => Or.inr rfl
    rintro a ⟨⟩
    exact ⟨rfl, hphase.1, hphase.1 ▸ hphase.2, rfl⟩
  | @finished index outcome hrunning =>
    have hends : endings (past ++ [.finish index outcome]) = endings past ++ [(index, outcome)] := by
      simp [endings, Move.ending?]
    refine ⟨hphase, ?_, ?_, ?_, h.abandoned, h.stopped⟩
    · rw [starts_concat hrun, h.started]
      exact List.append_nil _
    · rw [hends, List.map_append, List.map_singleton]
      exact h.tasks_finished hrunning
    · rw [hends, records_append, ← h.sent]
      cases outcome <;> rfl
  | released => exact h.keep hrun rfl rfl rfl rfl rfl hphase h.abandoned h.stopped
  | cancelled =>
    refine h.keep hrun rfl rfl rfl rfl rfl hphase (fun a ha => ?_) fun _ => Or.inr rfl
    obtain ⟨hd, hi, hlt, -⟩ := h.abandoned a ha
    exact ⟨hd, hi, hlt, rfl⟩

/-- **What is true of a scan after any moves.** -/
theorem tracks_of_run {limit : Nat} {cancelled : Bool}
    (h : run p (p.start limit cancelled) moves = some s) :
    Tracks p (p.start limit cancelled) moves s :=
  run_induction (tracks_start p limit cancelled) (fun _ _ _ _ hrun ih hgoes => ih.move hrun hgoes) h

end Dispatch

end OpenRelay
