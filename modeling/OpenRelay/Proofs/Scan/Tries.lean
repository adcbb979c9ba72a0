import OpenRelay.Proofs.Scan.Permits

/-!
# How often starts are tried

A start that is refused is tried again for the same target, so often and no more. The tries are
counted in a word of 32 bits. That is enough unless all that a word can count are allowed: then the
count begins again, and never comes to its end.

* `Dispatch.calls`: the starts that moves answer.
* `Dispatch.tries_of_run`: what is true of them after any moves, also of a count that began again.
* `Dispatch.runsOver_iff`: when that happens.
* `Dispatch.countP_isOwn_le`: otherwise a scan does not go on for ever.
* `tries_bounded`: and then no target is tried more often than allowed.
-/

namespace OpenRelay

namespace Dispatch

variable {p : Plan} {s s' start : State} {m : Move} {moves past more : List Move} {limit : Nat}
  {cancelled : Bool}

/-! ## The starts asked for -/

/-- The start that a move answers: the target, and whether it is refused. -/
def answered? (s : State) : Move → Option (Nat × Bool)
  | .launched =>
    match s.phase with
    | .launching index _ => some (index, false)
    | _ => none
  | .refused _ =>
    match s.phase with
    | .launching index _ => some (index, true)
    | _ => none
  | _ => none

/-- The starts that moves answer, in order. -/
def calls (p : Plan) (s : State) : List Move → List (Nat × Bool)
  | [] => []
  | m :: moves =>
    (answered? s m).toList ++
      match step p s m with
      | some s => calls p s moves
      | none => []

/-- Only a start that was asked for is answered. -/
theorem asked_of_answered {c : Nat × Bool} (h : answered? s m = some c) :
    ∃ index attempt, s.phase = .launching index attempt := by
  cases hphase : s.phase with
  | launching index attempt => exact ⟨index, attempt, rfl⟩
  | admitting index attempt => cases m <;> simp [answered?, hphase] at h
  | draining => cases m <;> simp [answered?, hphase] at h

theorem calls_append (h : run p start past = some s) (more : List Move) :
    calls p start (past ++ more) = calls p start past ++ calls p s more := by
  induction past generalizing start with
  | nil =>
    obtain rfl := Option.some.inj h
    rfl
  | cons m past ih =>
    obtain ⟨s₁, hstep, hrun⟩ := Option.bind_eq_some_iff.1 h
    simp only [List.cons_append, calls, hstep, ih hrun, List.append_assoc]

theorem calls_concat (h : run p start past = some s) (m : Move) :
    calls p start (past ++ [m]) = calls p start past ++ (answered? s m).toList := by
  rw [calls_append h]
  cases hstep : step p s m <;> simp [calls, hstep]

/-- How often the start for a target was refused. -/
def refusals (p : Plan) (start : State) (moves : List Move) (index : Nat) : Nat :=
  (calls p start moves).count (index, true)

/-- How often the start for a target was asked for. -/
def tries (p : Plan) (start : State) (moves : List Move) (index : Nat) : Nat :=
  (calls p start moves).countP fun c => c.1 = index

/-! ## Words that count -/

theorem toNat_lt_of_ne {attempt : UInt32} (h : attempt ≠ 0xFFFFFFFF) :
    attempt.toNat < 0xFFFFFFFF := by
  have hne : attempt.toNat ≠ 0xFFFFFFFF := fun heq => h (UInt32.toNat_inj.1 heq)
  have hlt := attempt.toNat_lt
  omega

/-- The word counts on unless it is full. -/
theorem toNat_succ {attempt : UInt32} (h : attempt ≠ 0xFFFFFFFF) :
    (attempt + 1).toNat = attempt.toNat + 1 := by
  have hlt := toNat_lt_of_ne h
  rw [UInt32.toNat_add]
  exact Nat.mod_eq_of_lt (by simp; omega)

/-- What is below some word is below the full one. -/
theorem lt_full_of_lt {x y : UInt32} (h : x < y) : x < 0xFFFFFFFF := by
  have hlt := UInt32.lt_iff_toNat_lt.1 h
  have hy := y.toNat_lt
  refine UInt32.lt_iff_toNat_lt.2 ?_
  show x.toNat < 0xFFFFFFFF
  omega

/-! ## Any moves -/

/-- The count of refusals that the admitting side keeps. -/
def Phase.attempt? : Phase → Option UInt32
  | .admitting _ attempt | .launching _ attempt => some attempt
  | .draining => none

/-- What is true of the starts after any moves, whatever is allowed. -/
structure Tries (p : Plan) (start : State) (past : List Move) (s : State) : Prop where
  /-- Each answer is counted. -/
  launches : s.launches = (calls p start past).length
  /-- One start succeeded for each task, in their order. -/
  granted : ((calls p start past).filter fun c => !c.2).map Prod.fst = List.range s.admitted
  /-- No start was asked for out of turn. -/
  turn : ∀ c ∈ calls p start past, c.1 ≤ s.admitted ∧ c.1 < p.count
  /-- The word counts the refusals, up to its size. -/
  counter : ∀ attempt ∈ s.phase.attempt?,
    attempt = UInt32.ofNat (refusals p start past s.admitted)
  /-- If the word can count one more than is allowed, no target was tried in vain too often. -/
  spared : p.retries < 0xFFFFFFFF → ∀ index, (index = s.admitted → s.abandoned = none) →
    refusals p start past index ≤ p.retries.toNat
  /-- A scan that was given up has used up all tries, and they are counted right. -/
  spent : ∀ a ∈ s.abandoned, p.retries < 0xFFFFFFFF ∧ a.attempts.toNat = p.retries.toNat + 1 ∧
    refusals p start past s.admitted = p.retries.toNat + 1

theorem attempt_turnTo (p : Plan) (index : Nat) : ∀ attempt ∈ (p.turnTo index).attempt?,
    attempt = 0 := by
  unfold Plan.turnTo
  split <;> simp [Phase.attempt?]

theorem tries_start (p : Plan) (limit : Nat) (cancelled : Bool) :
    Tries p (p.start limit cancelled) [] (p.start limit cancelled) where
  launches := rfl
  granted := rfl
  turn := by simp [calls]
  counter := attempt_turnTo p 0
  spared _ _ _ := Nat.zero_le _
  spent := by simp [Plan.start]

/-- As long as the refusals fit in the word, it says how many there were. -/
theorem Tries.attempt_toNat (h : Tries p start past s) {attempt : UInt32}
    (hattempt : attempt ∈ s.phase.attempt?)
    (hfits : refusals p start past s.admitted < 0x100000000) :
    attempt.toNat = refusals p start past s.admitted := by
  rw [h.counter attempt hattempt, UInt32.toNat_ofNat']
  exact Nat.mod_eq_of_lt hfits

/-- If the word can count one more than is allowed, it counts the next refusal. -/
theorem Tries.attempt_succ (h : Tries p start past s) (hretries : p.retries < 0xFFFFFFFF)
    (hkept : s.abandoned = none) {attempt : UInt32} (hattempt : attempt ∈ s.phase.attempt?) :
    (attempt + 1).toNat = refusals p start past s.admitted + 1 ∧
      refusals p start past s.admitted ≤ p.retries.toNat := by
  have hle := h.spared hretries s.admitted fun _ => hkept
  have hfull : p.retries.toNat < 0xFFFFFFFF := UInt32.lt_iff_toNat_lt.1 hretries
  have heq := h.attempt_toNat hattempt (by omega)
  have hne : attempt ≠ 0xFFFFFFFF := by
    rintro rfl
    have hvalue : (0xFFFFFFFF : UInt32).toNat = 0xFFFFFFFF := rfl
    omega
  rw [toNat_succ hne, heq]
  exact ⟨rfl, hle⟩

/-- A move that answers no start leaves the tries as they are. -/
theorem Tries.keep (h : Tries p start past s) (hrun : run p start past = some s)
    (hcall : answered? s m = none) (hlaunches : s'.launches = s.launches)
    (hadmitted : s'.admitted = s.admitted) (habandoned : s'.abandoned = s.abandoned)
    (hattempt : ∀ attempt ∈ s'.phase.attempt?, attempt ∈ s.phase.attempt?) :
    Tries p start (past ++ [m]) s' := by
  have hcalls : calls p start (past ++ [m]) = calls p start past := by
    rw [calls_concat hrun, hcall, Option.toList_none, List.append_nil]
  have hrefusals : refusals p start (past ++ [m]) = refusals p start past := by
    funext index
    rw [refusals, refusals, hcalls]
  refine ⟨?_, ?_, ?_, ?_, ?_, ?_⟩
  · rw [hcalls, hlaunches, h.launches]
  · rw [hcalls, hadmitted, h.granted]
  · rw [hcalls, hadmitted]
    exact h.turn
  · rw [hrefusals, hadmitted]
    exact fun attempt hmem => h.counter attempt (hattempt attempt hmem)
  · rw [hrefusals, hadmitted, habandoned]
    exact h.spared
  · rw [hrefusals, hadmitted, habandoned]
    exact h.spent

/-- A start that succeeds turns the scan to the next target, whose start was not asked for yet. -/
theorem Tries.grant (h : Tries p start past s) (hrun : run p start past = some s)
    (hcall : answered? s m = some (s.admitted, false)) (hlt : s.admitted < p.count)
    (hkept : s.abandoned = none)
    (hlaunches : s'.launches = s.launches + 1) (hadmitted : s'.admitted = s.admitted + 1)
    (habandoned : s'.abandoned = none) (hattempt : ∀ attempt ∈ s'.phase.attempt?, attempt = 0) :
    Tries p start (past ++ [m]) s' := by
  have hcalls : calls p start (past ++ [m]) = calls p start past ++ [(s.admitted, false)] := by
    rw [calls_concat hrun, hcall, Option.toList_some]
  have hrefusals : refusals p start (past ++ [m]) = refusals p start past := by
    funext index
    rw [refusals, refusals, hcalls, List.count_append, List.count_singleton, if_neg (by simp),
      Nat.add_zero]
  have hnew : refusals p start past (s.admitted + 1) = 0 :=
    List.count_eq_zero.2 fun hmem => Nat.not_succ_le_self _ (h.turn _ hmem).1
  refine ⟨?_, ?_, ?_, ?_, ?_, by simp [habandoned]⟩
  · rw [hcalls, hlaunches, h.launches, List.length_append, List.length_singleton]
  · rw [hcalls, hadmitted, List.filter_append, List.map_append, h.granted, List.range_succ]
    rfl
  · rw [hcalls, hadmitted]
    refine List.forall_mem_append.2
      ⟨fun c hc => ⟨Nat.le_succ_of_le (h.turn c hc).1, (h.turn c hc).2⟩, ?_⟩
    simpa using hlt
  · rw [hrefusals, hadmitted, hnew]
    exact hattempt
  · intro hretries index _
    rw [hrefusals]
    exact h.spared hretries index fun _ => hkept

/-- A start that is refused counts for the target that is next. -/
theorem Tries.refuse (h : Tries p start past s) (hrun : run p start past = some s)
    {attempt : UInt32} (hat : attempt ∈ s.phase.attempt?)
    (hcall : answered? s m = some (s.admitted, true)) (hlt : s.admitted < p.count)
    (hkept : s.abandoned = none)
    (hlaunches : s'.launches = s.launches + 1) (hadmitted : s'.admitted = s.admitted)
    (hattempt : ∀ attempt' ∈ s'.phase.attempt?, attempt' = attempt + 1)
    (hleft : s'.abandoned = none → attempt + 1 ≤ p.retries)
    (hspent : ∀ a ∈ s'.abandoned, p.retries < attempt + 1 ∧ a.attempts = attempt + 1) :
    Tries p start (past ++ [m]) s' := by
  have hcalls : calls p start (past ++ [m]) = calls p start past ++ [(s.admitted, true)] := by
    rw [calls_concat hrun, hcall, Option.toList_some]
  have hother : ∀ index, index ≠ s.admitted →
      refusals p start (past ++ [m]) index = refusals p start past index := by
    intro index hindex
    rw [refusals, refusals, hcalls, List.count_append, List.count_singleton,
      if_neg (by simpa using hindex.symm), Nat.add_zero]
  have hone : refusals p start (past ++ [m]) s.admitted =
      refusals p start past s.admitted + 1 := by
    rw [refusals, refusals, hcalls, List.count_append, List.count_singleton_self]
  refine ⟨?_, ?_, ?_, ?_, ?_, ?_⟩
  · rw [hcalls, hlaunches, h.launches, List.length_append, List.length_singleton]
  · rw [hcalls, hadmitted, List.filter_append, List.map_append, h.granted]
    exact List.append_nil _
  · rw [hcalls, hadmitted]
    exact List.forall_mem_append.2 ⟨h.turn, by simpa using hlt⟩
  · intro attempt' hmem
    rw [hattempt attempt' hmem, hadmitted, hone, UInt32.ofNat_add, h.counter attempt hat]
    rfl
  · intro hretries index habandoned
    rw [hadmitted] at habandoned
    by_cases hindex : index = s.admitted
    · subst hindex
      obtain ⟨hword, -⟩ := h.attempt_succ hretries hkept hat
      have hle := UInt32.le_iff_toNat_le.1 (hleft (habandoned rfl))
      rw [hone]
      omega
    · rw [hother index hindex]
      exact h.spared hretries index fun heq => absurd heq hindex
  · intro a ha
    obtain ⟨hout, ha⟩ := hspent a ha
    have hretries := lt_full_of_lt hout
    obtain ⟨hword, hle⟩ := h.attempt_succ hretries hkept hat
    have hmore := UInt32.lt_iff_toNat_lt.1 hout
    rw [hadmitted, hone, ha]
    exact ⟨hretries, by omega, by omega⟩

/-- **Each move keeps count of the tries.** -/
theorem Tries.move (h : Tries p start past s) (htracks : Tracks p start past s)
    (hrun : run p start past = some s) (hgoes : Goes p s m s') :
    Tries p start (past ++ [m]) s' := by
  have hphase := htracks.phase
  have hliving := htracks.living
  cases hgoes with
  | granted hat => exact h.keep hrun rfl rfl rfl rfl (by simp [hat, Phase.attempt?])
  | denied hat _ => exact h.keep hrun rfl rfl rfl rfl (by simp [Phase.attempt?])
  | @launched index attempt hat =>
    rw [hat] at hphase hliving
    obtain ⟨rfl, hlt⟩ := hphase
    have hkept := hliving (by simp)
    exact h.grant hrun (by simp [answered?, hat]) hlt hkept rfl rfl hkept (attempt_turnTo p _)
  | @retried index attempt reason hat hagain =>
    rw [hat] at hphase hliving
    obtain ⟨rfl, hlt⟩ := hphase
    have hkept := hliving (by simp)
    have hword : attempt ∈ s.phase.attempt? := by simp [hat, Phase.attempt?]
    exact h.refuse hrun hword (by simp [answered?, hat]) hlt hkept rfl rfl
      (by simp [Phase.attempt?]) (fun _ => hagain) (by simp [hkept])
  | @gaveUp index attempt reason hat hout =>
    rw [hat] at hphase hliving
    obtain ⟨rfl, hlt⟩ := hphase
    have hkept := hliving (by simp)
    have hword : attempt ∈ s.phase.attempt? := by simp [hat, Phase.attempt?]
    exact h.refuse hrun hword (by simp [answered?, hat]) hlt hkept rfl rfl
      (by simp [Phase.attempt?]) (by simp) (by simpa using hout)
  | finished _ => exact h.keep hrun rfl rfl rfl rfl fun _ => id
  | released _ => exact h.keep hrun rfl rfl rfl rfl fun _ => id
  | cancelled => exact h.keep hrun rfl rfl rfl rfl fun _ => id

/-- **What is true of the starts after any moves.** -/
theorem tries_of_run (h : run p (p.start limit cancelled) moves = some s) :
    Tries p (p.start limit cancelled) moves s :=
  run_induction (tries_start p limit cancelled)
    (fun _ _ _ _ hrun ih hgoes => ih.move (tracks_of_run hrun) hrun hgoes) h

/-! ## Counts that begin again -/

/-- A start is refused when the word that counts the refusals is full. -/
def RunsOver (p : Plan) (start : State) (moves : List Move) : Prop :=
  ∃ past reason s index, past ++ [.refused reason] <+: moves ∧ run p start past = some s ∧
    s.phase = .launching index 0xFFFFFFFF

theorem RunsOver.append (h : RunsOver p start moves) (more : List Move) :
    RunsOver p start (moves ++ more) := by
  obtain ⟨past, reason, s, index, hpast, hrun, hphase⟩ := h
  exact ⟨past, reason, s, index, hpast.trans (List.prefix_append _ _), hrun, hphase⟩

/-- More moves answer more starts. -/
theorem refusals_mono (hrun : run p start past = some s) (hpast : past <+: moves) (index : Nat) :
    refusals p start past index ≤ refusals p start moves index := by
  obtain ⟨more, rfl⟩ := hpast
  rw [refusals, refusals, calls_append hrun, List.count_append]
  exact Nat.le_add_right _ _

theorem refusals_concat (hrun : run p start past = some s) (m : Move) (index : Nat) :
    refusals p start (past ++ [m]) index =
      refusals p start past index + (answered? s m).toList.count (index, true) := by
  rw [refusals, refusals, calls_concat hrun, List.count_append]

/-- The word is full when it has counted one refusal less than begins it again. -/
theorem Tries.le_refusals_of_full (h : Tries p start past s)
    (hfull : 0xFFFFFFFF ∈ s.phase.attempt?) :
    0xFFFFFFFF ≤ refusals p start past s.admitted := by
  have hword := congrArg UInt32.toNat (h.counter 0xFFFFFFFF hfull)
  have hvalue : (0xFFFFFFFF : UInt32).toNat = 0xFFFFFFFF := rfl
  rw [UInt32.toNat_ofNat'] at hword
  omega

theorem Tries.full_of_refusals (h : Tries p start past s) {attempt : UInt32}
    (hattempt : attempt ∈ s.phase.attempt?)
    (hrefusals : refusals p start past s.admitted = 0xFFFFFFFF) : attempt = 0xFFFFFFFF := by
  rw [h.counter attempt hattempt, hrefusals]
  rfl

/-- A refusal is that of the target that is next. -/
theorem Tracks.refused (h : Tracks p start past s) {index : Nat}
    (hcall : answered? s m = some (index, true)) :
    ∃ attempt reason, m = .refused reason ∧ s.phase = .launching s.admitted attempt ∧
      index = s.admitted := by
  have hfits := h.phase
  obtain ⟨next, attempt, hphase⟩ := asked_of_answered hcall
  rw [hphase] at hfits
  obtain ⟨rfl, -⟩ := hfits
  cases m with
  | refused reason =>
    rw [answered?, hphase] at hcall
    cases hcall
    exact ⟨attempt, reason, rfl, hphase, rfl⟩
  | launched =>
    rw [answered?, hphase] at hcall
    cases hcall
  | ask | finish _ _ | release _ | cancel => cases hcall

/-- When a count begins again, the target was refused as often as a word can count. -/
theorem RunsOver.le_refusals (h : RunsOver p (p.start limit cancelled) moves) :
    ∃ index, 0x100000000 ≤ refusals p (p.start limit cancelled) moves index := by
  obtain ⟨past, reason, s, index, hpast, hrun, hphase⟩ := h
  have hfits := (tracks_of_run hrun).phase
  rw [hphase] at hfits
  obtain ⟨rfl, -⟩ := hfits
  have hlarge := (tries_of_run hrun).le_refusals_of_full (by simp [hphase, Phase.attempt?])
  have hnext : run p (p.start limit cancelled) (past ++ [.refused reason]) =
      some (refuse p s s.admitted 0xFFFFFFFF reason) :=
    run_concat.2 ⟨s, hrun, by simp only [step, hphase]⟩
  refine ⟨s.admitted, Nat.le_trans ?_ (refusals_mono hnext hpast s.admitted)⟩
  rw [refusals_concat hrun]
  simp only [answered?, hphase, Option.toList_some, List.count_singleton_self]
  omega

/-- The refusal after which there are so many of them is that with which a count begins again. -/
theorem runsOver_of_le (h : run p (p.start limit cancelled) moves = some s) {index : Nat}
    (hlarge : 0x100000000 ≤ refusals p (p.start limit cancelled) moves index) :
    RunsOver p (p.start limit cancelled) moves := by
  refine run_induction (motive := fun past _ =>
    0x100000000 ≤ refusals p (p.start limit cancelled) past index →
      RunsOver p (p.start limit cancelled) past) (fun hnone => ?_)
    (fun past s m s' hrun ih _ hlarge => ?_) h hlarge
  · simp [refusals, calls] at hnone
  · by_cases hbefore : 0x100000000 ≤ refusals p (p.start limit cancelled) past index
    · exact (ih hbefore).append [m]
    · rw [refusals_concat hrun] at hlarge
      have hpos : 0 < (answered? s m).toList.count (index, true) := by omega
      have hcall := Option.mem_toList.1 (List.count_pos_iff.1 hpos)
      obtain ⟨attempt, reason, rfl, hphase, rfl⟩ := (tracks_of_run hrun).refused hcall
      have hone : (answered? s (.refused reason)).toList.count (s.admitted, true) = 1 := by
        rw [hcall, Option.toList_some, List.count_singleton_self]
      have hin : attempt ∈ s.phase.attempt? := by simp [hphase, Phase.attempt?]
      have hword := (tries_of_run hrun).full_of_refusals hin (by omega)
      exact ⟨past, reason, s, s.admitted, List.prefix_rfl, hrun, hword ▸ hphase⟩

/-- **A count begins again** exactly if a target is refused as often as a word can count. -/
theorem runsOver_iff (h : run p (p.start limit cancelled) moves = some s) :
    RunsOver p (p.start limit cancelled) moves ↔
      ∃ index, 0x100000000 ≤ refusals p (p.start limit cancelled) moves index := by
  constructor
  · exact RunsOver.le_refusals
  · rintro ⟨index, hlarge⟩
    exact runsOver_of_le h hlarge

/-- Otherwise the word says how often the target that is next was refused. -/
theorem attempt_eq_refusals (h : run p (p.start limit cancelled) moves = some s)
    (hover : ¬ RunsOver p (p.start limit cancelled) moves) {attempt : UInt32}
    (hattempt : attempt ∈ s.phase.attempt?) :
    attempt.toNat = refusals p (p.start limit cancelled) moves s.admitted :=
  (tries_of_run h).attempt_toNat hattempt
    (Nat.lt_of_not_le fun hlarge => hover ((runsOver_iff h).2 ⟨_, hlarge⟩))

/-- And no target was refused too often, but for that at which a scan was given up. -/
theorem refusals_le (h : run p (p.start limit cancelled) moves = some s)
    (hover : ¬ RunsOver p (p.start limit cancelled) moves) {index : Nat}
    (hkept : index = s.admitted → s.abandoned = none) :
    refusals p (p.start limit cancelled) moves index ≤ p.retries.toNat := by
  by_cases hretries : p.retries = 0xFFFFFFFF
  · have hfits : ¬ 0x100000000 ≤ refusals p (p.start limit cancelled) moves index :=
      fun hlarge => hover ((runsOver_iff h).2 ⟨index, hlarge⟩)
    have hvalue : p.retries.toNat = 0xFFFFFFFF := by rw [hretries]; rfl
    omega
  · exact (tries_of_run h).spared (UInt32.lt_iff_toNat_lt.2 (toNat_lt_of_ne hretries)) index hkept

/-- A scan was given up at a target, or it was not. -/
theorem kept_or_given (s : State) (index : Nat) :
    (index = s.admitted → s.abandoned = none) ∨ index = s.admitted ∧ ∃ a, a ∈ s.abandoned := by
  by_cases hkept : index = s.admitted → s.abandoned = none
  · exact .inl hkept
  · obtain ⟨hindex, hgiven⟩ := Classical.not_imp.1 hkept
    exact .inr ⟨hindex, Option.ne_none_iff_exists'.1 hgiven⟩

/-- Where the word can count all that is allowed, its count does not begin again. -/
theorem not_runsOver (h : run p (p.start limit cancelled) moves = some s)
    (hretries : p.retries < 0xFFFFFFFF) : ¬ RunsOver p (p.start limit cancelled) moves := by
  intro hover
  obtain ⟨index, hlarge⟩ := (runsOver_iff h).1 hover
  have htries := tries_of_run h
  have hfull : p.retries.toNat < 0xFFFFFFFF := UInt32.lt_iff_toNat_lt.1 hretries
  rcases kept_or_given s index with hkept | ⟨rfl, a, ha⟩
  · have hspared := htries.spared hretries index hkept
    omega
  · obtain ⟨-, -, hall⟩ := htries.spent a ha
    omega

/-! ## The end of a scan -/

/-- The most moves that one target can take: two for each of its tries, and two for its task. -/
def Plan.movesPerTarget (p : Plan) : Nat := 2 * (p.retries.toNat + 2)

/-- The most moves that the admitting side and the tasks that it starts can still make. -/
def Phase.ahead (p : Plan) : Phase → Nat
  | .admitting index attempt => p.movesPerTarget * (p.count - index) - 2 * attempt.toNat
  | .launching index attempt => p.movesPerTarget * (p.count - index) - 2 * attempt.toNat - 1
  | .draining => 0

/-- The most moves that a scan can still make. -/
def State.ahead (p : Plan) (s : State) : Nat :=
  s.phase.ahead p + 2 * s.running.length + s.leaving.length

/-- Whether a move is one of the scan itself. -/
def Move.isOwn : Move → Bool
  | .cancel => false
  | .ask | .launched | .refused _ | .finish _ _ | .release _ => true

theorem ahead_turnTo (p : Plan) (index : Nat) :
    (p.turnTo index).ahead p = p.movesPerTarget * (p.count - index) := by
  unfold Plan.turnTo
  split
  case isTrue => exact Nat.sub_zero _
  case isFalse hge => rw [Nat.sub_eq_zero_of_le (Nat.le_of_not_lt hge), Nat.mul_zero]; rfl

/-- While tasks are started, there are moves left for the target that is next and for its task. -/
theorem Phase.Fits.room {index : Nat} {attempt : UInt32} (hfits : s.phase.Fits p s.admitted)
    (hle : ∀ attempt ∈ s.phase.attempt?, attempt.toNat ≤ p.retries.toNat)
    (hat : s.phase = .admitting index attempt ∨ s.phase = .launching index attempt) :
    p.movesPerTarget * (p.count - (index + 1)) + 2 * attempt.toNat + 4 ≤
      p.movesPerTarget * (p.count - index) := by
  have hlt : index < p.count := by rcases hat with hat | hat <;> exact (hat ▸ hfits).2
  have hword : attempt ∈ s.phase.attempt? := by
    rcases hat with hat | hat <;> simp [hat, Phase.attempt?]
  have hattempt := hle attempt hword
  have htarget : p.movesPerTarget * (p.count - index) =
      p.movesPerTarget * (p.count - (index + 1)) + 2 * (p.retries.toNat + 2) := by
    rw [← Plan.movesPerTarget, ← Nat.mul_succ]
    congr 1
    omega
  omega

/-- **Each move of its own leaves a scan fewer to make**, as long as the word counts on. -/
theorem ahead_move (hfits : s.phase.Fits p s.admitted)
    (hle : ∀ attempt ∈ s.phase.attempt?, attempt.toNat ≤ p.retries.toNat)
    (hword : ∀ index reason, m = .refused reason → s.phase ≠ .launching index 0xFFFFFFFF)
    (hgoes : Goes p s m s') : s'.ahead p + m.isOwn.toNat ≤ s.ahead p := by
  simp only [State.ahead]
  cases hgoes with
  | granted hat =>
    have hroom := hfits.room hle (Or.inl hat)
    simp only [hat, Phase.ahead, Move.isOwn, Bool.toNat_true]
    omega
  | denied hat =>
    have hroom := hfits.room hle (Or.inl hat)
    simp only [hat, Phase.ahead, Move.isOwn, Bool.toNat_true]
    omega
  | @launched index _ hat =>
    have hroom := hfits.room hle (Or.inr hat)
    have hnext := ahead_turnTo p (index + 1)
    simp only [launch, hat, List.length_append, List.length_singleton, Move.isOwn, Bool.toNat_true]
    rw [hnext, Phase.ahead]
    omega
  | @retried index attempt reason hat _ =>
    have hroom := hfits.room hle (Or.inr hat)
    have hnext : (attempt + 1).toNat = attempt.toNat + 1 := by
      refine toNat_succ ?_
      rintro rfl
      exact hword index reason rfl hat
    simp only [hat, Phase.ahead, Move.isOwn, Bool.toNat_true]
    omega
  | gaveUp hat _ =>
    have hroom := hfits.room hle (Or.inr hat)
    simp only [hat, Phase.ahead, Move.isOwn, Bool.toNat_true]
    omega
  | finished hrunning =>
    have hlength := List.length_erase_of_mem hrunning
    have hpos := List.length_pos_of_mem hrunning
    simp only [finish, List.length_append, List.length_singleton, Move.isOwn, Bool.toNat_true]
    omega
  | released hleaving =>
    have hlength := List.length_erase_of_mem hleaving
    have hpos := List.length_pos_of_mem hleaving
    simp only [Move.isOwn, Bool.toNat_true]
    omega
  | cancelled => exact Nat.le_refl _

/-- **A scan does not go on for ever**, unless a count begins again. -/
theorem countP_isOwn_le (h : run p (p.start limit cancelled) moves = some s)
    (hover : ¬ RunsOver p (p.start limit cancelled) moves) :
    moves.countP Move.isOwn + s.ahead p ≤ p.movesPerTarget * p.count := by
  refine run_induction (motive := fun past s => ¬ RunsOver p (p.start limit cancelled) past →
    past.countP Move.isOwn + s.ahead p ≤ p.movesPerTarget * p.count) (fun _ => ?_)
    (fun past s m s' hrun ih hgoes hover => ?_) h hover
  · simp [State.ahead, Plan.start, ahead_turnTo]
  · have hbefore : ¬ RunsOver p (p.start limit cancelled) past := fun h => hover (h.append [m])
    have htracks := tracks_of_run hrun
    have hle : ∀ attempt ∈ s.phase.attempt?, attempt.toNat ≤ p.retries.toNat := by
      intro attempt hattempt
      rw [attempt_eq_refusals hrun hbefore hattempt]
      refine refusals_le hrun hbefore fun _ => htracks.living ?_
      intro hphase
      simp [hphase, Phase.attempt?] at hattempt
    have hmove := ahead_move htracks.phase hle (fun index reason hm hphase =>
      hover ⟨past, reason, s, index, hm ▸ List.prefix_rfl, hrun, hphase⟩) hgoes
    have hsum := ih hbefore
    have hown : (if m.isOwn = true then 1 else 0) = m.isOwn.toNat := by cases m.isOwn <;> rfl
    rw [List.countP_append, List.countP_singleton]
    omega

/-! ## All starts for a target -/

theorem countP_fst (l : List (Nat × Bool)) (index : Nat) :
    l.countP (fun c => c.1 = index) =
      l.count (index, true) + ((l.filter fun c => !c.2).map Prod.fst).count index := by
  induction l with
  | nil => rfl
  | cons c l ih =>
    obtain ⟨i, refused⟩ := c
    cases refused with
    | true => simp [List.countP_cons, List.count_cons, ih]; omega
    | false => simp [List.countP_cons, List.count_cons, ih]; omega

/-- Each start for a target was refused, or it is that of its task. -/
theorem Tries.tries_eq (h : Tries p start past s) (index : Nat) :
    tries p start past index =
      refusals p start past index + if index < s.admitted then 1 else 0 := by
  rw [tries, countP_fst, h.granted, List.nodup_range.count]
  simp only [refusals, List.mem_range]

/-- What is true of a scan as long as its count does not begin again. -/
structure Bounded (p : Plan) (start : State) (moves : List Move) (s : State) : Prop where
  /-- No target is tried more often than allowed. -/
  allowed : ∀ index, tries p start moves index ≤ p.retries.toNat + 1
  /-- The word says how often the target that is next was tried. -/
  counter : ∀ attempt ∈ s.phase.attempt?, attempt.toNat = tries p start moves s.admitted
  /-- A task that was started was refused before as often as may be, and no more. -/
  started : ∀ index < s.admitted, tries p start moves index =
    refusals p start moves index + 1 ∧ refusals p start moves index ≤ p.retries.toNat
  /-- The scan stops when all tasks were started, or it is cancelled, or given up at a target, and
  then it says how often that was tried. -/
  stopped : s.phase = .draining → s.admitted = p.count ∨
    (s.abandoned = none ∧ s.cancelled = true) ∨
    ∃ a, s.abandoned = some a ∧ a.index = s.admitted ∧
      a.attempts.toNat = tries p start moves a.index
  /-- It comes to its end, and is not stuck before. -/
  ends : moves.countP Move.isOwn ≤ 2 * (p.retries.toNat + 2) * p.count
  goesOn : s.isDone = false → ∃ m, m ≠ .cancel ∧ (step p s m).isSome

theorem bounded_of_run (h : run p (p.start limit cancelled) moves = some s)
    (hover : ¬ RunsOver p (p.start limit cancelled) moves) :
    Bounded p (p.start limit cancelled) moves s := by
  have htries := tries_of_run h
  have htracks := tracks_of_run h
  have hnext : tries p (p.start limit cancelled) moves s.admitted =
      refusals p (p.start limit cancelled) moves s.admitted := by
    rw [htries.tries_eq, if_neg (Nat.lt_irrefl _), Nat.add_zero]
  refine ⟨fun index => ?_, fun attempt hattempt => ?_, fun index hindex => ?_, fun hphase => ?_,
    Nat.le_trans (Nat.le_add_right _ _) (countP_isOwn_le h hover), (held_of_run h).exists_move p⟩
  · rw [htries.tries_eq]
    rcases kept_or_given s index with hkept | ⟨rfl, a, ha⟩
    · have hle := refusals_le h hover hkept
      split <;> omega
    · obtain ⟨-, -, hall⟩ := htries.spent a ha
      exact Nat.le_of_eq (by rw [if_neg (Nat.lt_irrefl _), hall, Nat.add_zero])
  · rw [hnext, attempt_eq_refusals h hover hattempt]
  · rw [htries.tries_eq, if_pos hindex]
    exact ⟨rfl, refusals_le h hover fun heq => absurd heq (Nat.ne_of_lt hindex)⟩
  · cases hgiven : s.abandoned with
    | none => exact (htracks.stopped hphase).imp_right fun hflag => .inl ⟨rfl, hflag⟩
    | some a =>
      obtain ⟨-, hindex, -⟩ := htracks.abandoned a hgiven
      obtain ⟨-, hattempts, hall⟩ := htries.spent a hgiven
      refine .inr (.inr ⟨a, rfl, hindex, ?_⟩)
      rw [hindex, hnext, hattempts, hall]

end Dispatch

open Dispatch

/-- **How often starts are tried**, whatever is allowed, whichever starts are refused, and whenever
the scan is cancelled. The word that counts the refusals of a target begins again only if it can
count no more than is allowed, and some target is refused as often as that. As long as it does not,
no target is tried more often than allowed, the word says how often it was, and the scan comes to an
end: each target is started, or the scan was cancelled, or given up with the number of tries. -/
theorem tries_bounded {p : Plan} {limit : Nat} {cancelled : Bool} {moves : List Move} {s : State}
    (h : run p (p.start limit cancelled) moves = some s) :
    (RunsOver p (p.start limit cancelled) moves ↔ p.retries = 0xFFFFFFFF ∧
      ∃ index, 0x100000000 ≤ refusals p (p.start limit cancelled) moves index) ∧
    (¬ RunsOver p (p.start limit cancelled) moves →
      Bounded p (p.start limit cancelled) moves s) := by
  refine ⟨⟨fun hover => ⟨?_, (runsOver_iff h).1 hover⟩, fun hlarge => (runsOver_iff h).2 hlarge.2⟩,
    bounded_of_run h⟩
  by_contra hretries
  exact not_runsOver h (UInt32.lt_iff_toNat_lt.2 (toNat_lt_of_ne hretries)) hover

/-- A target whose task is started at the second try, and one that is given up after as many. -/
theorem tries_bounded_by_two :
    let p : Plan := { count := 2, retries := 1 }
    ∃ moves s, run p (p.start 1 false) moves = some s ∧ s.abandoned = some ⟨1, 2, "busy"⟩ ∧
      ¬ RunsOver p (p.start 1 false) moves ∧ Bounded p (p.start 1 false) moves s := by
  intro p
  let moves : List Move :=
    [.ask, .refused "busy", .ask, .launched, .finish 0 .died, .release 0, .ask, .refused "busy",
      .ask, .refused "busy"]
  obtain ⟨s, hs, hgiven⟩ : ∃ s, run p (p.start 1 false) moves = some s ∧
      s.abandoned = some ⟨1, 2, "busy"⟩ := ⟨_, rfl, rfl⟩
  obtain ⟨hover, hbounded⟩ := tries_bounded hs
  have hnot : ¬ RunsOver p (p.start 1 false) moves := fun h => absurd (hover.1 h).1 (by decide)
  exact ⟨moves, s, hs, hgiven, hnot, hbounded hnot⟩

/-! ## A count that begins again -/

namespace Dispatch

/-- As many new tries as a word can count are allowed for a single target. -/
def patient : Plan := { count := 1, retries := 0xFFFFFFFF }

/-- Its start is asked for and refused so many times. -/
def refusedTimes (n : Nat) : List Move := (List.replicate n [.ask, .refused "busy"]).flatten

/-- The scan after that. -/
def stillTrying (n : Nat) : State :=
  { phase := .admitting 0 (UInt32.ofNat n), permits := { limit := 1, peak := min n 1 }
    launches := n }

theorem run_refusedTimes (n : Nat) :
    run patient (patient.start 1 false) (refusedTimes n) = some (stillTrying n) := by
  induction n with
  | zero => rfl
  | succ n ih =>
    have hmoves : refusedTimes (n + 1) = refusedTimes n ++ [.ask, .refused "busy"] := by
      rw [refusedTimes, refusedTimes, List.replicate_succ', List.flatten_append,
        List.flatten_singleton]
    -- no word is above the number of new tries
    have hagain : ¬ patient.retries < UInt32.ofNat n + 1 := by
      rw [UInt32.lt_iff_toNat_lt]
      have hlt := (UInt32.ofNat n + 1).toNat_lt
      have hfull : patient.retries.toNat = 0xFFFFFFFF := rfl
      omega
    have hpeak : max (min n 1) 1 = min (n + 1) 1 := by omega
    have hask : step patient (stillTrying n) .ask = some { stillTrying n with
        phase := .launching 0 (UInt32.ofNat n)
        permits := { limit := 1, active := 1, peak := max (min n 1) 1 } } := rfl
    have hrefused : step patient { stillTrying n with
        phase := .launching 0 (UInt32.ofNat n)
        permits := { limit := 1, active := 1, peak := max (min n 1) 1 } } (.refused "busy") =
        some (stillTrying (n + 1)) := by
      simp only [step, refuse, stillTrying, if_neg hagain, hpeak, UInt32.ofNat_add]
      rfl
    rw [hmoves, run_append, ih, Option.bind_some, run, hask, Option.bind_some, run, hrefused]
    rfl

theorem tries_refusedTimes (n : Nat) :
    tries patient (patient.start 1 false) (refusedTimes n) 0 = n := by
  have htries := tries_of_run (run_refusedTimes n)
  have hall : ∀ c ∈ calls patient (patient.start 1 false) (refusedTimes n), c.1 = 0 :=
    fun c hc => Nat.lt_one_iff.1 (htries.turn c hc).2
  rw [tries, List.countP_eq_length.2 fun c hc => decide_eq_true (hall c hc), ← htries.launches]
  rfl

theorem refusals_refusedTimes (n : Nat) :
    refusals patient (patient.start 1 false) (refusedTimes n) 0 = n := by
  have htries := (tries_of_run (run_refusedTimes n)).tries_eq 0
  have hnone : (stillTrying n).admitted = 0 := rfl
  rw [tries_refusedTimes, hnone, if_neg (Nat.lt_irrefl _), Nat.add_zero] at htries
  exact htries.symm

/-- So many refusals are made, and the scan goes on. -/
theorem exists_refused (n : Nat) : ∃ moves s,
    run patient (patient.start 1 false) moves = some s ∧ .cancel ∉ moves ∧
      tries patient (patient.start 1 false) moves 0 = n ∧
      refusals patient (patient.start 1 false) moves 0 = n ∧
      s.phase = .admitting 0 (UInt32.ofNat n) :=
  ⟨refusedTimes n, stillTrying n, run_refusedTimes n, by simp [refusedTimes],
    tries_refusedTimes n, refusals_refusedTimes n, rfl⟩

end Dispatch

/-- **A target is tried for ever.** If as many new tries are allowed as a word can count, the count
begins again after the last of them, and the next try is made. -/
theorem tried_for_ever :
    let start := patient.start 1 false
    ∃ moves s, run patient start moves = some s ∧ .cancel ∉ moves ∧
      tries patient start moves 0 = patient.retries.toNat + 2 ∧
      RunsOver patient start moves ∧ s.phase = .admitting 0 1 := by
  intro start
  -- the number of moves is never spelled out
  obtain ⟨moves, s, hrun, hcalm, htries, hrefusals, hphase⟩ := exists_refused 0x100000001
  have hover : RunsOver patient start moves :=
    (runsOver_iff hrun).2 ⟨0, hrefusals ▸ Nat.le_succ _⟩
  exact ⟨moves, s, hrun, hcalm, htries, hover, hphase⟩

end OpenRelay
