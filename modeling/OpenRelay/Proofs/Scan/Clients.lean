import Mathlib.Order.Bounds.Basic
import OpenRelay.Proofs.Scan.Permits

/-!
# Clients of a supply of permits

Any number of clients share a supply of permits. They ask for permits, give them back, and have
their scans cancelled, in any order; every request is served in one piece. A client that has to
wait asks again, and a permit is given back by the one who holds it, however that one ends.

* `Pool.accounted`: the permits out are those handed out and not yet given back, after any requests.
* `Pool.Accounted.attentive`: how any further request is served.
* `Dispatch.clients_of_run`: a scan asks for permits and gives them back as clients do.
* `permits_accounted`: both together, and what they say about the tasks of a scan.
-/

namespace OpenRelay

/-- Whether a client asks for a permit. -/
def Request.asks : Request → Bool
  | .tryAcquire | .acquire => true
  | .drop _ | .cancel => false

/-- Whether a client gives a permit back. -/
def Request.returns : Request → Bool
  | .drop _ => true
  | .tryAcquire | .acquire | .cancel => false

/-- A supply that several scans share, the number of permits that clients hold, and the scans that
were cancelled. -/
structure Pool where
  permits : Permits
  held : Nat := 0
  cancelled : Nat → Bool := fun _ => false

namespace Pool

variable {x : Pool} {limit scan place : Nat} {r : Request} {past : List (Nat × Request)}

/-- A pool before the first request. -/
def ofLimit (limit : Nat) : Pool := { permits := .ofLimit limit }

/-- The pool as the clients of one scan see it. -/
def clients (x : Pool) (scan : Nat) : Clients :=
  { permits := x.permits, held := x.held, cancelled := x.cancelled scan }

/-- Serves one request of a client, who belongs to a scan. -/
def serve (x : Pool) (scan : Nat) (r : Request) : Pool × Response :=
  let (c, response) := (x.clients scan).serve r
  ({ permits := c.permits, held := c.held
     cancelled := Function.update x.cancelled scan c.cancelled }, response)

/-- The pool after requests, each of which comes with the scan of its client. -/
def after (x : Pool) (requests : List (Nat × Request)) : Pool :=
  requests.foldl (fun x r => (x.serve r.1 r.2).1) x

/-- Requests and how they are answered. -/
def answers (x : Pool) : List (Nat × Request) → List (Request × Response)
  | [] => []
  | (scan, r) :: rest => (r, (x.serve scan r).2) :: (x.serve scan r).1.answers rest

/-- How many permits are handed out on requests. -/
def handedOut (x : Pool) (requests : List (Nat × Request)) : Nat :=
  (x.answers requests).countP fun a => a.1.asks && a.2 = .yes

/-- How many permits are given back on requests. -/
def givenBack (x : Pool) (requests : List (Nat × Request)) : Nat :=
  (x.answers requests).countP fun a => a.1.returns && a.2 = .yes

/-! ## One request -/

/-- What a request does, for each way in which it can go. -/
inductive Serves (x : Pool) (scan : Nat) : Request → Response → Pool → Prop where
  | handed {r : Request} (hasks : r.asks = true) (hfree : x.permits.active < x.permits.limit)
      (hflag : r = .acquire → x.cancelled scan = false) :
      Serves x scan r .yes { x with
        permits := { x.permits with
          active := x.permits.active + 1, peak := max x.permits.peak (x.permits.active + 1) }
        held := x.held + 1 }
  | full (hfull : x.permits.limit ≤ x.permits.active) : Serves x scan .tryAcquire .no x
  | denied (hflag : x.cancelled scan = true) : Serves x scan .acquire .no x
  | waits (hfull : x.permits.limit ≤ x.permits.active) (hflag : x.cancelled scan = false) :
      Serves x scan .acquire .waits x
  | returned {place : Nat} (hheld : place < x.held) :
      Serves x scan (.drop place) .yes { x with permits := x.permits.release, held := x.held - 1 }
  | unheld {place : Nat} (hheld : x.held ≤ place) : Serves x scan (.drop place) .no x
  | cancelled :
      Serves x scan .cancel .yes { x with cancelled := Function.update x.cancelled scan true }

theorem Serves.serve_eq {response : Response} {x' : Pool} (h : Serves x scan r response x') :
    x.serve scan r = (x', response) := by
  have hsame : Function.update x.cancelled scan (x.cancelled scan) = x.cancelled :=
    Function.update_eq_self scan x.cancelled
  cases h with
  | handed hasks hfree hflag =>
    cases r with
    | tryAcquire => simp [serve, clients, Clients.serve, Permits.tryAcquire, hfree]
    | acquire =>
      rw [hflag rfl] at hsame
      simp [serve, clients, Clients.serve, Permits.acquire, Permits.tryAcquire, hflag rfl, hfree,
        hsame]
    | drop place => cases hasks
    | cancel => cases hasks
  | full hfull =>
    simp [serve, clients, Clients.serve, Permits.tryAcquire, Nat.not_lt.2 hfull]
  | denied hflag =>
    rw [hflag] at hsame
    simp [serve, clients, Clients.serve, Permits.acquire, hflag, hsame]
  | waits hfull hflag =>
    rw [hflag] at hsame
    simp [serve, clients, Clients.serve, Permits.acquire, Permits.tryAcquire, hflag,
      Nat.not_lt.2 hfull, hsame]
  | returned hheld => simp [serve, clients, Clients.serve, hheld]
  | unheld hnone => simp [serve, clients, Clients.serve, Nat.not_lt.2 hnone]
  | cancelled => rfl

theorem cancelled_serve_cancel (x : Pool) (scan : Nat) :
    (x.serve scan .cancel).1.cancelled scan = true := by
  rw [Serves.cancelled.serve_eq]
  exact Function.update_self scan true x.cancelled

/-- **Every request goes in one of these ways.** -/
theorem serves (x : Pool) (scan : Nat) (r : Request) :
    Serves x scan r (x.serve scan r).2 (x.serve scan r).1 := by
  obtain ⟨response, x', h⟩ : ∃ response x', Serves x scan r response x' := by
    cases r with
    | tryAcquire =>
      rcases Nat.lt_or_ge x.permits.active x.permits.limit with hfree | hfull
      · exact ⟨_, _, .handed rfl hfree nofun⟩
      · exact ⟨_, _, .full hfull⟩
    | acquire =>
      cases hflag : x.cancelled scan with
      | true => exact ⟨_, _, .denied hflag⟩
      | false =>
        rcases Nat.lt_or_ge x.permits.active x.permits.limit with hfree | hfull
        · exact ⟨_, _, .handed rfl hfree fun _ => hflag⟩
        · exact ⟨_, _, .waits hfull hflag⟩
    | drop place =>
      rcases Nat.lt_or_ge place x.held with hheld | hnone
      · exact ⟨_, _, .returned hheld⟩
      · exact ⟨_, _, .unheld hnone⟩
    | cancel => exact ⟨_, _, .cancelled⟩
  rwa [h.serve_eq]

/-! ## Any requests -/

theorem after_concat (x : Pool) (past : List (Nat × Request)) (scan : Nat) (r : Request) :
    x.after (past ++ [(scan, r)]) = ((x.after past).serve scan r).1 := by
  simp only [after, List.foldl_append, List.foldl_cons, List.foldl_nil]

theorem answers_concat (x : Pool) (past : List (Nat × Request)) (scan : Nat) (r : Request) :
    x.answers (past ++ [(scan, r)]) =
      x.answers past ++ [(r, ((x.after past).serve scan r).2)] := by
  induction past generalizing x with
  | nil => rfl
  | cons first past ih => simp only [List.cons_append, answers, ih, after, List.foldl_cons]

theorem handedOut_concat (x : Pool) (past : List (Nat × Request)) (scan : Nat) (r : Request) :
    x.handedOut (past ++ [(scan, r)]) = x.handedOut past +
      if r.asks && ((x.after past).serve scan r).2 = .yes then 1 else 0 := by
  rw [handedOut, answers_concat, List.countP_append, List.countP_singleton, handedOut]

theorem givenBack_concat (x : Pool) (past : List (Nat × Request)) (scan : Nat) (r : Request) :
    x.givenBack (past ++ [(scan, r)]) = x.givenBack past +
      if r.returns && ((x.after past).serve scan r).2 = .yes then 1 else 0 := by
  rw [givenBack, answers_concat, List.countP_append, List.countP_singleton, givenBack]

/-- The numbers of permits that were out, at any time up to some requests. -/
def levels (limit : Nat) (past : List (Nat × Request)) : Set Nat :=
  {n | ∃ earlier, earlier <+: past ∧ ((ofLimit limit).after earlier).permits.active = n}

/-- What is true of a pool after requests. -/
structure Accounted (limit : Nat) (past : List (Nat × Request)) (x : Pool) : Prop where
  limit_eq : x.permits.limit = max limit 1
  /-- The permits out are those handed out and not yet given back. -/
  balance : x.permits.active + (ofLimit limit).givenBack past = (ofLimit limit).handedOut past
  held : x.permits.active = x.held
  within : x.permits.active ≤ x.permits.limit
  /-- The peak is the largest number of permits that were out at any time. -/
  peak : IsGreatest (levels limit past) x.permits.peak
  peak_le : x.permits.peak ≤ x.permits.limit
  /-- A scan is cancelled once that was asked for. -/
  cancelled_iff : ∀ scan, x.cancelled scan = true ↔ (scan, .cancel) ∈ past

theorem levels_nil (limit : Nat) : levels limit [] = {0} := by
  ext n
  simp [levels, after, ofLimit, Permits.ofLimit, eq_comm]

theorem levels_concat (limit : Nat) (past : List (Nat × Request)) (q : Nat × Request) :
    levels limit (past ++ [q]) =
      insert ((ofLimit limit).after (past ++ [q])).permits.active (levels limit past) := by
  ext n
  simp only [levels, List.prefix_concat_iff, Set.mem_insert_iff, Set.mem_ofPred_eq, or_and_right,
    exists_or, exists_eq_left, eq_comm]

theorem accounted_nil (limit : Nat) : Accounted limit [] (ofLimit limit) where
  limit_eq := rfl
  balance := rfl
  held := rfl
  within := Nat.zero_le _
  peak := by
    rw [levels_nil]
    exact isGreatest_singleton
  peak_le := Nat.zero_le _
  cancelled_iff _ := by simp [ofLimit]

/-- A request that changes neither the permits nor their holders, and counts for neither side. -/
theorem Accounted.keep {x' : Pool} {response : Response} (h : Accounted limit past x)
    (hafter : (ofLimit limit).after past = x) (hserve : x.serve scan r = (x', response))
    (hpermits : x'.permits = x.permits) (hheld : x'.held = x.held)
    (hcount : response = .yes → r.asks = false ∧ r.returns = false)
    (hcancelled : ∀ n, x'.cancelled n = true ↔ (n, .cancel) ∈ past ++ [(scan, r)]) :
    Accounted limit (past ++ [(scan, r)]) x' := by
  have hnew : (ofLimit limit).after (past ++ [(scan, r)]) = x' := by
    rw [after_concat, hafter, hserve]
  have hnone : (r.asks && response = .yes) = false ∧ (r.returns && response = .yes) = false := by
    by_cases hyes : response = .yes
    · simp [hcount hyes]
    · simp [hyes]
  refine ⟨?_, ?_, ?_, ?_, ?_, ?_, hcancelled⟩
  · rw [hpermits, h.limit_eq]
  · rw [handedOut_concat, givenBack_concat, hafter, hserve, hpermits]
    simpa [hnone] using h.balance
  · rw [hpermits, hheld, h.held]
  · rw [hpermits]
    exact h.within
  · have hactive : x.permits.active ∈ levels limit past := ⟨past, List.prefix_rfl, by rw [hafter]⟩
    rw [levels_concat, hnew, hpermits, Set.insert_eq_of_mem hactive]
    exact h.peak
  · rw [hpermits]
    exact h.peak_le

/-- **Each request keeps the account.** -/
theorem Accounted.next {x' : Pool} {response : Response} (h : Accounted limit past x)
    (hafter : (ofLimit limit).after past = x) (hserves : Serves x scan r response x') :
    Accounted limit (past ++ [(scan, r)]) x' := by
  have hserve := hserves.serve_eq
  have hnew : (ofLimit limit).after (past ++ [(scan, r)]) = x' := by
    rw [after_concat, hafter, hserve]
  have hbalance := h.balance
  have hheld := h.held
  have hothers : r ≠ .cancel →
      ∀ n, x.cancelled n = true ↔ (n, .cancel) ∈ past ++ [(scan, r)] := by
    intro hr n
    simp [h.cancelled_iff n, hr.symm]
  cases hserves with
  | handed hasks hfree _ =>
    have hr : r.returns = false ∧ r ≠ .cancel := by
      cases r <;> simp_all [Request.asks, Request.returns]
    refine ⟨h.limit_eq, ?_, congrArg (· + 1) hheld, hfree, ?_, max_le h.peak_le hfree, hothers hr.2⟩
    · rw [handedOut_concat, givenBack_concat, hafter, hserve]
      simp only [hasks, hr.1]
      simp
      omega
    · rw [levels_concat, hnew, max_comm]
      exact h.peak.insert _
  | full _ => exact h.keep hafter hserve rfl rfl nofun (hothers nofun)
  | denied _ => exact h.keep hafter hserve rfl rfl nofun (hothers nofun)
  | waits _ _ => exact h.keep hafter hserve rfl rfl nofun (hothers nofun)
  | unheld _ => exact h.keep hafter hserve rfl rfl nofun (hothers nofun)
  | returned hplace =>
    have hout : x.permits.release.active + 1 = x.permits.active :=
      Nat.sub_add_cancel (hheld ▸ Nat.lt_of_le_of_lt (Nat.zero_le _) hplace)
    have hlower : x.permits.release.active ≤ x.permits.active := Nat.sub_le _ _
    refine ⟨h.limit_eq, ?_, ?_, hlower.trans h.within, ?_, h.peak_le, hothers nofun⟩
    · rw [handedOut_concat, givenBack_concat, hafter, hserve]
      simp [Request.asks, Request.returns]
      omega
    · show x.permits.release.active = x.held - 1
      omega
    · rw [levels_concat, hnew]
      have hpeak := h.peak.insert x.permits.release.active
      have hbelow : x.permits.active ≤ x.permits.peak :=
        h.peak.2 ⟨past, List.prefix_rfl, by rw [hafter]⟩
      rwa [max_eq_right (hlower.trans hbelow)] at hpeak
  | cancelled =>
    refine h.keep hafter hserve rfl rfl (fun _ => ⟨rfl, rfl⟩) fun n => ?_
    by_cases hn : n = scan
    · simp [hn]
    · simp [hn, h.cancelled_iff n]

/-- **The account of a pool**, after any requests. -/
theorem accounted (limit : Nat) (requests : List (Nat × Request)) :
    Accounted limit requests ((ofLimit limit).after requests) := by
  induction requests using List.reverseRecOn with
  | nil => exact accounted_nil limit
  | append_singleton past q ih =>
    rw [after_concat]
    exact ih.next rfl (serves _ _ _)

/-- How a pool answers the next request, whichever client makes it. -/
structure Attentive (x : Pool) : Prop where
  /-- A client of a cancelled scan gets no permit, even if one is left, and nothing changes. -/
  denied : ∀ scan, x.cancelled scan = true → x.serve scan .acquire = (x, .no)
  /-- Any other client gets one as soon as one is left. -/
  granted : ∀ scan, x.cancelled scan = false → x.permits.active < x.permits.limit →
    (x.serve scan .acquire).2 = .yes ∧
      (x.serve scan .acquire).1.permits.active = x.permits.active + 1
  waits : ∀ scan, x.cancelled scan = false → x.permits.active = x.permits.limit →
    x.serve scan .acquire = (x, .waits)
  /-- A client that does not wait gets a permit if one is left, whether its scan goes on or not. -/
  tried : ∀ scan, x.permits.active < x.permits.limit →
    (x.serve scan .tryAcquire).2 = .yes ∧
      (x.serve scan .tryAcquire).1.permits.active = x.permits.active + 1
  refused : ∀ scan, x.permits.active = x.permits.limit → x.serve scan .tryAcquire = (x, .no)
  /-- A permit that is held can be given back, and is one of those that are out. -/
  returned : ∀ scan place, place < x.held → (x.serve scan (.drop place)).2 = .yes ∧
    (x.serve scan (.drop place)).1.permits.active + 1 = x.permits.active
  /-- No other permit can be given back. -/
  unheld : ∀ scan place, x.held ≤ place → x.serve scan (.drop place) = (x, .no)

theorem Accounted.attentive (h : Accounted limit past x) : x.Attentive where
  denied _ hflag := (Serves.denied hflag).serve_eq
  granted _ hflag hfree := by
    rw [(Serves.handed rfl hfree fun _ => hflag).serve_eq]
    exact ⟨rfl, rfl⟩
  waits _ hflag hfull := (Serves.waits (Nat.le_of_eq hfull.symm) hflag).serve_eq
  tried _ hfree := by
    rw [(Serves.handed (r := .tryAcquire) rfl hfree nofun).serve_eq]
    exact ⟨rfl, rfl⟩
  refused _ hfull := (Serves.full (Nat.le_of_eq hfull.symm)).serve_eq
  returned _ place hplace := by
    rw [(Serves.returned hplace).serve_eq]
    exact ⟨rfl, Nat.sub_add_cancel (h.held ▸ Nat.lt_of_le_of_lt (Nat.zero_le _) hplace)⟩
  unheld _ _ hnone := (Serves.unheld hnone).serve_eq

end Pool

/-! ## Scans -/

namespace Dispatch

variable {p : Plan} {s s' : State} {m : Move} {moves : List Move} {limit : Nat} {cancelled : Bool}
  {x : Pool}

/-- A scan with its permits is the first scan of a pool. -/
structure Shares (s : State) (x : Pool) : Prop where
  permits : x.permits = s.permits
  held : x.held = s.holders
  cancelled : x.cancelled 0 = s.cancelled

/-- A permit passes as it does on the requests of a client. -/
theorem Shares.pass (h : Shares s x) (hpasses : Passes s m s') : ∃ requests,
    (x.after requests).permits = s'.permits ∧ (x.after requests).held = s'.holders ∧
      (x.after requests).cancelled 0 = s.cancelled := by
  obtain ⟨hpermits, hheld, hcancelled⟩ := h
  cases hpasses with
  | handed _ hflag hfree hpermits' hholders =>
    have hserves : Pool.Serves x 0 .acquire .yes _ :=
      .handed rfl (hpermits ▸ hfree) fun _ => hcancelled.trans hflag
    refine ⟨[(0, .acquire)], ?_⟩
    rw [Pool.after, List.foldl_cons, List.foldl_nil, hserves.serve_eq, hpermits', hholders]
    exact ⟨by rw [hpermits], by rw [hheld], hcancelled⟩
  | returned hpermits' hholders =>
    have hserves : Pool.Serves x 0 (.drop 0) .yes _ := .returned (by omega)
    refine ⟨[(0, .drop 0)], ?_⟩
    rw [Pool.after, List.foldl_cons, List.foldl_nil, hserves.serve_eq, hpermits', ← hpermits]
    have hless : x.held - 1 = s'.holders := by omega
    exact ⟨rfl, hless, hcancelled⟩
  | kept _ hpermits' hholders =>
    exact ⟨[], hpermits.trans hpermits'.symm, hheld.trans hholders.symm, hcancelled⟩

/-- **Each move of a scan is made of requests of a client.** -/
theorem Shares.move (h : Shares s x) (hgoes : Goes p s m s') :
    ∃ requests, Shares s' (x.after requests) := by
  obtain ⟨requests, hpermits, hheld, hcancelled⟩ := h.pass hgoes.passes
  by_cases hflag : s'.cancelled = s.cancelled
  · exact ⟨requests, hpermits, hheld, hcancelled.trans hflag.symm⟩
  · -- no move takes a cancellation back
    have hset : s'.cancelled = true := by
      cases hgoes with
      | gaveUp _ _ => rfl
      | cancelled => rfl
      | _ => exact absurd rfl hflag
    refine ⟨requests ++ [(0, .cancel)], ?_⟩
    rw [Pool.after_concat]
    exact ⟨hpermits, hheld, (Pool.cancelled_serve_cancel _ 0).trans hset.symm⟩

/-- **A scan asks for permits and gives them back as clients do**, after any moves. -/
theorem clients_of_run (h : run p (p.start limit cancelled) moves = some s) :
    ∃ requests, Shares s ((Pool.ofLimit limit).after requests) := by
  refine run_induction (motive := fun _ s => ∃ requests,
    Shares s ((Pool.ofLimit limit).after requests)) ?_ (fun _ _ _ _ _ ih hgoes => ?_) h
  · have hholders : (p.start limit cancelled).holders = 0 := by
      simp [State.holders, Plan.start, holds_turnTo]
    cases cancelled with
    | true => exact ⟨[(0, .cancel)], rfl, hholders.symm, rfl⟩
    | false => exact ⟨[], rfl, hholders.symm, rfl⟩
  · obtain ⟨requests, hshares⟩ := ih
    obtain ⟨more, hmore⟩ := hshares.move hgoes
    refine ⟨requests ++ more, ?_⟩
    rwa [Pool.after, List.foldl_append]

/-- The permits of a scan with tasks under way. -/
structure Supplied (p : Plan) (limit : Nat) (s : State) : Prop where
  /-- The admitting side and the tasks are clients, and hold what they were handed out. -/
  clients : ∃ requests, Shares s ((Pool.ofLimit limit).after requests)
  /-- No more tasks run than permits are out, and no more of these are out than there are. -/
  executing : s.running.length ≤ s.permits.active
  within : s.permits.active ≤ max limit 1
  peak_le : s.permits.peak ≤ max limit 1
  /-- A permit that comes back is one of those that are out. -/
  returned : ∀ m s', m.returns = true → step p s m = some s' →
    s'.permits.active + 1 = s.permits.active
  /-- When the scan is over, all permits are back. -/
  idle : s.isDone = true → s.permits.active = 0

theorem Held.returned (h : Held s) (hgoes : Goes p s m s') (hm : m.returns = true) :
    s'.permits.active + 1 = s.permits.active := by
  cases hgoes.passes with
  | handed hkind _ _ _ _ => exact absurd hm (Bool.eq_false_iff.1 hkind)
  | returned hpermits hholders =>
    rw [hpermits]
    exact h.active_release (by omega)
  | kept hkind _ _ => exact absurd hm (Bool.eq_false_iff.1 hkind)

theorem supplied_of_run (h : run p (p.start limit cancelled) moves = some s) :
    Supplied p limit s := by
  have hheld := held_of_run h
  obtain ⟨requests, hshares⟩ := clients_of_run h
  have haccount := Pool.accounted limit requests
  have hlimit := haccount.limit_eq
  have hwithin := haccount.within
  have hpeak := haccount.peak_le
  rw [hlimit, hshares.permits] at hwithin hpeak
  refine ⟨⟨requests, hshares⟩, ?_, hwithin, hpeak, fun m s' hm hstep => ?_, hheld.active_of_isDone⟩
  · have hactive := hheld.active
    rw [State.holders] at hactive
    omega
  · exact hheld.returned (goes_of_step hstep) hm

end Dispatch

/-- **Permits are accounted for.** Whatever clients ask for, and whichever scans are cancelled, the
permits out are those handed out and not given back, and never more than there are. So it is in a
scan, whatever its tasks do and whichever starts are refused: a task runs with a permit that is out,
and in the end all of them are back. -/
theorem permits_accounted :
    (∀ limit requests, ((Pool.ofLimit limit).after requests).Attentive ∧
      Pool.Accounted limit requests ((Pool.ofLimit limit).after requests)) ∧
    ∀ (p : Dispatch.Plan) (limit : Nat) (cancelled : Bool) (moves : List Dispatch.Move)
      (s : Dispatch.State), Dispatch.run p (p.start limit cancelled) moves = some s →
      Dispatch.Supplied p limit s :=
  ⟨fun limit requests =>
    have haccount := Pool.accounted limit requests
    ⟨haccount.attentive, haccount⟩,
    fun _ _ _ _ _ h => Dispatch.supplied_of_run h⟩

/-- A refused start, and a task that broke off and still holds its permit. -/
theorem permits_accounted_after_refusal : ∃ s : Dispatch.State,
    Dispatch.run ⟨3, 1⟩ (Dispatch.Plan.start ⟨3, 1⟩ 2 false)
      [.ask, .refused "busy", .ask, .launched, .ask, .launched, .finish 0 .died] = some s ∧
    s.running = [1] ∧ s.leaving = [0] ∧ s.permits.active = 2 ∧ Dispatch.Supplied ⟨3, 1⟩ 2 s :=
  let s : Dispatch.State :=
    { phase := .admitting 2 0, permits := { limit := 2, active := 2, peak := 2 }, running := [1]
      leaving := [0], admitted := 2, launches := 3 }
  have hrun : Dispatch.run ⟨3, 1⟩ (Dispatch.Plan.start ⟨3, 1⟩ 2 false) [.ask, .refused "busy", .ask,
      .launched, .ask, .launched, .finish 0 .died] = some s := rfl
  ⟨s, hrun, rfl, rfl, rfl, permits_accounted.2 ⟨3, 1⟩ 2 false _ s hrun⟩

end OpenRelay
