import OpenRelay.Proofs.Conversation.Classes
import OpenRelay.Proofs.Scan.Network

/-!
# The states of hosts in a report

The flags of a record are set by the check of its host, by the ledger when it is closed, and by the
admitting side when it gives up. They are set apart from each other, but only seven combinations
come out.

* `HostRecord.Stands`: the seven combinations, and what else the record says then.
* `HostRecord.Stands.flags_mem`: what is true of these combinations is true of every host.
* `Execution.On.stands`: each host of a report is in one of them.
* `Mixed.execution`: a scan whose hosts are in different ones.
-/

namespace OpenRelay

/-- The flags of a record. -/
structure Flags where
  visited : Bool := false
  smtpOpen : Bool := false
  fatal : Bool := false
  fatalError : Bool := false
  cancelled : Bool := false
deriving DecidableEq

/-- The flags that are set in a record. -/
def HostRecord.flags (h : HostRecord) : Flags where
  visited := h.visited
  smtpOpen := h.smtpOpen
  fatal := h.fatal
  fatalError := h.fatalError
  cancelled := h.cancelled

/-- How a host can stand in a report. -/
inductive HostRecord.Stands (s : Settings) (h : HostRecord) : Prop where
  /-- Its task began when the scan was cancelled already. -/
  | skipped (hflags : h.flags = { visited := true, cancelled := true }) (hnone : h.attempts = [])
  | unreachable (hflags : h.flags = { visited := true }) (hnone : h.attempts = [])
  /-- The conversation broke. -/
  | broken (hflags : h.flags = { visited := true, smtpOpen := true, fatal := true })
      (hlength : h.attempts.length ≤ s.rules.length)
  /-- The scan was cancelled during the conversation. -/
  | interrupted (hflags : h.flags = { visited := true, smtpOpen := true, cancelled := true })
      (hlength : h.attempts.length ≤ s.rules.length)
  /-- All rules were tried. -/
  | complete (hflags : h.flags = { visited := true, smtpOpen := true })
      (hlength : h.attempts.length = s.rules.length)
  /-- Its task could not be started, or broke off. -/
  | failed (hflags : h.flags = { fatalError := true }) (hnone : h.attempts = [])
  /-- Its task was not started, as the scan was cancelled before. -/
  | unstarted (hflags : h.flags = { cancelled := true }) (hnone : h.attempts = [])

/-- The combinations in the same order. -/
def Flags.known : List Flags :=
  [{ visited := true, cancelled := true },
   { visited := true },
   { visited := true, smtpOpen := true, fatal := true },
   { visited := true, smtpOpen := true, cancelled := true },
   { visited := true, smtpOpen := true },
   { fatalError := true },
   { cancelled := true }]

variable {s : Settings} {index i : Nat} {address x : Address} {c c' : Bool} {es : List Entry}
  {h : HostRecord}

theorem HostRecord.Stands.flags_mem (hs : h.Stands s) : h.flags ∈ Flags.known := by
  cases hs with
  | skipped hflags _ | unreachable hflags _ | broken hflags _ | interrupted hflags _
  | complete hflags _ | failed hflags _ | unstarted hflags _ =>
    rw [hflags]
    decide

/-- The ledger adds to the flags of a check that the host was visited. -/
theorem HostRecord.flags_placed {smtpOpen fatal fatalError cancelled : Bool}
    (hopen : h.smtpOpen = smtpOpen) (hfatal : h.fatal = fatal) (herror : h.fatalError = fatalError)
    (hcancelled : h.cancelled = cancelled) :
    (h.placed i x).flags = ⟨true, smtpOpen, fatal, fatalError, cancelled⟩ := by
  subst hopen hfatal herror hcancelled
  rfl

/-- A check that opened no connection tried nothing, and broke nothing. -/
theorem Checks.closed (hc : Checks s index address c es h c') (hclosed : h.smtpOpen = false) :
    h.attempts = [] ∧ h.fatal = false := by
  cases hc with
  | skipped => exact ⟨rfl, rfl⟩
  | unreachable hi _ => exact ⟨hi.attempts_eq, hi.plain.1.fatal⟩
  | reached hi _ hconv =>
    -- however a conversation ends, its connection was opened
    have hopen : h.smtpOpen = true := by
      obtain ⟨hplain, hquit, -⟩ := hi.plain
      have hends : (h.Plain ∧ h.banner.isSome = true) ∨
          h.InClass s [] .fatal ∨ h.InClass s [] .interrupted := hconv.classified hplain hquit
      rcases hends with ⟨hplain', -⟩ | hfatal | hinterrupted
      · exact hplain'.smtpOpen
      · cases hfatal
        assumption
      · cases hinterrupted
        assumption
    rw [hopen] at hclosed
    cases hclosed

/-- A host whose check has come to its end is in one of the states. -/
theorem Checks.stands (hc : Checks s index address c es h c') (i : Nat) (x : Address) :
    (h.placed i x).Stands s := by
  have herror := hc.regular.fatalError
  have hlength := hc.regular.length_le
  obtain ⟨k, hk⟩ := hc.classified
  cases hk with
  | skipped hcancelled hclosed =>
    obtain ⟨hnone, hfatal⟩ := hc.closed hclosed
    exact .skipped (HostRecord.flags_placed hclosed hfatal herror hcancelled) hnone
  | unreachable hclosed hcancelled _ _ =>
    obtain ⟨hnone, hfatal⟩ := hc.closed hclosed
    exact .unreachable (HostRecord.flags_placed hclosed hfatal herror hcancelled) hnone
  | fatal hopen hfatal _ hcancelled _ =>
    exact .broken (HostRecord.flags_placed hopen hfatal herror hcancelled) hlength
  | interrupted hopen hcancelled hfatal _ =>
    exact .interrupted (HostRecord.flags_placed hopen hfatal herror hcancelled) hlength
  | complete hopen hfatal hcancelled _ _ hall _ =>
    exact .complete (HostRecord.flags_placed hopen hfatal herror hcancelled) hall

/-- So is a host whose task was not started. -/
theorem Dispatch.stands_unstarted (abandoned : Option Abandoned) (i : Nat) (x : Address) :
    (unstarted abandoned i x).Stands s := by
  unfold unstarted
  split
  · split
    · exact .failed rfl rfl
    · exact .unstarted rfl rfl
  · exact .unstarted rfl rfl

/-- **Each host of a report is in one of the states.** -/
theorem Execution.On.stands {t : Targets} {x : Execution t} {net : Network} (hx : x.On s net) :
    ∀ h ∈ x.report.hosts, h.Stands s := by
  intro h hmem
  cases hx.source hmem with
  | checked hchecks => exact hchecks.stands _ _
  | vanished => exact .failed rfl rfl
  | unstarted abandoned index address => exact Dispatch.stands_unstarted abandoned index address

/-! ## A scan of hosts in different states -/

namespace Mixed

def host (d : UInt8) : Address := ⟨192, 0, 2, d⟩

/-- One host that relays, one that cannot be reached, one that hangs up on the first command, one
whose task breaks off, one that refuses, and one that is not tried any more. -/
def targets : Targets := .list ([1, 2, 3, 4, 5, 6].map host)

def settings : Settings := { rules := [{ helo := "a", mailFrom := "b", rcptTo := "c" }] }

/-- What the hosts answer. -/
def script (address : Address) : Script where
  connect := { value := if address = host 2 then .error "refused" else .ok () }
  send _ := { value := if address = host 3 then .error "closed" else .ok () }
  read n := { value := .ok { code := if address = host 5 ∧ n = 3 then 550 else 250, text := "" } }

def network : Network where
  peer address := (script address).peer
  breaks address _ := address = host 4

/-- How a task ends that does not break off. -/
def outcome (index : Nat) (d : UInt8) : Outcome :=
  .reported (settings.recordOf (network.peer (host d)) index (host d) false)

/-- The scan is cancelled while the host that refuses is talked to. -/
def moves : List Dispatch.Move :=
  [.ask, .launched, .ask, .launched, .finish 1 (outcome 1 2), .finish 0 (outcome 0 1),
    .release 0, .release 1, .ask, .launched, .ask, .launched, .finish 2 (outcome 2 3),
    .finish 3 .died, .release 3, .release 2, .ask, .launched, .cancel, .ask,
    .finish 4 (outcome 4 5), .release 4]

def execution : Execution targets :=
  { retries := 0, limit := 2, moves, last := _, run := rfl, done := rfl }

theorem ends {index : Nat} {d : UInt8} (hd : host d ≠ host 4)
    (hcalm : ((checkHost settings index (host d)).run (network.peer (host d)) {}).2.cancelled =
      false) :
    network.Ends settings index (host d) (outcome index d) false :=
  network.ends_of_calm (fun _ => decide_eq_false hd) hcalm

theorem execution_on : execution.On settings network := by
  have hendings : execution.endings =
      [(1, outcome 1 2), (0, outcome 0 1), (2, outcome 2 3), (3, .died), (4, outcome 4 5)] := rfl
  have hdied : network.Ends settings 3 (host 4) .died false :=
    @Network.Ends.died network settings 3 (host 4) _ false [] (.refl _) List.nil_prefix
      (by decide)
  refine Execution.on_of_ends ?_
  rw [hendings]
  simp only [List.forall_mem_cons, List.not_mem_nil, false_imp_iff, implies_true, and_true]
  exact ⟨⟨host 2, rfl, ends (by decide) (by decide +kernel)⟩,
    ⟨host 1, rfl, ends (by decide) (by decide +kernel)⟩,
    ⟨host 3, rfl, ends (by decide) (by decide +kernel)⟩,
    ⟨host 4, rfl, hdied⟩,
    ⟨host 5, rfl, ends (by decide) (by decide +kernel)⟩⟩

end Mixed

end OpenRelay
