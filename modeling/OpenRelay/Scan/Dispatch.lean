import OpenRelay.Scan.Ledger
import OpenRelay.Scan.Permits
import OpenRelay.Scan.Report
import OpenRelay.Duration

/-!
# Dispatch of the tasks of a scan

One task is started for each target, in the order of the targets, each with a permit. Tasks run
beside each other and end in any order. Dispatch is a machine: its state is what the scan has
done so far, and a move is the next thing to happen, on the admitting side or in a task. Any
interleaving of a scan is a list of moves.

* `Dispatch.step`: the state after a move, if the move can happen.
* `Dispatch.run`: the state after a list of moves.
* `Dispatch.report`: the report of a scan whose tasks have ended.
-/

namespace OpenRelay

/-- How often the start of a task is tried again, and after what time. -/
structure RetryPolicy where
  retries : UInt32 := 5
  backoff : Duration := .ofMillis 200
deriving DecidableEq

/-- The wait before the next try after so many tries. It grows by the same amount each time. -/
def RetryPolicy.delay (p : RetryPolicy) (attempt : Nat) : Duration :=
  p.backoff.scaleSaturating attempt

/-- How a task ends. -/
inductive Outcome where
  | reported (record : HostRecord)
  /-- The task broke off without a record. -/
  | died
deriving DecidableEq

/-- A target whose task could not be started. -/
structure Abandoned where
  index : Nat
  attempts : UInt32
  reason : String
deriving DecidableEq

/-- The text shown to the user. -/
def Abandoned.message (a : Abandoned) : String :=
  s!"could not start scan task for host #{a.index} after {a.attempts.toNat} attempt(s): {a.reason}"

namespace Dispatch

/-- Where the admitting side stands. -/
inductive Phase where
  /-- It asks for a permit for this target, after so many refused starts. -/
  | admitting (index : Nat) (attempt : UInt32)
  /-- It holds the permit and has asked for the task to be started. -/
  | launching (index : Nat) (attempt : UInt32)
  /-- It starts no more tasks and waits for those that run. -/
  | draining
deriving DecidableEq

/-- What a scan has done so far. -/
structure State where
  phase : Phase
  permits : Permits
  /-- The tasks that were started and have not ended. -/
  running : List Nat := []
  /-- The tasks that have ended and still hold their permits. -/
  leaving : List Nat := []
  /-- The records that tasks sent, in the order of their arrival. -/
  sent : List (Nat × HostRecord) := []
  /-- How many tasks were started. -/
  admitted : Nat := 0
  /-- How often the start of a task was asked for. -/
  launches : Nat := 0
  cancelled : Bool := false
  abandoned : Option Abandoned := none
deriving DecidableEq

/-- The next thing to happen. -/
inductive Move where
  /-- The admitting side asks for a permit. -/
  | ask
  /-- The task is started. -/
  | launched
  /-- The task is not started, for this reason. -/
  | refused (reason : String)
  /-- A task ends, and its record is sent if it has one. -/
  | finish (index : Nat) (outcome : Outcome)
  /-- A task that has ended gives its permit back. -/
  | release (index : Nat)
  /-- The scan is cancelled. -/
  | cancel

/-- What is fixed for a scan: the number of targets and the number of new tries. -/
structure Plan where
  count : Nat
  retries : UInt32

namespace Plan

/-- The phase that turns to a target, or to the end if there are no more. -/
def turnTo (p : Plan) (index : Nat) : Phase :=
  if index < p.count then .admitting index 0 else .draining

/-- A scan before its first move. -/
def start (p : Plan) (limit : Nat) (cancelled : Bool) : State :=
  { phase := p.turnTo 0, permits := .ofLimit limit, cancelled }

end Plan

/-- The admitting side asks for a permit. A cancelled scan admits no more. -/
def ask (s : State) (index : Nat) (attempt : UInt32) : Option State :=
  match s.permits.acquire s.cancelled with
  | .granted permits => some { s with permits, phase := .launching index attempt }
  | .denied => some { s with phase := .draining }
  | .waits => none

/-- The task of the target is started. -/
def launch (p : Plan) (s : State) (index : Nat) : State :=
  { s with
    phase := p.turnTo (index + 1)
    running := s.running ++ [index]
    admitted := s.admitted + 1
    launches := s.launches + 1 }

/-- The task of the target is not started. The permit goes back, and when all tries are used up
the scan is cancelled. Tries are counted in a 32-bit word. -/
def refuse (p : Plan) (s : State) (index : Nat) (attempt : UInt32) (reason : String) : State :=
  let attempts := attempt + 1
  let s := { s with permits := s.permits.release, launches := s.launches + 1 }
  if p.retries < attempts then
    { s with
      phase := .draining, cancelled := true,
      abandoned := some { index, attempts, reason } }
  else { s with phase := .admitting index attempts }

/-- A task ends. -/
def finish (s : State) (index : Nat) (outcome : Outcome) : State :=
  { s with
    running := s.running.erase index
    leaving := s.leaving ++ [index]
    sent := s.sent ++ match outcome with
      | .reported record => [(index, record)]
      | .died => [] }

/-- The state after a move, if the move can happen. -/
def step (p : Plan) (s : State) : Move → Option State
  | .ask =>
    match s.phase with
    | .admitting index attempt => ask s index attempt
    | _ => none
  | .launched =>
    match s.phase with
    | .launching index _ => some (launch p s index)
    | _ => none
  | .refused reason =>
    match s.phase with
    | .launching index attempt => some (refuse p s index attempt reason)
    | _ => none
  | .finish index outcome =>
    if index ∈ s.running then some (finish s index outcome) else none
  | .release index =>
    if index ∈ s.leaving then
      some { s with leaving := s.leaving.erase index, permits := s.permits.release }
    else none
  | .cancel => some { s with cancelled := true }

/-- The state after a list of moves, if they can happen one after the other. -/
def run (p : Plan) (s : State) : List Move → Option State
  | [] => some s
  | m :: ms => (step p s m).bind fun s => run p s ms

/-- Whether nothing is left to do. -/
def State.isDone (s : State) : Bool :=
  s.phase = .draining && s.running.isEmpty && s.leaving.isEmpty

/-- The ledger of a scan whose tasks have ended. -/
def ledger (t : Targets) (s : State) : Ledger :=
  let entered := s.sent.foldl (fun (l : Ledger) sent => l.enter sent.1 sent.2) (.ofTargets t)
  let closed := entered.finalize s.admitted
  match s.abandoned with
  | none => closed
  | some a => closed.markUnstarted a.index ("scan task not started: " ++ a.reason)

/-- The report of a scan whose tasks have ended. -/
def report (t : Targets) (s : State) : Report where
  hosts := (ledger t s).records.toList
  cancelled := s.cancelled
  peakActive := s.permits.peak

end Dispatch

end OpenRelay
