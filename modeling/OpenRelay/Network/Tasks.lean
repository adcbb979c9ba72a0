import OpenRelay.Conversation.Check
import OpenRelay.Network.Connection
import OpenRelay.Scan.Dispatch
import Std.Internal.UV.Signal

/-!
# Scans on the network

Each task of a scan is a thread that checks one host. The main thread makes the moves of
`Dispatch`: it starts tasks, and notes those that end, until nothing is left to do.

* `Interrupt.watch`: cancels a scan when the user interrupts it.
* `Settings.scanNetwork`: a whole scan.
-/

namespace OpenRelay

open Std.Internal.UV (Signal)

/-- Something that the main thread waits for. -/
inductive Wake where
  /-- The user interrupts the scan. -/
  | interrupted
  | ended (index : Nat) (outcome : Outcome)

/-- The wish of the user to stop. -/
structure Interrupt where
  raised : IO.Ref Bool
  /-- Ends when the wish is raised. -/
  wake : Task Wake

/-- The signal that interrupts a program. -/
def Interrupt.signal : Int32 := 2

/-- Watches for the user to interrupt the program from now on. -/
def Interrupt.watch : IO Interrupt := do
  let raised ← IO.mkRef false
  let signal ← Signal.mk Interrupt.signal true
  let arrived := (← signal.next).result?
  let wake ← BaseIO.mapTask (fun _ => do raised.set true; return .interrupted) arrived
  return { raised, wake }

/-- A task that was started and is not known to have ended. -/
structure Job where
  index : Nat
  ending : Task Wake

/-- Starts the task of a host. A task that breaks off has no record. -/
def Job.start (s : Settings) (interrupt : Interrupt) (index : Nat) (address : Address) :
    IO Job := do
  let check : BaseIO Wake := do
    match ← ((checkHost s index address).perform interrupt.raised.get none).toBaseIO with
    | .ok record => return .ended index (.reported record)
    | .error _ => return .ended index .died
  return { index, ending := ← BaseIO.asTask check .dedicated }

/-- Waits until a task ends, or the scan is interrupted if it was not before. -/
def Interrupt.await (i : Interrupt) (interrupted : Bool) (jobs : List Job) : IO Wake :=
  match jobs.map Job.ending ++ if interrupted then [] else [i.wake] with
  | [] => return .interrupted
  | task :: tasks => IO.waitAny (task :: tasks)

namespace Dispatch

/-- The state after a move, which can happen. -/
def State.move (p : Plan) (s : State) (m : Move) : State := (step p s m).getD s

/-- The most rounds that a scan takes: two for the start of each task and one for its end, two for
an interruption, and the last. -/
def Plan.rounds (p : Plan) : Nat := 3 * p.count + 3

/-- Makes moves until nothing is left to do, in so many rounds at most. -/
def drive (s : Settings) (p : Plan) (interrupt : Interrupt) :
    Nat → State → List Job → IO State
  | 0, state, _ => return state
  | rounds + 1, state, jobs => do
    if state.isDone then return state
    let state := if ← interrupt.raised.get then state.move p .cancel else state
    let wait : IO (State × List Job) := do
      match ← interrupt.await state.cancelled jobs with
      | .interrupted => return (state, jobs)
      | .ended index outcome =>
        let state := (state.move p (.finish index outcome)).move p (.release index)
        return (state, jobs.filter fun j => j.index ≠ index)
    let (state, jobs) ← match state.phase with
      | .draining => wait
      | .admitting _ _ =>
        match step p state .ask with
        | some state => pure (state, jobs)
        | none => wait
      | .launching index _ =>
        match s.targets.nth? index with
        | none => pure (state, jobs)
        | some address =>
          let job ← Job.start s interrupt index address
          pure (state.move p .launched, jobs ++ [job])
    drive s p interrupt rounds state jobs

end Dispatch

/-- Scans the targets on the network. -/
def Settings.scanNetwork (s : Settings) (interrupt : Interrupt) : IO Dispatch.State :=
  let plan : Dispatch.Plan := { count := s.targets.count, retries := s.launchRetries }
  Dispatch.drive s plan interrupt plan.rounds (plan.start s.concurrency false) []

end OpenRelay
