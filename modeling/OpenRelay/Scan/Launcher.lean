import OpenRelay.Conversation.Check
import OpenRelay.Scan.Dispatch

/-!
# Launchers

A launcher is asked to start tasks. This one collects them and runs them in batches, one after
the other, before the last start of the batch is confirmed; it may refuse some starts. With a
batch of one, every task runs as soon as it is started.

* `probe`: what the task of a host does.
* `Launcher.scan`: a whole scan, as a sequence of moves of `Dispatch`.
-/

namespace OpenRelay

/-- What a task did: how it ended, which calls it made, and whether the scan is cancelled now. -/
structure TaskRun where
  address : Address
  outcome : Outcome
  log : List Entry
  cancelled : Bool

/-- Runs the task of a host. A task that `dies` does so within the call that opens the connection,
so up to there it is like one whose connection is refused. -/
def probe (s : Settings) (peer : Peer) (dies : Bool) (index : Nat) (address : Address)
    (cancelled : Bool) : TaskRun :=
  let peer := if dies then { peer with connect := fun _ => { value := .error "" } } else peer
  let (record, world) := (checkHost s index address).run peer { cancelled }
  let died := dies && world.log.any (·.event.isConnect)
  { address, log := world.log, cancelled := world.cancelled,
    outcome := if died then .died else .reported record }

/-- How tasks are started. -/
structure Launcher where
  /-- How many tasks are collected before they run. -/
  batch : Nat := 1
  /-- Whether the task collected last runs first. -/
  newestFirst : Bool := false
  /-- Whether the start with this number, counted from zero, is refused. -/
  refuses : Nat → Bool := fun _ => false
  /-- The reason given for a refusal. -/
  reason : String := "Resource temporarily unavailable"

namespace Launcher

/-- A scan under way: the state of dispatch, the tasks collected, and what tasks did so far. -/
structure Progress where
  state : Dispatch.State
  collected : List Nat := []
  runs : List TaskRun := []

open Dispatch (Plan Move)

/-- Makes a move. A move that cannot happen changes nothing. -/
def Progress.move (plan : Plan) (g : Progress) (m : Move) : Progress :=
  match Dispatch.step plan g.state m with
  | some state => { g with state }
  | none => g

/-- Runs one task to its end. -/
def runTask (plan : Plan) (targets : Targets) (probe : Nat → Address → Bool → TaskRun)
    (g : Progress) (index : Nat) : Progress :=
  match targets.nth? index with
  | none => g
  | some address =>
    let r := probe index address g.state.cancelled
    let moves := (if r.cancelled then [Move.cancel] else []) ++
      [.finish index r.outcome, .release index]
    moves.foldl (Progress.move plan) { g with runs := g.runs ++ [r] }

/-- Runs all tasks collected. -/
def flush (l : Launcher) (plan : Plan) (targets : Targets)
    (probe : Nat → Address → Bool → TaskRun) (g : Progress) : Progress :=
  let order := if l.newestFirst then g.collected.reverse else g.collected
  order.foldl (runTask plan targets probe) { g with collected := [] }

/-- Does the next thing: asks for a permit, or answers to a start asked for. When all permits are
out, or a start is refused, the tasks collected run first. -/
def advance (l : Launcher) (plan : Plan) (targets : Targets)
    (probe : Nat → Address → Bool → TaskRun) (g : Progress) : Progress :=
  match g.state.phase with
  | .draining => l.flush plan targets probe g
  | .admitting _ _ =>
    match Dispatch.step plan g.state .ask with
    | some state => { g with state }
    | none => l.flush plan targets probe g
  | .launching index _ =>
    if l.refuses g.state.launches then
      (l.flush plan targets probe g).move plan (.refused l.reason)
    else
      let g := { g.move plan .launched with collected := g.collected ++ [index] }
      if l.batch ≤ g.collected.length ∨ index + 1 = plan.count then
        l.flush plan targets probe g
      else g

/-- Advances until nothing is left to do, at most so many times. -/
def advanceAll (l : Launcher) (plan : Plan) (targets : Targets)
    (probe : Nat → Address → Bool → TaskRun) : Nat → Progress → Progress
  | 0, g => g
  | fuel + 1, g =>
    if g.state.isDone then g
    else l.advanceAll plan targets probe fuel (l.advance plan targets probe g)

/-- Scans the targets. Each target takes two advances for every try, and one more for each batch
that waits for permits. -/
def scan (l : Launcher) (s : Settings) (probe : Nat → Address → Bool → TaskRun)
    (cancelled : Bool) : Progress :=
  let plan : Plan := { count := s.targets.count, retries := s.launchRetries }
  let fuel := 3 * (plan.count + 1) * (plan.retries.toNat + 2)
  l.advanceAll plan s.targets probe fuel { state := plan.start s.concurrency cancelled }

end Launcher

end OpenRelay
