import OpenRelay.Address
import OpenRelay.Duration
import OpenRelay.Smtp.Reply

/-!
# Dialogues with the outside

A dialogue is a program that calls on the outside and goes on with what it answers: it looks up a
name, opens a connection, sends a line, reads a reply, or asks whether the scan was cancelled. It
says nothing about what the outside does, so the same dialogue is run on the network and against
a `Peer`.

* `Dialogue`: the programs.
* `Peer`: an outside whose answers may depend on all that happened before.
* `Dialogue.run`: the result of a dialogue with a peer, and the log of its calls.
-/

namespace OpenRelay

/-- What a reverse look-up finds. -/
inductive Lookup where
  | named (hostname : String)
  | unnamed
  | failed
deriving DecidableEq

/-- A program that calls on the outside. A failed call answers with a text. -/
inductive Dialogue (α : Type) where
  | done (result : α)
  /-- Asks whether the scan was cancelled. -/
  | poll (next : Bool → Dialogue α)
  | lookUp (address : Address) (next : Lookup → Dialogue α)
  | connect (address : Address) (port : Nat) (connectTimeout ioTimeout : Duration)
      (next : Except String Unit → Dialogue α)
  | send (line : String) (next : Except String Unit → Dialogue α)
  | read (timeout : Duration) (next : Except String Reply → Dialogue α)

namespace Dialogue

/-- Goes on with a second dialogue when the first is done. -/
protected def bind {α β : Type} : Dialogue α → (α → Dialogue β) → Dialogue β
  | done a, k => k a
  | poll next, k => poll fun b => (next b).bind k
  | lookUp x next, k => lookUp x fun r => (next r).bind k
  | connect x p c t next, k => connect x p c t fun r => (next r).bind k
  | send line next, k => send line fun r => (next r).bind k
  | read t next, k => read t fun r => (next r).bind k

instance : Monad Dialogue where
  pure := done
  bind := Dialogue.bind

/-- Whether the scan was cancelled by now. -/
def isCancelled : Dialogue Bool := poll done

/-- Looks up the name of an address. -/
def lookUpName (address : Address) : Dialogue Lookup := lookUp address done

/-- Opens a connection. -/
def connectTo (address : Address) (port : Nat) (connectTimeout ioTimeout : Duration) :
    Dialogue (Except String Unit) :=
  connect address port connectTimeout ioTimeout done

/-- Sends one line. -/
def sendLine (line : String) : Dialogue (Except String Unit) := send line done

/-- Reads one reply. -/
def readReply (timeout : Duration) : Dialogue (Except String Reply) := read timeout done

end Dialogue

/-! ## Peers -/

/-- A call on the outside together with its answer. -/
inductive Event where
  | lookedUp (address : Address) (found : Lookup)
  | connected (address : Address) (port : Nat) (connectTimeout ioTimeout : Duration)
      (result : Except String Unit)
  | sent (line : String) (result : Except String Unit)
  | heard (timeout : Duration) (result : Except String Reply)

/-- An event, and whether the scan was cancelled once the call had returned. -/
structure Entry where
  event : Event
  cancelled : Bool

/-- The answer to a call, and whether the scan is cancelled during the call. -/
structure Answer (α : Type) where
  value : α
  cancels : Bool := false

/-- An outside: how each call is answered after the calls logged so far. -/
structure Peer where
  lookUp : List Entry → Answer Lookup
  connect : List Entry → Answer (Except String Unit)
  send : List Entry → String → Answer (Except String Unit)
  read : List Entry → Duration → Answer (Except String Reply)

/-- What a dialogue has seen: its calls in order, and whether the scan is cancelled. -/
structure World where
  log : List Entry := []
  cancelled : Bool := false

/-- The world after a call. -/
def World.after (w : World) (event : Event) (cancels : Bool) : World :=
  { log := w.log ++ [{ event, cancelled := w.cancelled || cancels }],
    cancelled := w.cancelled || cancels }

/-- Runs a dialogue against a peer. The scan is cancelled during calls, or before the run. -/
def Dialogue.run {α : Type} (p : Peer) : Dialogue α → World → α × World
  | .done a, w => (a, w)
  | .poll next, w => (next w.cancelled).run p w
  | .lookUp x next, w =>
    let a := p.lookUp w.log
    (next a.value).run p (w.after (.lookedUp x a.value) a.cancels)
  | .connect x port c t next, w =>
    let a := p.connect w.log
    (next a.value).run p (w.after (.connected x port c t a.value) a.cancels)
  | .send line next, w =>
    let a := p.send w.log line
    (next a.value).run p (w.after (.sent line a.value) a.cancels)
  | .read t next, w =>
    let a := p.read w.log t
    (next a.value).run p (w.after (.heard t a.value) a.cancels)

namespace Dialogue

variable {α β : Type} (p : Peer)

@[simp] theorem run_pure (a : α) (w : World) : (pure a : Dialogue α).run p w = (a, w) := rfl

/-- A dialogue that goes on starts from the world that the first part leaves. -/
@[simp] theorem run_bind (d : Dialogue α) (k : α → Dialogue β) (w : World) :
    (d >>= k).run p w = (k (d.run p w).1).run p (d.run p w).2 := by
  show (d.bind k).run p w = _
  induction d generalizing w with
  | done a => rfl
  | poll next ih => exact ih _ _
  | lookUp x next ih => exact ih _ _
  | connect x port c t next ih => exact ih _ _
  | send line next ih => exact ih _ _
  | read t next ih => exact ih _ _

/-- A choice that does not depend on the outside is made before the run. -/
@[simp] theorem run_ite (c : Prop) [Decidable c] (d e : Dialogue α) (w : World) :
    (if c then d else e).run p w = if c then d.run p w else e.run p w := by
  split <;> rfl

@[simp] theorem run_isCancelled (w : World) : isCancelled.run p w = (w.cancelled, w) := rfl

@[simp] theorem run_lookUpName (x : Address) (w : World) :
    (lookUpName x).run p w =
      ((p.lookUp w.log).value,
        w.after (.lookedUp x (p.lookUp w.log).value) (p.lookUp w.log).cancels) := rfl

@[simp] theorem run_connectTo (x : Address) (port : Nat) (c t : Duration) (w : World) :
    (connectTo x port c t).run p w =
      ((p.connect w.log).value,
        w.after (.connected x port c t (p.connect w.log).value) (p.connect w.log).cancels) := rfl

@[simp] theorem run_sendLine (line : String) (w : World) :
    (sendLine line).run p w =
      ((p.send w.log line).value,
        w.after (.sent line (p.send w.log line).value) (p.send w.log line).cancels) := rfl

@[simp] theorem run_readReply (t : Duration) (w : World) :
    (readReply t).run p w =
      ((p.read w.log t).value,
        w.after (.heard t (p.read w.log t).value) (p.read w.log t).cancels) := rfl

end Dialogue

/-! ## Scripts -/

/-- A peer fixed beforehand: the answer to a send or a read depends on its number alone, counted
from zero. -/
structure Script where
  lookUp : Answer Lookup := { value := .unnamed }
  connect : Answer (Except String Unit) := { value := .ok () }
  send : Nat → Answer (Except String Unit)
  read : Nat → Answer (Except String Reply)

/-- Whether an event is a send. -/
def Event.isSend : Event → Bool
  | .sent .. => true
  | _ => false

/-- Whether an event is a read. -/
def Event.isRead : Event → Bool
  | .heard .. => true
  | _ => false

/-- Whether an event is the opening of a connection. -/
def Event.isConnect : Event → Bool
  | .connected .. => true
  | _ => false

/-- The peer that follows a script. -/
def Script.peer (s : Script) : Peer where
  lookUp _ := s.lookUp
  connect _ := s.connect
  send log _ := s.send (log.countP (·.event.isSend))
  read log _ := s.read (log.countP (·.event.isRead))

end OpenRelay
