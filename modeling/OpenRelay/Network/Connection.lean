import OpenRelay.Conversation.Dialogue
import OpenRelay.Network.Alarm
import OpenRelay.Network.Fault
import OpenRelay.Smtp.Hostname
import OpenRelay.Smtp.Inbox
import OpenRelay.Smtp.Outbox
import Std.Internal.UV.DNS
import Std.Internal.UV.TCP

/-!
# Dialogues on the network

* `Connection`: an open connection with the bytes that it brought and nobody used yet.
* `Dialogue.perform`: carries out a dialogue on the network.
-/

namespace OpenRelay

open Std.Internal.UV (DNS.getNameInfo TCP.Socket)
open Std.Net (IPv4Addr SocketAddress)

/-- A host and a TCP port to connect to. -/
def Address.socketAddress (x : Address) (port : Nat) : SocketAddress :=
  .v4 { addr := IPv4Addr.ofParts x.a x.b x.c x.d, port := port.toUInt16 }

/-- Looks up the name of a host. A host without one answers with its own number. -/
def findName (x : Address) : IO Lookup := do
  let result ← SystemFault.catchIn do
    IO.wait (← DNS.getNameInfo (x.socketAddress 0)).result?
  match result with
  | .ok (some (.ok (name, _))) =>
    return if name = x.toString then .unnamed else .named (Hostname.normalize name)
  | _ => return .failed

/-- An open connection. -/
structure Connection where
  socket : TCP.Socket
  /-- The time for writing a line. -/
  writeTime : Duration
  /-- What arrived and was not used yet. -/
  buffer : List UInt8 := []

namespace Connection

/-- Makes a call that must end in time; `late` says that it did not. -/
def inTime {α : Type} (time : Duration) (late : String)
    (call : IO (IO.Promise (Except IO.Error α))) : IO (Except String α) := do
  let result ← SystemFault.catchIn do
    let promise ← call
    let alarm ← Alarm.set time
    let result ← alarm.race promise
    alarm.cancel
    result.mapM MonadExcept.ofExcept
  return result.bind fun a? => a?.elim (.error late) .ok

/-- Opens a connection on which each line leaves at once. -/
def open? (x : Address) (port : Nat) (connectTime writeTime : Duration) :
    IO (Except String Connection) := do
  match ← SystemFault.catchIn TCP.Socket.new with
  | .error e => return .error e
  | .ok socket =>
    let call := socket.connect (x.socketAddress port)
    match ← inTime connectTime SystemFault.connectTimeout call with
    | .error e => return .error e
    | .ok () => SystemFault.catchIn do
      socket.noDelay
      return { socket, writeTime }

/-- Sends a line. -/
def send (c : Connection) (line : String) : IO (Except String Unit) :=
  inTime c.writeTime SystemFault.writeTimeout (c.socket.send #[(lineBytes line).toByteArray])

/-- Reads a reply with an alarm running: as long as what arrived makes none, more is awaited. Each
wait brings a byte at least, and a reply has no more than `budget` bytes. -/
def readFrom (c : Connection) (alarm : Alarm) : Nat → Inbox → IO (Connection × Except String Reply)
  | 0, _ => return (c, .error ReplyError.longLine.message)
  | budget + 1, inbox => do
    match inbox.readReply with
    | (rest, .error .timedOut) =>
      match ← alarm.race (← c.socket.recv? maxRead.toUInt64) with
      | some (.ok (some bytes)) =>
        c.readFrom alarm budget { inbox with chunks := inbox.chunks ++ [bytes.toList] }
      | some (.ok none) => c.readFrom alarm budget { inbox with closes := true }
      | some (.error e) => return (c, .error (SystemFault.message e))
      | none =>
        c.socket.cancelRecv
        return ({ c with buffer := rest.buffer }, .error ReplyError.timedOut.message)
    | (rest, .error e) => return ({ c with buffer := rest.buffer }, .error e.message)
    | (rest, .ok r) => return ({ c with buffer := rest.buffer ++ rest.chunks.flatten }, .ok r)

/-- The most bytes that a reply can have. -/
def maxReply : Nat := maxReplyLines * (maxReplyLine + maxRead)

/-- Reads a reply. -/
def read (c : Connection) (time : Duration) : IO (Connection × Except String Reply) := do
  let result ← SystemFault.catchIn do
    let alarm ← Alarm.set time
    let result ← c.readFrom alarm (maxReply + 2) { buffer := c.buffer }
    alarm.cancel
    return result
  match result with
  | .ok result => return result
  | .error e => return (c, .error e)

end Connection

/-- Carries out a dialogue on the network, from the connection that it has opened so far.
`isCancelled` tells whether the scan was cancelled by now. -/
def Dialogue.perform {α : Type} (isCancelled : IO Bool) : Dialogue α → Option Connection → IO α
  | .done a, _ => return a
  | .poll next, c => do (next (← isCancelled)).perform isCancelled c
  | .lookUp x next, c => do (next (← findName x)).perform isCancelled c
  | .connect x port connectTime writeTime next, _ => do
    match ← Connection.open? x port connectTime writeTime with
    | .ok c => (next (.ok ())).perform isCancelled (some c)
    | .error e => (next (.error e)).perform isCancelled none
  | .send _ next, none => (next (.error SystemFault.notConnected)).perform isCancelled none
  | .send line next, some c => do (next (← c.send line)).perform isCancelled (some c)
  | .read _ next, none => (next (.error SystemFault.notConnected)).perform isCancelled none
  | .read time next, some c => do
    let (c, result) ← c.read time
    (next result).perform isCancelled (some c)

end OpenRelay
