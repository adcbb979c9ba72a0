import OpenRelay.Conversation.Dialogue
import OpenRelay.Conversation.Message
import OpenRelay.Settings

/-!
# The check of one host

A check is a dialogue: look up the name, connect, read the banner, try every rule, say `QUIT`. A
rule is a list of steps, each of which sends lines and reads one reply; the first reply that does
not accept ends the rule, and `RSET` follows either way. Cancellation is honoured before a line
is sent, so that the connection always stands between two commands.

* `stepsOf`: what is said for one rule.
* `pursue`: takes steps as long as they are accepted.
* `checkHost`: the whole check.
-/

namespace OpenRelay

/-- Why a conversation stops early. -/
inductive Halt where
  /-- The scan was cancelled before this stage could send its lines. -/
  | cancelled (stage : Stage)
  /-- The connection cannot be used any more. -/
  | broken (failure : Failure)
deriving DecidableEq

/-- What a stop means for the attempt that it cuts off. -/
def Halt.failure : Halt → Failure
  | .cancelled stage => .cancelled stage
  | .broken failure => failure

/-- One step of an attempt: lines to send and a reply to read. -/
structure Step where
  stage : Stage
  /-- Lines that go before the command and have no reply of their own. -/
  body : List String := []
  command : String
  timeout : Duration

namespace Settings

/-- The steps of an attempt: the envelope and, if wanted, the message. -/
def stepsOf (s : Settings) (address : Address) (index : Nat) (rule : Rule) : List Step :=
  [{ stage := .helo, command := rule.heloCommand, timeout := s.readTimeout },
   { stage := .mailFrom, command := rule.mailFromCommand, timeout := s.readTimeout },
   { stage := .rcptTo, command := rule.rcptToCommand, timeout := s.readTimeout }] ++
  if s.sendData then
    [{ stage := .dataStart, command := "DATA", timeout := s.readTimeout },
     { stage := .dataEnd, body := (messageLines s.subject address index rule).map stuff,
       command := ".", timeout := s.mailTimeout }]
  else []

/-- The step that ends an attempt. -/
def resetStep (s : Settings) : Step :=
  { stage := .rset, command := "RSET", timeout := s.readTimeout }

end Settings

open Dialogue (isCancelled lookUpName connectTo sendLine readReply)

/-- Sends lines, each one only if the scan goes on. -/
def transmit (stage : Stage) : List String → Dialogue (Except Halt Unit)
  | [] => pure (.ok ())
  | line :: rest => do
    match ← isCancelled with
    | true => pure (.error (.cancelled stage))
    | false =>
      match ← sendLine line with
      | .error e => pure (.error (.broken (.io stage e)))
      | .ok () => transmit stage rest

/-- Reads the reply owed for what was sent. -/
def hear (stage : Stage) (timeout : Duration) : Dialogue (Except Halt Reply) := do
  match ← readReply timeout with
  | .error e => pure (.error (.broken (.io stage e)))
  | .ok r => pure (.ok r)

/-- Takes one step: sends its lines and reads the reply. -/
def Step.take (s : Step) : Dialogue (Except Halt Reply) := do
  match ← transmit s.stage (s.body ++ [s.command]) with
  | .error h => pure (.error h)
  | .ok () => hear s.stage s.timeout

/-- Takes steps as long as they are accepted. An attempt that is accepted to the end went
through; one that is not fails with the reply that did not accept. -/
def pursue : List Step → Attempt → Dialogue (Attempt × Option Halt)
  | [], a => pure ({ a with verdict := .relayed }, none)
  | s :: rest, a => do
    let a := a.noteRequest s.stage s.command
    match ← s.take with
    | .error h => pure (a, some h)
    | .ok r =>
      let a := a.noteReply s.stage r
      if s.stage.accepts r then pursue rest a
      else pure ({ a with failure := some (.rejected s.stage r) }, none)

/-- Takes the step that ends an attempt. -/
def conclude (reset : Step) (a : Attempt) : Dialogue (Attempt × Option Halt) := do
  match ← reset.take with
  | .error h => pure (a, some h)
  | .ok r => pure (a.noteReply reset.stage r, none)

/-- Makes one attempt. -/
def tryRule (steps : List Step) (reset : Step) (a : Attempt) :
    Dialogue (Attempt × Option Halt) := do
  match ← pursue steps a with
  | (a, some h) => pure (a, some h)
  | (a, none) => conclude reset a

/-- The attempt that a stop cuts off. A failure noted before stays. -/
def Attempt.cutOff (a : Attempt) (h : Halt) : Attempt :=
  { a with failure := a.failure.or (some h.failure) }

/-- Says `QUIT` and reads the reply, if one comes. -/
def sayQuit (timeout : Duration) : Dialogue (Option Reply) := do
  match ← sendLine "QUIT" with
  | .error _ => pure none
  | .ok () =>
    match ← readReply timeout with
    | .error _ => pure none
    | .ok r => pure (some r)

/-- Closes a conversation that stops early. Before the banner the server owes a reply, and within
a message it takes `QUIT` as text; so there, as on a broken connection, nothing is said. -/
def closeEarly (timeout : Duration) (h : HostRecord) : Halt → Dialogue HostRecord
  | .cancelled .banner => pure { h with cancelled := true }
  | .cancelled .dataEnd => pure { h with cancelled := true }
  | .cancelled _ => do
    let quit ← sayQuit timeout
    pure { h with cancelled := true, quit }
  | .broken failure => pure { h with fatal := true, error := some (toString failure) }

/-- Tries rules one after the other, each with its number, and says `QUIT` behind the last. -/
def tryRules (s : Settings) : List (Rule × Nat) → HostRecord → Dialogue HostRecord
  | [], h => do
    let quit ← sayQuit s.readTimeout
    pure { h with quit }
  | (rule, index) :: rest, h => do
    match ← isCancelled with
    | true => closeEarly s.readTimeout h (.cancelled .helo)
    | false =>
      let attempt : Attempt := { ruleIndex := index, rule, banner := h.banner }
      match ← tryRule (s.stepsOf h.address index rule) s.resetStep attempt with
      | (a, none) => tryRules s rest { h with attempts := h.attempts ++ [a] }
      | (a, some halt) =>
        closeEarly s.readTimeout { h with attempts := h.attempts ++ [a.cutOff halt] } halt

/-- The rules of a scan expanded for a host, with their numbers. -/
def Settings.rulesFor (s : Settings) (h : HostRecord) : List (Rule × Nat) :=
  (s.rules.map fun r =>
    r.expand { address := h.address, hostname := h.hostname, mailbox := s.mailbox }).zipIdx

/-- Reads the banner and tries the rules, on a connection just opened. -/
def converse (s : Settings) (h : HostRecord) : Dialogue HostRecord := do
  match ← isCancelled with
  | true => closeEarly s.readTimeout h (.cancelled .banner)
  | false =>
    match ← hear .banner s.readTimeout with
    | .error halt => closeEarly s.readTimeout h halt
    | .ok r => tryRules s (s.rulesFor h) { h with banner := some r }

/-- Looks up the name of a host. A host without one is checked all the same. -/
def resolve (h : HostRecord) : Dialogue HostRecord := do
  match ← lookUpName h.address with
  | .named hostname => pure { h with hostname := some hostname, resolved := true }
  | .unnamed => pure h
  | .failed => pure h

/-- Looks up the name of a host if that is wanted. -/
def identify (s : Settings) (h : HostRecord) : Dialogue HostRecord :=
  if s.resolveHostnames then resolve h else pure h

/-- Opens the connection and converses. -/
def contact (s : Settings) (h : HostRecord) : Dialogue HostRecord := do
  match ← connectTo h.address s.port s.connectTimeout s.readTimeout with
  | .error e => pure { h with error := some (Stage.connect.label ++ ": " ++ e) }
  | .ok () => converse s { h with smtpOpen := true }

/-- Checks one host. -/
def checkHost (s : Settings) (index : Nat) (address : Address) : Dialogue HostRecord := do
  let h : HostRecord := { index, address }
  match ← isCancelled with
  | true => pure { h with cancelled := true }
  | false =>
    let h ← identify s h
    contact s h

end OpenRelay
