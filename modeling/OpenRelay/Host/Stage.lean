import OpenRelay.Smtp.Reply

/-!
# Stages of a conversation

* `Stage`: the steps of a conversation, in the order in which they come.
* `Stage.accepts`: the replies with which a server lets the next step follow.
* `Failure`: why an attempt did not come to its end.
-/

namespace OpenRelay

/-- The steps of a conversation with a mail server. -/
inductive Stage where
  | resolve
  | connect
  | banner
  | helo
  | mailFrom
  | rcptTo
  | dataStart
  | dataEnd
  | rset
  | quit
deriving DecidableEq

namespace Stage

/-- All stages in order. -/
def all : List Stage :=
  [.resolve, .connect, .banner, .helo, .mailFrom, .rcptTo, .dataStart, .dataEnd, .rset, .quit]

/-- What users read. -/
def label : Stage → String
  | .resolve => "resolve"
  | .connect => "connect"
  | .banner => "banner"
  | .helo => "HELO"
  | .mailFrom => "MAIL FROM"
  | .rcptTo => "RCPT TO"
  | .dataStart => "DATA"
  | .dataEnd => "DATA end"
  | .rset => "RSET"
  | .quit => "QUIT"

/-- The name in structured output. -/
def name : Stage → String
  | .resolve => "Resolve"
  | .connect => "Connect"
  | .banner => "Banner"
  | .helo => "Helo"
  | .mailFrom => "MailFrom"
  | .rcptTo => "RcptTo"
  | .dataStart => "DataStart"
  | .dataEnd => "DataEnd"
  | .rset => "Rset"
  | .quit => "Quit"

/-- Whether a reply lets the conversation go on: the server asks for the message after `DATA`, and
says that it is done with any other command. -/
def accepts : Stage → Reply → Bool
  | .dataStart, r => r.isIntermediate
  | _, r => r.isCompletion

end Stage

/-- The kinds of failure. -/
inductive Cause where
  /-- The server refused. -/
  | rejected
  /-- The connection broke, or what came was no reply. -/
  | io
  /-- The scan was cancelled before the command was sent. -/
  | cancelled
deriving DecidableEq

/-- The name in structured output. -/
def Cause.name : Cause → String
  | .rejected => "Rejected"
  | .io => "Io"
  | .cancelled => "Cancelled"

/-- Why an attempt did not come to its end: where, how, and what was said. -/
structure Failure where
  stage : Stage
  cause : Cause
  code : Option Nat := none
  message : String
deriving DecidableEq

namespace Failure

/-- The server answered with a reply that does not accept. -/
def rejected (stage : Stage) (r : Reply) : Failure :=
  { stage, cause := .rejected, code := some r.code, message := r.text }

/-- The connection broke. -/
def io (stage : Stage) (message : String) : Failure := { stage, cause := .io, message }

/-- The scan was cancelled. -/
def cancelled (stage : Stage) : Failure :=
  { stage, cause := .cancelled, message := "scan cancelled" }

/-- The text shown to the user. -/
protected def toString (f : Failure) : String :=
  match f.cause, f.code with
  | .rejected, some code => s!"{f.stage.label} rejected with {code}"
  | .cancelled, _ => s!"{f.stage.label} cancelled"
  | _, _ => s!"{f.stage.label} failed: {f.message}"

instance : ToString Failure := ⟨Failure.toString⟩

end Failure

end OpenRelay
