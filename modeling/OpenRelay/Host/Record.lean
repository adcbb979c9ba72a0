import OpenRelay.Host.Stage
import OpenRelay.Rule.Basic

/-!
# What a scan finds out about a host

* `Attempt`: what came of one rule. An attempt that goes through is bad news: the host relays
  mail for strangers.
* `HostRecord`: what came of one host.
-/

namespace OpenRelay

/-- What an attempt says about the host. -/
inductive Verdict where
  /-- The host accepted mail that it has no business with: it is an open relay. -/
  | relayed
  /-- The host refused, or the attempt got no answer. -/
  | refused
deriving DecidableEq

namespace Verdict

/-- What users read. -/
def label : Verdict → String
  | .relayed => "passed (open relay)"
  | .refused => "failed (relay refused)"

/-- The name in structured output. -/
def name : Verdict → String
  | .relayed => "Passed"
  | .refused => "Failed"

end Verdict

/-- What came of one rule on one host: the commands, the replies to them, and the verdict. -/
structure Attempt where
  ruleIndex : Nat
  /-- The rule as it was expanded for the host. -/
  rule : Rule
  verdict : Verdict := .refused
  failure : Option Failure := none
  heloRequest : Option String := none
  mailFromRequest : Option String := none
  rcptToRequest : Option String := none
  banner : Option Reply := none
  helo : Option Reply := none
  mailFrom : Option Reply := none
  rcptTo : Option Reply := none
  dataStart : Option Reply := none
  dataEnd : Option Reply := none
  rset : Option Reply := none
deriving DecidableEq

namespace Attempt

/-- Whether the attempt went through. -/
def passed (a : Attempt) : Bool := a.verdict = .relayed

/-- The code with which the attempt failed, or zero. -/
def errorCode (a : Attempt) : Nat := (a.failure.bind (·.code)).getD 0

/-- The reply noted for a stage. -/
def reply? (a : Attempt) : Stage → Option Reply
  | .banner => a.banner
  | .helo => a.helo
  | .mailFrom => a.mailFrom
  | .rcptTo => a.rcptTo
  | .dataStart => a.dataStart
  | .dataEnd => a.dataEnd
  | .rset => a.rset
  | .resolve | .connect | .quit => none

/-- Notes the reply of a stage. Stages outside an attempt leave no reply. -/
def noteReply (a : Attempt) (s : Stage) (r : Reply) : Attempt :=
  match s with
  | .banner => { a with banner := some r }
  | .helo => { a with helo := some r }
  | .mailFrom => { a with mailFrom := some r }
  | .rcptTo => { a with rcptTo := some r }
  | .dataStart => { a with dataStart := some r }
  | .dataEnd => { a with dataEnd := some r }
  | .rset => { a with rset := some r }
  | .resolve | .connect | .quit => a

/-- Notes the command of a stage that takes its text from the rule. -/
def noteRequest (a : Attempt) (s : Stage) (command : String) : Attempt :=
  match s with
  | .helo => { a with heloRequest := some command }
  | .mailFrom => { a with mailFromRequest := some command }
  | .rcptTo => { a with rcptToRequest := some command }
  | _ => a

/-- Whether the host refused for now, as under greylisting, and may relay later on. -/
def isTemporary (a : Attempt) : Bool :=
  match a.failure with
  | some f => f.cause = .rejected && (a.reply? f.stage).any Reply.isTransient
  | none => false

/-- The replies noted, with their stages, in the order of the stages. -/
def replies (a : Attempt) : List (Stage × Reply) :=
  Stage.all.filterMap fun s => (a.reply? s).map fun r => (s, r)

end Attempt

/-- What came of one host. -/
structure HostRecord where
  /-- The place among the targets. -/
  index : Nat
  address : Address
  hostname : Option String := none
  /-- Whether the address has a name. -/
  resolved : Bool := false
  /-- Whether a connection was opened. -/
  smtpOpen : Bool := false
  /-- Whether the conversation broke. -/
  fatal : Bool := false
  /-- Whether the task for this host could not be started, or ended without a record. -/
  fatalError : Bool := false
  /-- Whether the scan was cancelled before the host was done with. -/
  cancelled : Bool := false
  /-- Whether the task for this host ran to its end. -/
  visited : Bool := false
  error : Option String := none
  banner : Option Reply := none
  attempts : List Attempt := []
  /-- The reply to the final `QUIT`. -/
  quit : Option Reply := none
deriving DecidableEq

namespace HostRecord

/-- Whether some attempt went through. -/
def isVulnerable (h : HostRecord) : Bool := h.attempts.any Attempt.passed

/-- The attempts that went through. -/
def passed (h : HostRecord) : List Attempt := h.attempts.filter Attempt.passed

/-- Whether something went wrong, with the conversation or with its task. -/
def isFatal (h : HostRecord) : Bool := h.fatal || h.fatalError

end HostRecord

end OpenRelay
