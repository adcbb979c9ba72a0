import OpenRelay.Duration
import OpenRelay.Rule.Basic
import OpenRelay.Target.Targets

/-!
# Settings of a scan

* `Settings`: everything that one scan is told, with the usual values.
* `Settings.fault?`: why a scan with these settings must not start, if so.
-/

namespace OpenRelay

/-- What a scan is told. -/
structure Settings where
  targets : Targets := .list []
  rules : Rules := []
  /-- The most hosts that are probed at the same time. -/
  concurrency : Nat := 32
  port : Nat := 25
  connectTimeout : Duration := .ofSeconds 10
  /-- The time for each reply, and for writing each command. -/
  readTimeout : Duration := .ofSeconds 30
  /-- The time for the reply to a complete message. -/
  mailTimeout : Duration := .ofSeconds 60
  resolveHostnames : Bool := false
  /-- Whether accepted attempts go on to send a short message. -/
  sendData : Bool := false
  subject : String := "relayscan open relay test"
  /-- The mailbox that the macros of the rules stand for. -/
  mailbox : Option Mailbox := none
  /-- The most targets that are visited without an explicit permission. -/
  maxTargets : Nat := 65536
  allowLargeScan : Bool := false
  /-- How often the start of a task is tried again. -/
  launchRetries : UInt32 := 5
  /-- The wait before the first new try. -/
  launchBackoff : Duration := .ofMillis 200

/-- The three timeouts of a scan. -/
inductive Timeout where
  | connect
  | read
  | mail
deriving DecidableEq

/-- The name of a timeout as users know it. -/
def Timeout.name : Timeout → String
  | .connect => "connect"
  | .read => "read"
  | .mail => "mail"

/-- Why a scan must not start. -/
inductive SettingsError where
  | zeroConcurrency
  | zeroPort
  | zeroTimeout (timeout : Timeout)
  | rules (cause : RuleError)
  /-- The rules name the mailbox of the scan, and there is none. -/
  | noMailbox
  /-- The range has no bound, and nobody allowed that. -/
  | unbounded
  /-- There are more targets than the ceiling, and nobody allowed that. -/
  | tooManyTargets (count ceiling : Nat)
deriving DecidableEq

namespace SettingsError

/-- The text shown to the user. -/
def message : SettingsError → String
  | .zeroConcurrency => "concurrency limit must be at least 1"
  | .zeroPort => "port must not be 0"
  | .zeroTimeout t => s!"{t.name} timeout must be greater than zero"
  | .rules cause => "invalid rule set: " ++ cause.message
  | .noMailbox => "rules use \x7bname\x7d/\x7bdomain\x7d but no relay address was given"
  | .unbounded =>
    "no bounds given for any octet (255^4 addresses); pass allow_large_scan to confirm"
  | .tooManyTargets count ceiling =>
    s!"{count} targets exceed the safety ceiling of {ceiling}; pass allow_large_scan to confirm"

/-- The fault and what caused it, outermost first. -/
def chain : SettingsError → List String
  | .rules cause => message (.rules cause) :: cause.chain
  | e => [message e]

end SettingsError

namespace Settings

/-- The length of a timeout. -/
def timeout (s : Settings) : Timeout → Duration
  | .connect => s.connectTimeout
  | .read => s.readTimeout
  | .mail => s.mailTimeout

/-- Why there are too many targets, if so. -/
def sizeFault? (s : Settings) : Option SettingsError :=
  if s.allowLargeScan then none
  else if s.targets.isUnbounded then some .unbounded
  else if s.maxTargets < s.targets.count then
    some (.tooManyTargets s.targets.count s.maxTargets)
  else none

/-- Why a scan must not start, if so. The first fault found is reported. -/
def fault? (s : Settings) : Option SettingsError :=
  if s.concurrency = 0 then some .zeroConcurrency
  else if s.port = 0 then some .zeroPort
  else
    match [Timeout.connect, .read, .mail].find? fun t => s.timeout t = .zero with
    | some t => some (.zeroTimeout t)
    | none =>
      if s.rules.isEmpty then some (.rules .noRules)
      else if s.mailbox.isNone && s.rules.needMailbox then some .noMailbox
      else s.sizeFault?

end Settings

end OpenRelay
