import OpenRelay.Command.Arguments
import OpenRelay.Conversation.Deadline
import OpenRelay.Settings
import OpenRelay.Text.Utf8

/-!
# From arguments to settings

* `Arguments.settings`: the settings that a command line asks for, once its files are read.
* `Explanation`: a fault with what it arose from, for one line of text.
-/

namespace OpenRelay

/-- A fault in words, from the outermost circumstance to the innermost cause. -/
abbrev Explanation := List String

/-- The explanation in one line. -/
def Explanation.line (e : Explanation) : String := ": ".intercalate e

/-- How files are read: by path, to bytes or to the fault that the system reports. -/
abbrev Files := String → Except String (List UInt8)

/-- How much is logged. -/
inductive LogLevel where
  | warn
  | info
  | debug
deriving DecidableEq

/-- The name of a level. -/
def LogLevel.name : LogLevel → String
  | .warn => "warn"
  | .info => "info"
  | .debug => "debug"

namespace Arguments

/-- How much is logged. -/
def logLevel (a : Arguments) : LogLevel :=
  match a.verbose with
  | 0 => .warn
  | 1 => .info
  | _ => .debug

/-- The text of a file. `what` says what the file is for. -/
def readText (files : Files) (what path : String) : Except Explanation String :=
  let context := "read " ++ what ++ " file " ++ path
  match files path with
  | .error fault => .error [context, fault]
  | .ok bytes =>
    match Text.Utf8.decode? bytes with
    | none => .error [context, "stream did not contain valid UTF-8"]
    | some text => .ok (String.ofList text)

/-- The targets that a command line asks for. -/
def targets (a : Arguments) (files : Files) : Except Explanation Targets :=
  match a.targetsFile with
  | some path => do
    match Targets.readList (← readText files "targets" path) with
    | .ok t => .ok t
    | .error e => .error ["parse targets file " ++ path, e.message]
  | none =>
    let range := a.range.getD ""
    match Range.read? range with
    | .ok r => .ok (.range r)
    | .error e => .error ["invalid --range '" ++ range ++ "'", e.message]

/-- The rules that a command line asks for: those of a file, or else the classic ones. -/
def rules (a : Arguments) (files : Files) : Except Explanation Rules :=
  match a.rulesFile with
  | some path => do
    match Rules.read (← readText files "rules" path) with
    | .ok rs => .ok rs
    | .error e => .error (("parse rules file " ++ path) :: e.chain)
  | none =>
    if a.relayAddress.isSome then .ok Rules.standardMailbox
    else .ok (Rules.standard a.externalDomain)

/-- The mailbox that a command line gives. -/
def mailbox (a : Arguments) : Except Explanation (Option Mailbox) :=
  match a.relayAddress with
  | none => .ok none
  | some text =>
    match Mailbox.read? text with
    | .ok m => .ok (some m)
    | .error e => .error (("invalid --relay-address '" ++ text ++ "'") :: e.chain)

/-- The settings that a command line asks for. Whoever gives a mailbox wants mail sent to it. -/
def settings (a : Arguments) (files : Files) : Except Explanation Settings := do
  let targets ← a.targets files
  let rules ← a.rules files
  let mailbox ← a.mailbox
  let s : Settings := {
    targets, rules, mailbox
    concurrency := a.threads
    port := a.port
    connectTimeout := .ofSeconds a.connectTimeout
    readTimeout := .ofSeconds a.readTimeout
    mailTimeout := .ofSeconds a.mailTimeout
    resolveHostnames := a.resolve
    sendData := a.sendData || mailbox.isSome
    maxTargets := a.maxTargets
    allowLargeScan := a.allowLargeScan }
  match s.fault? with
  | some e => .error ("invalid scan configuration" :: e.chain)
  | none => .ok s

end Arguments

end OpenRelay
