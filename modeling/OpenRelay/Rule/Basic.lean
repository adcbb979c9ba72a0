import OpenRelay.Rule.Template

/-!
# Rules

A rule is a template of one relay attempt: the name announced with `HELO` and the two addresses
of the envelope. An empty sender address is sent as the null sender.

* `Rule.fault?`: why a rule cannot be sent, if so.
* `Rule.expand`: the rule for one target.
* `Rule.read`: reads `helo|mail_from|rcpt_to`.
-/

namespace OpenRelay

/-- The template of one relay attempt. -/
structure Rule where
  helo : String
  mailFrom : String
  rcptTo : String
deriving DecidableEq, Inhabited

namespace Rule

/-- The text of a field. -/
def get (r : Rule) : Field → String
  | .helo => r.helo
  | .mailFrom => r.mailFrom
  | .rcptTo => r.rcptTo

/-- Whether a text would break the line it is put into. -/
def breaksLine (s : String) : Bool := s.toList.any fun c => c = '\r' || c = '\n'

/-- Whether there is nothing but blanks in a text. -/
def isBlank (s : String) : Bool := s.toList.all Text.isBlank

/-- Why a rule cannot be sent, if so. A line break in any field comes before a blank field; only
the sender may be blank. -/
def fault? (r : Rule) : Option RuleError :=
  match [Field.helo, .mailFrom, .rcptTo].find? fun f => breaksLine (r.get f) with
  | some f => some (.lineBreak f)
  | none => ([Field.helo, .rcptTo].find? fun f => isBlank (r.get f)).map .blankField

/-- Whether a field names the mailbox of the scan. -/
def usesMailbox (r : Rule) : Bool :=
  [r.helo, r.mailFrom, r.rcptTo].any Template.usesMailbox

/-- The rule with its macros replaced. -/
def expand (r : Rule) (b : Bindings) : Rule :=
  { helo := b.apply r.helo, mailFrom := b.apply r.mailFrom, rcptTo := b.apply r.rcptTo }

/-- The command that announces the name. -/
def heloCommand (r : Rule) : String := "HELO " ++ r.helo

/-- The command that names the sender. -/
def mailFromCommand (r : Rule) : String := "MAIL FROM:<" ++ r.mailFrom ++ ">"

/-- The command that names the recipient. -/
def rcptToCommand (r : Rule) : String := "RCPT TO:<" ++ r.rcptTo ++ ">"

/-- Reads the three fields of a rule, with bars between them and blanks around them. -/
def read (cs : List Char) : Except RuleError Rule :=
  match (Text.pieces '|' cs).map fun p => String.ofList (Text.trimmed p) with
  | [helo, mailFrom, rcptTo] =>
    let r : Rule := { helo, mailFrom, rcptTo }
    match r.fault? with
    | some e => .error e
    | none => .ok r
  | fields => .error (.fieldCount fields.length)

end Rule

/-! ## Sets of rules -/

/-- Rules in the order in which they are tried. -/
abbrev Rules := List Rule

namespace Rules

/-- The first fault of some rules, with the number of the rule; `number` is that of the first. -/
def faultFrom? (number : Nat) : Rules → Option RuleError
  | [] => none
  | r :: rs =>
    match r.fault? with
    | some e => some (.onLine number e)
    | none => faultFrom? (number + 1) rs

/-- Rules that can all be sent. -/
def ofList (rs : List Rule) : Except RuleError Rules :=
  match faultFrom? 1 rs with
  | some e => .error e
  | none => .ok rs

/-- Reads the lines of a rule file; `number` is the number of the first one. -/
def readLines (number : Nat) : List (List Char) → Except RuleError Rules
  | [] => .ok []
  | line :: rest =>
    let text := Text.trimmed line
    if text = [] ∨ text.head? = some '#' then readLines (number + 1) rest
    else
      match Rule.read text with
      | .ok r => do return r :: (← readLines (number + 1) rest)
      | .error e => .error (.onLine number e)

/-- Reads a rule file: one rule a line, where blank lines and lines that open with a number sign
do not count. -/
def read (s : String) : Except RuleError Rules :=
  match readLines 1 (Text.lines s.toList) with
  | .ok [] => .error .noRules
  | result => result

/-- Whether some rule names the mailbox of the scan. -/
def needMailbox (rs : Rules) : Bool := rs.any Rule.usesMailbox

/-- The classic relay attempts, addressed to the mailbox `n` at `d`: plainly, from the null
sender, from a sender at the host itself, and with three ways to hide the domain from it. -/
def classic (n d : String) : Rules :=
  let name := "relaytest.invalid"
  let probe := "probe@" ++ d
  let literal := "@\x7bip_literal\x7d"
  [{ helo := name, mailFrom := probe, rcptTo := n ++ "@" ++ d },
   { helo := name, mailFrom := "", rcptTo := n ++ "@" ++ d },
   { helo := "\x7bhost\x7d", mailFrom := "postmaster" ++ literal, rcptTo := n ++ "@" ++ d },
   { helo := name, mailFrom := probe, rcptTo := n ++ "%" ++ d ++ literal },
   { helo := name, mailFrom := probe, rcptTo := d ++ "!" ++ n ++ literal },
   { helo := name, mailFrom := probe, rcptTo := "\"" ++ n ++ "@" ++ d ++ "\"" ++ literal }]

/-- The classic attempts against a domain that the scanned hosts do not serve. -/
def standard (domain : String) : Rules := classic "check" domain

/-- The classic attempts addressed to the mailbox of the scan. -/
def standardMailbox : Rules := classic "\x7bname\x7d" "\x7bdomain\x7d"

end Rules

end OpenRelay
