/-!
# Faults in rules and mailboxes
-/

namespace OpenRelay

/-- The three fields of a rule. -/
inductive Field where
  | helo
  | mailFrom
  | rcptTo
deriving DecidableEq

/-- The name of a field as users know it. -/
def Field.name : Field → String
  | .helo => "helo"
  | .mailFrom => "mail_from"
  | .rcptTo => "rcpt_to"

/-- Why a rule, a set of rules or a mailbox cannot be used. -/
inductive RuleError where
  /-- There is no rule. -/
  | noRules
  /-- A rule has not three fields. -/
  | fieldCount (found : Nat)
  /-- A field that must say something is blank. -/
  | blankField (field : Field)
  /-- A field would break the command line it is put into. -/
  | lineBreak (field : Field)
  /-- The text is no mailbox. -/
  | mailbox (text : String)
  /-- The rule on this line, counted from 1, is at fault. -/
  | onLine (line : Nat) (cause : RuleError)
deriving DecidableEq

namespace RuleError

/-- The text shown to the user. -/
def message : RuleError → String
  | .noRules => "rule set is empty"
  | .fieldCount found => s!"expected 'helo|mail_from|rcpt_to', found {found} field(s)"
  | .blankField field => s!"rule field '{field.name}' must not be empty"
  | .lineBreak field => s!"rule field '{field.name}' contains a line break"
  | .mailbox text => s!"'{text}' is not a usable relay address, expected name@domain"
  | .onLine line cause => s!"rule {line}: {message cause}"

/-- The fault and what caused it, outermost first. -/
def chain : RuleError → List String
  | .onLine line cause => message (.onLine line cause) :: chain cause
  | e => [message e]

end RuleError

end OpenRelay
