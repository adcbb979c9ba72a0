import OpenRelay.Text.Pieces
import OpenRelay.Rule.Error

/-!
# Mailboxes

A mailbox is a name and a domain. Scans that send mail address it to one mailbox of the user.
-/

namespace OpenRelay

/-- A mailbox: what stands before and after the `@`. -/
structure Mailbox where
  name : String
  domain : String
deriving DecidableEq

namespace Mailbox

/-- The name and the domain with an `@` between them. -/
protected def toString (m : Mailbox) : String := m.name ++ "@" ++ m.domain

instance : ToString Mailbox := ⟨Mailbox.toString⟩

/-- Whether a character cannot stand in an address between angle brackets. -/
def isForeign (c : Char) : Bool := Text.isBlank c || c = '<' || c = '>'

/-- Reads a mailbox, cut at its last `@`. -/
def read? (s : String) : Except RuleError Mailbox :=
  let text := Text.trimmed s.toList
  let fault := .error (.mailbox (String.ofList text))
  match Text.splitLast '@' text with
  | none => fault
  | some (name, domain) =>
    if name = [] ∨ domain = [] ∨ text.any isForeign then fault
    else .ok { name := String.ofList name, domain := String.ofList domain }

end Mailbox

end OpenRelay
