import OpenRelay.Address
import OpenRelay.Rule.Mailbox

/-!
# Templates

The fields of a rule are templates. A template holds macros, which are replaced for every target:
its address, its address literal, its host name, and the two halves of the mailbox of the scan.

* `Bindings.substitutions`: what is replaced by what, in the order in which it is done.
* `Bindings.apply`: a template with its macros replaced.
* `usesMailbox`: whether a template needs a mailbox.
-/

namespace OpenRelay

/-- What the macros of a template stand for. -/
structure Bindings where
  address : Address
  hostname : Option String := none
  mailbox : Option Mailbox := none
deriving DecidableEq

namespace Template

/-- The spellings of the macros that stand for the halves of the mailbox. -/
def mailboxMacros : List String := ["\x7bname\x7d", "\x7bdomain\x7d", "--NAME--", "--DOMAIN--"]

/-- Whether a template names the mailbox. -/
def usesMailbox (template : String) : Bool :=
  mailboxMacros.any fun spelling => Text.contains spelling.toList template.toList

end Template

namespace Bindings

/-- The host name, or the address literal of a host without a name. -/
def host (b : Bindings) : String := b.hostname.getD b.address.literal

/-- The replacements of the macros that every target has. -/
def targetSubstitutions (b : Bindings) : List (String × String) :=
  [("\x7bip_literal\x7d", b.address.literal), ("\x7bip\x7d", b.address.toString),
   ("\x7bhost\x7d", b.host)]

/-- The replacements of the macros for the mailbox. Without one these macros stay. -/
def mailboxSubstitutions (b : Bindings) : List (String × String) :=
  match b.mailbox with
  | none => []
  | some m =>
    [("\x7bname\x7d", m.name), ("--NAME--", m.name),
     ("\x7bdomain\x7d", m.domain), ("--DOMAIN--", m.domain)]

/-- The replacements in the order in which they are made. -/
def substitutions (b : Bindings) : List (String × String) :=
  b.targetSubstitutions ++ b.mailboxSubstitutions

/-- Makes all replacements, each one throughout the result of those before it. -/
def applyAll (b : Bindings) (template : List Char) : List Char :=
  b.substitutions.foldl
    (fun cs (spelling, value) => Text.replaceAll spelling.toList value.toList cs) template

/-- A template with its macros replaced. Text without the opening of a macro stays as it is. -/
def apply (b : Bindings) (template : String) : String :=
  if !Text.contains ['\x7b'] template.toList && !Text.contains ['-', '-'] template.toList then
    template
  else String.ofList (b.applyAll template.toList)

end Bindings

end OpenRelay
