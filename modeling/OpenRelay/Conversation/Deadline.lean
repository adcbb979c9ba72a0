import OpenRelay.Conversation.Message
import OpenRelay.Settings

/-!
# How long a host can take

Every call of a check has a time budget of its own. The deadline of a host is their sum over the
longest conversation: connect, banner, every step of every rule, and `QUIT`.

* `Settings.hostDeadline?`: the deadline, or nothing if a duration cannot hold it.
-/

namespace OpenRelay.Settings

/-- The largest factor by which a duration is scaled. -/
def maxFactor : Nat := 0xFFFFFFFF

/-- The time of one rule. `HELO`, `MAIL FROM`, `RCPT TO` and `RSET` are a write and a reply each;
a message adds the writes of `DATA`, its lines and the final dot, and two replies. -/
def ruleDeadline? (s : Settings) : Option Duration := do
  let envelope ← s.readTimeout.scale? 8
  if s.sendData then
    let writes ← s.readTimeout.scale? (2 + messageLength)
    let started ← writes.add? s.readTimeout
    envelope.add? (← started.add? s.mailTimeout)
  else some envelope

/-- The time of a whole check. Beside the rules there are the banner, and the write and the reply
of `QUIT`. The time of all rules together is cut off at the longest duration. -/
def hostDeadline? (s : Settings) : Option Duration := do
  let rule ← s.ruleDeadline?
  let around ← s.connectTimeout.add? (← s.readTimeout.scale? 3)
  around.add? (rule.scaleSaturating (min s.rules.length maxFactor))

end OpenRelay.Settings
