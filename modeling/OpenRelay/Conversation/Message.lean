import OpenRelay.Host.Record

/-!
# The test message

An accepted attempt may go on to send a short message that says where it came from. A line of a
message that opens with a dot gets a second one, so that no line ends the message early.
-/

namespace OpenRelay

/-- A line as it is sent within a message: a leading dot is doubled. -/
def stuff (line : String) : String :=
  if line.toList.head? = some '.' then "." ++ line else line

/-- The lines of the test message. -/
def messageLines (subject : String) (address : Address) (index : Nat) (rule : Rule) :
    List String :=
  ["From: <" ++ rule.mailFrom ++ ">",
   "To: <" ++ rule.rcptTo ++ ">",
   "Subject: " ++ subject ++ " " ++ toString address ++ " rule " ++ toString index,
   "X-Relayscan-Target: " ++ toString address,
   "X-Relayscan-Rule: " ++ toString index,
   "",
   "This message was relayed by " ++ toString address ++ " while testing rule " ++
     toString index ++ ".",
   "If you received it, that host is an open relay."]

/-- The number of lines of the test message. -/
def messageLength : Nat := 8

@[simp] theorem length_messageLines (subject : String) (address : Address) (index : Nat)
    (rule : Rule) : (messageLines subject address index rule).length = messageLength := rfl

end OpenRelay
