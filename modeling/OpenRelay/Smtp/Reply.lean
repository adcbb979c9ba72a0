/-!
# Replies of a mail server

A reply is a numeric code and a text, whose lines are joined by line feeds. The hundreds of the
code say what it means: 2xx accepts, 3xx asks for more, 4xx refuses for now.
-/

namespace OpenRelay

/-- What a mail server answers to a command. -/
structure Reply where
  code : Nat
  text : String
deriving DecidableEq, Inhabited

namespace Reply

/-- Whether the command is accepted and complete. -/
def isCompletion (r : Reply) : Bool := 200 ≤ r.code && r.code < 300

/-- Whether the command is accepted and the server waits for more. -/
def isIntermediate (r : Reply) : Bool := 300 ≤ r.code && r.code < 400

/-- Whether the command is refused for now. -/
def isTransient (r : Reply) : Bool := 400 ≤ r.code && r.code < 500

/-- The code and, if there is one, the text in one line, with slashes between its lines. -/
protected def toString (r : Reply) : String :=
  if r.text.isEmpty then toString r.code
  else
    let flat := r.text.toList.flatMap fun c => if c = '\n' then " / ".toList else [c]
    s!"{r.code} {String.ofList flat}"

instance : ToString Reply := ⟨Reply.toString⟩

end Reply

end OpenRelay
