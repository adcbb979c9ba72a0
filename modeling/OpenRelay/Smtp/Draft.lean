import OpenRelay.Smtp.Reply
import OpenRelay.Text.Pieces
import OpenRelay.Text.Number

/-!
# Replies line by line

A reply comes in lines. Each line opens with the code; a hyphen behind the code says that another
line follows. A draft is a reply of which some lines are there.

* `Draft.push`: takes a line or refuses it, and says whether the reply is complete.
* `Draft.finish`: the reply that the lines taken so far make.
* `Reply.read`: the reply at the head of a text.
-/

namespace OpenRelay

/-- Why no reply could be read. -/
inductive ReplyError where
  /-- A line has no third byte at which its code could end. -/
  | shortLine (line : String)
  /-- The code of a line is no number. -/
  | badCode (code : String)
  /-- Two lines of a reply have different codes. -/
  | mixedCodes (first next : Nat)
  /-- The reply has more lines than are kept. -/
  | tooManyLines
  /-- No line was taken. -/
  | noLine
  /-- The text ends before the last line of the reply. -/
  | incomplete
  /-- A line is longer than lines may be. -/
  | longLine
  /-- Nothing came in time. -/
  | timedOut
  /-- The server closed the connection. -/
  | closed
deriving DecidableEq

/-- The text shown to the user. -/
def ReplyError.message : ReplyError → String
  | .shortLine line => s!"invalid SMTP reply: '{line}'"
  | .badCode code => s!"invalid SMTP status code: '{code}'"
  | .mixedCodes first next => s!"inconsistent SMTP reply codes: {first} vs {next}"
  | .tooManyLines => "SMTP reply has too many lines"
  | .noLine => "SMTP reply missing status code"
  | .incomplete => "incomplete SMTP reply"
  | .longLine => "SMTP reply line too long"
  | .timedOut => "timed out waiting for SMTP reply"
  | .closed => "connection closed while reading reply"

/-- The sorts of faults that callers tell apart. -/
inductive FaultKind where
  /-- What came is no reply. -/
  | malformed
  /-- Nothing more comes. -/
  | ended
  /-- Nothing came in time. -/
  | late
deriving DecidableEq

/-- What sort of fault it is. -/
def ReplyError.kind : ReplyError → FaultKind
  | .shortLine _ | .badCode _ | .mixedCodes .. | .tooManyLines | .noLine | .longLine => .malformed
  | .incomplete | .closed => .ended
  | .timedOut => .late

/-- The most lines that a reply may have. -/
def maxReplyLines : Nat := 64

/-- A reply of which some lines are there: its code, once known, and the texts of its lines. -/
structure Draft where
  code : Option Nat := none
  lines : List String := []
deriving DecidableEq

/-- A line of a reply, apart: its code, the character behind it, and the text behind that. -/
structure ReplyLine where
  code : Nat
  /-- Whether another line follows. -/
  continues : Bool
  text : String
deriving DecidableEq

namespace Text

/-- The first `n` bytes of a text and the rest, unless a character spans the cut. -/
def splitBytes : Nat → List Char → Option (List Char × List Char)
  | 0, cs => some ([], cs)
  | _ + 1, [] => none
  | n + 1, c :: cs =>
    if c.utf8Size ≤ n + 1 then
      (splitBytes (n + 1 - c.utf8Size) cs).map fun (head, rest) => (c :: head, rest)
    else none

end Text

/-- The text of a line behind its code and the one byte that separates them. A separator of
several bytes leaves no text. -/
def ReplyLine.textBehind : List Char → List Char
  | [] => []
  | c :: cs => if c.utf8Size = 1 then cs else []

/-- Takes a line apart. The code fills three bytes, and may have a plus sign. -/
def ReplyLine.read (line : String) : Except ReplyError ReplyLine :=
  match Text.splitBytes 3 line.toList with
  | none => .error (.shortLine line)
  | some (code, rest) =>
    match Text.readUnsigned? 65535 code with
    | none => .error (.badCode (String.ofList code))
    | some n =>
      .ok { code := n, continues := rest.head? = some '-',
            text := String.ofList (textBehind rest) }

namespace Draft

/-- Takes a line, and says whether it is the last one. A line refused leaves the draft usable. -/
def push (d : Draft) (line : String) : Draft × Except ReplyError Bool :=
  match ReplyLine.read line with
  | .error e => (d, .error e)
  | .ok l =>
    if d.code.any (· ≠ l.code) then (d, .error (.mixedCodes (d.code.getD 0) l.code))
    else
      let d := { d with code := some l.code }
      if maxReplyLines ≤ d.lines.length then (d, .error .tooManyLines)
      else ({ d with lines := d.lines ++ [l.text] }, .ok (!l.continues))

/-- The reply that the lines taken so far make. -/
def finish (d : Draft) : Except ReplyError Reply :=
  match d.code with
  | none => .error .noLine
  | some code => .ok { code, text := "\n".intercalate d.lines }

/-- Takes lines until the reply is complete. -/
def readLines (d : Draft) : List (List Char) → Except ReplyError Reply
  | [] => .error .incomplete
  | line :: rest =>
    match d.push (String.ofList line) with
    | (_, .error e) => .error e
    | (d, .ok true) => d.finish
    | (d, .ok false) => d.readLines rest

end Draft

/-- Reads the reply at the head of a text; what follows it does not matter. -/
def Reply.read (s : String) : Except ReplyError Reply :=
  ({} : Draft).readLines (Text.lines s.toList)

end OpenRelay
