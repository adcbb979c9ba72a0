import OpenRelay.Smtp.Draft
import OpenRelay.Text.Utf8

/-!
# Replies from a connection

The bytes of a connection arrive in chunks that have nothing to do with lines. An inbox holds the
bytes that arrived and were not used yet, and what will arrive.

* `takeLine`: the first full line of some bytes.
* `Inbox.readLine`: waits for a line, as long as it is not longer than a line may be.
* `Inbox.readReply`: the next reply. Bytes behind it stay for the next call.
-/

namespace OpenRelay

/-- The most bytes that may wait for the end of their line. -/
def maxReplyLine : Nat := 4096

/-- The most bytes that one read takes from a connection. -/
def maxRead : Nat := 512

/-- Bytes without the carriage return that ends them, if one does. -/
def dropReturnByte (line : List UInt8) : List UInt8 :=
  if line.getLast? = some 0x0D then line.dropLast else line

/-- Cuts the first line off, its line feed included. -/
def cutLine : List UInt8 → Option (List UInt8 × List UInt8)
  | [] => none
  | b :: bs =>
    if b = 0x0A then some ([], bs)
    else (cutLine bs).map fun (line, rest) => (b :: line, rest)

/-- The text of a line without its ending. Bytes that are not UTF-8, as in greetings in Latin-1,
are replaced, not refused. -/
def lineText (line : List UInt8) : String :=
  String.ofList (Text.Utf8.decodeLossy (dropReturnByte line))

/-- The first full line as text, and the bytes behind it. -/
def takeLine (bytes : List UInt8) : Option (String × List UInt8) :=
  (cutLine bytes).map fun (line, rest) => (lineText line, rest)

/-- The receiving side of a connection. -/
structure Inbox where
  /-- What arrived and was not used yet. -/
  buffer : List UInt8 := []
  /-- What the next reads will bring. -/
  chunks : List (List UInt8) := []
  /-- Whether the server closes the connection behind that, or else stays silent. -/
  closes : Bool := false
deriving DecidableEq

namespace Inbox

/-- Reads a line from the bytes at hand and those that arrive. -/
def readLineFrom (closes : Bool) (buffer : List UInt8) :
    List (List UInt8) → Inbox × Except ReplyError String
  | [] =>
    match takeLine buffer with
    | some (line, rest) => ({ buffer := rest, closes }, .ok line)
    | none =>
      ({ buffer, closes },
        .error (if maxReplyLine < buffer.length then .longLine
          else if closes then .closed else .timedOut))
  | chunk :: chunks =>
    match takeLine buffer with
    | some (line, rest) => ({ buffer := rest, chunks := chunk :: chunks, closes }, .ok line)
    | none =>
      if maxReplyLine < buffer.length then
        ({ buffer, chunks := chunk :: chunks, closes }, .error .longLine)
      else readLineFrom closes (buffer ++ chunk) chunks

/-- Reads a line. -/
def readLine (i : Inbox) : Inbox × Except ReplyError String :=
  readLineFrom i.closes i.buffer i.chunks

/-- Reads a line when no time is left: only what is at hand counts. -/
def readLineAtOnce (i : Inbox) : Inbox × Except ReplyError String :=
  match readLineFrom false i.buffer [] with
  | (j, result) => ({ i with buffer := j.buffer }, result)

/-- Reads lines into a draft until the reply is complete. A draft takes no more than
`maxReplyLines` lines, so `budget` never runs out when it is larger. -/
def readReplyFrom (readLine : Inbox → Inbox × Except ReplyError String) :
    Nat → Draft → Inbox → Inbox × Except ReplyError Reply
  | 0, _, i => (i, .error .tooManyLines)
  | budget + 1, d, i =>
    match readLine i with
    | (i, .error e) => (i, .error e)
    | (i, .ok line) =>
      match d.push line with
      | (_, .error e) => (i, .error e)
      | (d, .ok true) => (i, d.finish)
      | (d, .ok false) => readReplyFrom readLine budget d i

/-- Reads the next reply with ample time. -/
def readReply (i : Inbox) : Inbox × Except ReplyError Reply :=
  readReplyFrom readLine (maxReplyLines + 1) {} i

/-- Reads the next reply when no time is left. -/
def readReplyAtOnce (i : Inbox) : Inbox × Except ReplyError Reply :=
  readReplyFrom readLineAtOnce (maxReplyLines + 1) {} i

end Inbox

end OpenRelay
