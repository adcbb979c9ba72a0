/-!
# Faults of the system

A fault of the system has a number and some words. Users read both. Some calls give the number
negated, as a 32-bit word, and the words without a capital letter.
-/

namespace OpenRelay.SystemFault

/-- The number of a fault. -/
def number (code : UInt32) : Nat :=
  if code < 0x80000000 then code.toNat else (0 - code).toNat

/-- The number of the fault that a host cannot be reached. -/
def noRoute : Nat := 113

/-- The text for a number and the words given with it. -/
def line (code : UInt32) (words : String) : String :=
  let words := if number code = noRoute then "No route to host" else words.capitalize
  s!"{words} (os error {number code})"

/-- The text shown to the user. -/
def message : IO.Error → String
  | .alreadyExists _ code words
  | .invalidArgument _ code words
  | .permissionDenied _ code words
  | .resourceExhausted _ code words
  | .inappropriateType _ code words
  | .noSuchThing _ code words
  | .noFileOrDirectory _ code words
  | .interrupted _ code words
  | .otherError code words
  | .resourceBusy code words
  | .resourceVanished code words
  | .unsupportedOperation code words
  | .hardwareFault code words
  | .unsatisfiedConstraints code words
  | .illegalOperation code words
  | .protocolError code words
  | .timeExpired code words => line code words
  | .unexpectedEof => "unexpected end of file"
  | .userError words => words

/-- What an action gives, or the text of the fault that ends it. -/
def catchIn {α : Type} (action : IO α) : IO (Except String α) :=
  return (← action.toBaseIO).mapError message

/-- A connection is used that was never opened. -/
def notConnected : String := line 107 "transport endpoint is not connected"

/-- The time for writing is over. -/
def writeTimeout : String := line 11 "resource temporarily unavailable"

/-- The time for connecting is over. -/
def connectTimeout : String := "connection timed out"

end OpenRelay.SystemFault
