/-!
# Decimal numbers

Numbers are written in decimal digits. Readers differ in what they take beside the digits: a
plain reader nothing, an unsigned one a plus sign, a signed one either sign. All take leading
zeros, and none takes a number above its bound.
-/

namespace OpenRelay.Text

/-- The value of a decimal digit. -/
def digit? (c : Char) : Option Nat :=
  if c.isDigit then some (c.toNat - '0'.toNat) else none

/-- Reads digits on after a number read so far. -/
def readDigitsFrom (value : Nat) : List Char → Option Nat
  | [] => some value
  | c :: cs => (digit? c).bind fun d => readDigitsFrom (value * 10 + d) cs

/-- Reads one or more decimal digits and nothing else. -/
def readDigits? : List Char → Option Nat
  | [] => none
  | cs => readDigitsFrom 0 cs

/-- Reads a number that does not exceed `bound`, and that a plus sign may precede. -/
def readUnsigned? (bound : Nat) (cs : List Char) : Option Nat :=
  let digits := match cs with
    | '+' :: rest => rest
    | _ => cs
  (readDigits? digits).filter (· ≤ bound)

/-- Reads a whole number, which either sign may precede. -/
def readSigned? (cs : List Char) : Option Int :=
  match cs with
  | '-' :: rest => (readDigits? rest).map fun n => -(n : Int)
  | '+' :: rest => (readDigits? rest).map Int.ofNat
  | _ => (readDigits? cs).map Int.ofNat

end OpenRelay.Text
