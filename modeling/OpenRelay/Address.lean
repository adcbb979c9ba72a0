import OpenRelay.Text.Pieces
import OpenRelay.Text.Number

/-!
# IPv4 addresses

An address is four octets. Its text is the dotted quad: four decimal numbers from 0 to 255 with
dots between them, without signs, blanks or leading zeros.

* `Address.toString`, `Address.read?`: the dotted quad written and read.
* `Address.toNat`: the address as a number; addresses are compared by it.
-/

namespace OpenRelay

/-- An IPv4 address, most significant octet first. -/
structure Address where
  a : UInt8
  b : UInt8
  c : UInt8
  d : UInt8
deriving DecidableEq, Inhabited

namespace Address

/-- The address `0.0.0.0`. -/
def unspecified : Address := ⟨0, 0, 0, 0⟩

/-- The four octets in the order in which they are written. -/
def octets (x : Address) : List UInt8 := [x.a, x.b, x.c, x.d]

/-- The number whose four base-256 digits are the octets. -/
def toNat (x : Address) : Nat :=
  ((x.a.toNat * 256 + x.b.toNat) * 256 + x.c.toNat) * 256 + x.d.toNat

/-- The dotted quad. -/
protected def toString (x : Address) : String :=
  ".".intercalate (x.octets.map fun o => toString o.toNat)

instance : ToString Address := ⟨Address.toString⟩

/-- The address as it stands in a mail domain: the dotted quad in brackets. -/
def literal (x : Address) : String := "[" ++ x.toString ++ "]"

/-- Reads an octet of a dotted quad: one to three digits, the first not a superfluous zero. -/
def readOctet? : List Char → Option UInt8
  | [] => none
  | '0' :: _ :: _ => none
  | cs =>
    if cs.length ≤ 3 then
      ((Text.readDigits? cs).filter (· ≤ 255)).map UInt8.ofNat
    else none

/-- Reads a dotted quad. -/
def read? (cs : List Char) : Option Address :=
  match Text.pieces '.' cs with
  | [a, b, c, d] => do
    return ⟨← readOctet? a, ← readOctet? b, ← readOctet? c, ← readOctet? d⟩
  | _ => none

end Address

end OpenRelay
