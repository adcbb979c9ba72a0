/-!
# Faults in a description of the targets
-/

namespace OpenRelay

/-- Why a description of the targets cannot be used. -/
inductive TargetError where
  /-- The text of a range is blank. -/
  | blankRange
  /-- The text is neither two addresses nor four octets. -/
  | octetCount (text : String)
  /-- One octet of the text is no number from 0 to 255 and no span of such numbers. -/
  | badOctet (octet text : String)
  /-- The span at this place, counted from 1, has its bounds the wrong way round. -/
  | descending (position : Nat) (lo hi : UInt8)
  /-- A line of an address list, counted from 1, holds something else than an address. -/
  | badEntry (line : Nat) (entry : String)
  /-- An address list holds no address. -/
  | emptyList
deriving DecidableEq

/-- The text shown to the user. -/
def TargetError.message : TargetError → String
  | .blankRange => "address range is empty"
  | .octetCount text => s!"expected four octets in '{text}'"
  | .badOctet octet text => s!"invalid octet '{octet}' in '{text}'"
  | .descending position lo hi => s!"octet {position} span {lo.toNat}-{hi.toNat} is descending"
  | .badEntry line entry => s!"invalid address on line {line}: '{entry}'"
  | .emptyList => "address list contains no address"

end OpenRelay
