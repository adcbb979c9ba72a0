/-!
# UTF-8

A text is spelled by one to four bytes for each character. Bytes are decoded from the left. Where
they do not spell a character, the longest stretch that could have begun one, or else a single
byte, counts as one fault, and decoding goes on behind it.

* `encode`: the bytes that spell a text.
* `decode`: the characters, with `none` for each fault.
* `decodeLossy`: the replacement character U+FFFD stands for each fault.
* `decode?`: no text at all if there is a fault.
-/

namespace OpenRelay.Text.Utf8

/-- The bytes that spell a text. -/
def encode (cs : List Char) : List UInt8 := cs.flatMap String.utf8EncodeChar

/-- The bytes that may follow the first byte of a character. -/
structure Lead where
  /-- The bits that the first byte adds to the code point. -/
  bits : Nat
  /-- How many bytes follow. -/
  more : Nat
  /-- The bounds of the next byte. They exclude long spellings of small code points, surrogates,
  and code points above U+10FFFF. -/
  lo : UInt8 := 0x80
  hi : UInt8 := 0xBF

/-- What a first byte announces, if a character of several bytes may begin with it. -/
def lead? (b : UInt8) : Option Lead :=
  if 0xC2 ≤ b ∧ b ≤ 0xDF then some { bits := b.toNat - 0xC0, more := 1 }
  else if b = 0xE0 then some { bits := 0, more := 2, lo := 0xA0 }
  else if b = 0xED then some { bits := 0xD, more := 2, hi := 0x9F }
  else if 0xE1 ≤ b ∧ b ≤ 0xEF then some { bits := b.toNat - 0xE0, more := 2 }
  else if b = 0xF0 then some { bits := 0, more := 3, lo := 0x90 }
  else if 0xF1 ≤ b ∧ b ≤ 0xF3 then some { bits := b.toNat - 0xF0, more := 3 }
  else if b = 0xF4 then some { bits := 4, more := 3, hi := 0x8F }
  else none

/-- The state after a first byte: a character, a fault, or a character still to be completed. -/
def start (b : UInt8) : Option (Option Char) × Option Lead :=
  if b < 0x80 then (some (some (Char.ofNat b.toNat)), none)
  else
    match lead? b with
    | some l => (none, some l)
    | none => (some none, none)

/-- Decodes on, where `open?` is what a character begun before still needs. -/
def decodeFrom (open? : Option Lead) : List UInt8 → List (Option Char)
  | [] => if open?.isSome then [none] else []
  | b :: bs =>
    let fresh (fault : List (Option Char)) : List (Option Char) :=
      match start b with
      | (found, open?) => fault ++ found.toList ++ decodeFrom open? bs
    match open? with
    | none => fresh []
    | some l =>
      if l.lo ≤ b ∧ b ≤ l.hi then
        let bits := l.bits * 64 + (b.toNat - 0x80)
        match l.more with
        | more + 2 => decodeFrom (some { bits, more := more + 1 }) bs
        | _ => some (Char.ofNat bits) :: decodeFrom none bs
      else fresh [none]

/-- The characters that bytes spell, with `none` where they spell none. -/
def decode (bytes : List UInt8) : List (Option Char) := decodeFrom none bytes

/-- The character that stands for bytes that spell none. -/
def replacement : Char := '\uFFFD'

/-- The text that bytes spell, with the replacement character where they spell none. -/
def decodeLossy (bytes : List UInt8) : List Char :=
  (decode bytes).map fun c => c.getD replacement

/-- The text that bytes spell, if they spell one throughout. -/
def decode? (bytes : List UInt8) : Option (List Char) := (decode bytes).mapM id

end OpenRelay.Text.Utf8
