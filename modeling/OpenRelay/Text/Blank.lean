/-!
# Blank characters

Text typed by a person is trimmed before it is read: blank characters at either end do not
count. Blank means the Unicode property White_Space, which is wider than the ASCII blanks.

* `isBlank`: the 25 characters with that property.
* `trim`: a text without the blank characters at its two ends.
-/

namespace OpenRelay.Text

/-- The code points with the Unicode property White_Space, as ranges with both ends included. -/
def blankRanges : List (Nat × Nat) :=
  [(0x09, 0x0D), (0x20, 0x20), (0x85, 0x85), (0xA0, 0xA0), (0x1680, 0x1680), (0x2000, 0x200A),
   (0x2028, 0x2029), (0x202F, 0x202F), (0x205F, 0x205F), (0x3000, 0x3000)]

/-- Whether a character has the Unicode property White_Space. -/
def isBlank (c : Char) : Bool :=
  blankRanges.any fun (lo, hi) => lo ≤ c.toNat && c.toNat ≤ hi

/-- The characters left once the blank ones at both ends are dropped. -/
def trimmed (cs : List Char) : List Char :=
  ((cs.dropWhile isBlank).reverse.dropWhile isBlank).reverse

/-- A text without the blank characters at its two ends. -/
def trim (s : String) : String := String.ofList (trimmed s.toList)

@[simp] theorem toList_trim (s : String) : (trim s).toList = trimmed s.toList := by
  simp [trim]

@[simp] theorem trimmed_nil : trimmed [] = [] := rfl

end OpenRelay.Text
