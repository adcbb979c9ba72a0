import OpenRelay.Proofs.Rule.OneLine
import OpenRelay.Proofs.Text.Blank
import OpenRelay.Proofs.Text.Number

/-!
# Dotted quads

* `Address.readOctet?_eq_some_iff`: an octet is read from its shortest spelling only.
* `Address.read?_eq_some_iff`: so an address is read from one text, the one it is written as.
* `Address.trimmed_eq_iff`: what is left when the blanks around an address are taken away.
-/

namespace OpenRelay

variable {cs : List Char} {o : UInt8} {x : Address}

namespace Address

/-- The digits of an octet. -/
def digits (o : UInt8) : List Char := Nat.toDigits 10 o.toNat

/-- An octet is read from up to three digits, the first of which is no superfluous zero. -/
theorem readOctet?_eq_some_iff_decimal : readOctet? cs = some o ↔
    cs.length ≤ 3 ∧ Text.Decimal cs o.toNat ∧ (cs = ['0'] ∨ cs.head? ≠ some '0') := by
  have hoctet : ((Text.readDigits? cs).filter (· ≤ 255)).map UInt8.ofNat = some o ↔
      Text.Decimal cs o.toNat := by
    have hle := o.toNat_lt
    simp only [Option.map_eq_some_iff, Option.filter_eq_some_iff, decide_eq_true_eq,
      Text.readDigits?_eq_some_iff]
    constructor
    · rintro ⟨n, ⟨hdecimal, hn⟩, rfl⟩
      have hn' : (UInt8.ofNat n).toNat = n := by
        rw [UInt8.toNat_ofNat']
        omega
      rwa [hn']
    · exact fun hdecimal => ⟨o.toNat, ⟨hdecimal, by omega⟩, UInt8.ofNat_toNat⟩
  unfold readOctet?
  split
  · simp [Text.decimal_iff]
  · simp
  · rename_i hnil hzero
    have hhead : cs = ['0'] ∨ cs.head? ≠ some '0' := by
      refine or_iff_not_imp_right.2 fun hhead => ?_
      obtain ⟨rest, rfl⟩ := List.head?_eq_some_iff.1 (not_not.1 hhead)
      cases rest with
      | nil => rfl
      | cons c rest => exact absurd rfl (hzero c rest)
    split
    · rename_i hlength
      rw [hoctet, and_iff_right hlength, and_iff_left hhead]
    · rename_i hlength
      simp [hlength]

/-- **An octet is read from its digits**, and from nothing else. -/
theorem readOctet?_eq_some_iff : readOctet? cs = some o ↔ cs = digits o := by
  rw [readOctet?_eq_some_iff_decimal]
  constructor
  · rintro ⟨-, hdecimal, hhead⟩
    exact hdecimal.eq_toDigits_iff.2 hhead
  · rintro rfl
    have hdecimal := Text.decimal_toDigits o.toNat
    have hlength : (Nat.toDigits 10 o.toNat).length ≤ 3 := by
      have hlt := o.toNat_lt
      exact (Nat.length_toDigits_le_iff (by decide) (by decide)).2 (by omega)
    exact ⟨hlength, hdecimal, hdecimal.eq_toDigits_iff.1 rfl⟩

/-! ## Four octets -/

theorem not_mem_digits {c : Char} (hc : c.isDigit = false) (o : UInt8) : c ∉ digits o := fun h => by
  rw [(Text.decimal_toDigits o.toNat).digits c h] at hc
  cases hc

theorem not_mem_toString {c : Char} (hdigit : c.isDigit = false) (hdot : c ≠ '.') :
    c ∉ x.toString.toList := fun h => (x.isDigit_or_dot h).elim (by simp [hdigit]) hdot

theorem toList_toString (x : Address) : x.toString.toList =
    digits x.a ++ '.' :: (digits x.b ++ '.' :: (digits x.c ++ '.' :: digits x.d)) := by
  simp [Address.toString, octets, digits, Nat.repr]

theorem pieces_toString (x : Address) : Text.pieces '.' x.toString.toList =
    [digits x.a, digits x.b, digits x.c, digits x.d] := by
  have hdot (o : UInt8) : '.' ∉ digits o := not_mem_digits (by decide) o
  rw [toList_toString, Text.pieces_append (hdot _), Text.pieces_append (hdot _),
    Text.pieces_append (hdot _), Text.pieces_eq_splitOn, List.splitOn_eq_singleton (hdot _)]

/-- **An address is read from one text**, the one that it is written as. -/
theorem read?_eq_some_iff : read? cs = some x ↔ cs = x.toString.toList := by
  constructor
  · intro h
    unfold read? at h
    split at h
    · rename_i a b c d hpieces
      simp only [bind, Option.bind_eq_some_iff, readOctet?_eq_some_iff] at h
      obtain ⟨xa, rfl, xb, rfl, xc, rfl, xd, rfl, h⟩ := h
      cases h
      rw [(Text.pieces_eq_iff.1 hpieces).2.2, toList_toString]
      simp
    · cases h
  · rintro rfl
    have hoctet (o : UInt8) : readOctet? (digits o) = some o := readOctet?_eq_some_iff.2 rfl
    rw [read?, pieces_toString]
    simp [hoctet]

/-! ## Blanks around an address -/

theorem toList_ne_nil (x : Address) : x.toString.toList ≠ [] := by
  rw [toList_toString]
  exact List.append_ne_nil_of_right_ne_nil _ (List.cons_ne_nil _ _)

/-- There is no blank in an address. -/
theorem isBlank_of_mem {c : Char} (hc : c ∈ x.toString.toList) : Text.isBlank c = false := by
  rcases x.isDigit_or_dot hc with hdigit | rfl
  · exact Text.isBlank_of_isDigit hdigit
  · decide

theorem trimmed_toString (x : Address) : Text.trimmed x.toString.toList = x.toString.toList :=
  Text.trimmed_of_visible fun _ => isBlank_of_mem

/-- **An address is what is left** of it when the blanks around it are taken away. -/
theorem trimmed_eq_iff :
    Text.trimmed cs = x.toString.toList ↔ Text.Padded x.toString.toList cs := by
  rw [Text.trimmed_eq_iff, and_iff_right x.trimmed_toString]

end Address

end OpenRelay
