import Mathlib.Algebra.Ring.Nat
import OpenRelay.Text.Number

/-!
# Decimal numbers as they are read

* `Decimal`: digits that spell a number. `Unsigned`: so do digits behind a plus sign.
* `Decimal.eq_toDigits_iff`: without superfluous zeros, a number has one spelling.
* `readDigits?_eq_some_iff`: a plain reader takes digits, and nothing else.
* `readUnsigned?_eq_some_iff`: an unsigned one takes them behind a plus sign as well.
-/

namespace OpenRelay.Text

/-- Digits that spell a number. Leading zeros do not matter. -/
structure Decimal (cs : List Char) (n : Nat) : Prop where
  nonempty : cs ≠ []
  digits : ∀ c ∈ cs, c.isDigit = true
  value : Nat.ofDigitChars 10 cs 0 = n

variable {cs : List Char} {bound value n : Nat}

theorem decimal_iff : Decimal cs n ↔
    cs ≠ [] ∧ (∀ c ∈ cs, c.isDigit = true) ∧ Nat.ofDigitChars 10 cs 0 = n :=
  ⟨fun h => ⟨h.nonempty, h.digits, h.value⟩, fun h => ⟨h.1, h.2.1, h.2.2⟩⟩

instance (cs : List Char) (n : Nat) : Decidable (Decimal cs n) :=
  decidable_of_iff (cs ≠ [] ∧ cs.all Char.isDigit = true ∧ Nat.ofDigitChars 10 cs 0 = n)
    (by rw [List.all_eq_true, decimal_iff])

/-- As many digits spell no larger number. -/
theorem Decimal.lt_pow (h : Decimal cs n) : n < 10 ^ cs.length := by
  have key : ∀ cs : List Char, (∀ c ∈ cs, c.isDigit = true) →
      ∀ value, Nat.ofDigitChars 10 cs value < 10 ^ cs.length * (value + 1) := by
    intro cs
    induction cs with
    | nil => intro _ value; simp
    | cons c cs ih =>
      intro hdigits value
      obtain ⟨hc, hdigits⟩ := List.forall_mem_cons.1 hdigits
      have hlt : c.toNat - '0'.toNat < 10 := by
        simp only [Char.isDigit, Bool.and_eq_true, decide_eq_true_eq, UInt32.le_iff_toNat_le] at hc
        simp only [Char.toNat, Char.reduceVal, UInt32.toNat_ofNat] at hc ⊢
        omega
      calc Nat.ofDigitChars 10 (c :: cs) value
          = Nat.ofDigitChars 10 cs (10 * value + (c.toNat - '0'.toNat)) := Nat.ofDigitChars_cons
        _ < 10 ^ cs.length * (10 * value + (c.toNat - '0'.toNat) + 1) := ih hdigits _
        _ ≤ 10 ^ cs.length * (10 * (value + 1)) := Nat.mul_le_mul_left _ (by omega)
        _ = 10 ^ (c :: cs).length * (value + 1) := by
          rw [List.length_cons, Nat.pow_succ, Nat.mul_assoc]
  have := key cs h.digits 0
  rwa [h.value, Nat.zero_add, Nat.mul_one] at this

theorem readDigitsFrom_eq_some_iff : readDigitsFrom value cs = some n ↔
    (∀ c ∈ cs, c.isDigit = true) ∧ Nat.ofDigitChars 10 cs value = n := by
  induction cs generalizing value with
  | nil => simp [readDigitsFrom]
  | cons c cs ih =>
    rw [readDigitsFrom, digit?, List.forall_mem_cons, Nat.ofDigitChars_cons]
    split
    · rename_i hc
      rw [Option.bind_some, ih, Nat.mul_comm]
      simp [hc]
    · rename_i hc
      simp [hc]

/-- **A plain reader takes digits.** -/
theorem readDigits?_eq_some_iff : readDigits? cs = some n ↔ Decimal cs n := by
  rw [decimal_iff]
  cases cs with
  | nil => simp [readDigits?]
  | cons c cs => simp [readDigits?, readDigitsFrom_eq_some_iff]

/-! ## The shortest spelling -/

theorem decimal_toDigits (n : Nat) : Decimal (Nat.toDigits 10 n) n where
  nonempty := Nat.toDigits_ne_nil
  digits _ hc := Nat.isDigit_of_mem_toDigits (by decide) (by decide) hc
  value := Nat.ofDigitChars_ten_toDigits

/-- A digit is the one that its value is written with. -/
theorem digitChar_of_isDigit {c : Char} (hc : c.isDigit = true) :
    c.toNat - '0'.toNat < 10 ∧ Nat.digitChar (c.toNat - '0'.toNat) = c := by
  obtain ⟨hlo, hhi⟩ := Char.isDigit_iff_toNat.1 hc
  simp only [Char.reduceToNat] at hlo hhi ⊢
  have hlt : c.toNat - 48 < 10 := by omega
  refine ⟨hlt, Char.toNat_inj.1 ?_⟩
  rw [Nat.toNat_digitChar_of_lt_ten hlt]
  omega

/-- Digits behind a number that is not zero are written behind its digits. -/
theorem toDigits_ofDigitChars (hvalue : 0 < value) (hdigits : ∀ c ∈ cs, c.isDigit = true) :
    Nat.toDigits 10 (Nat.ofDigitChars 10 cs value) = Nat.toDigits 10 value ++ cs := by
  induction cs generalizing value with
  | nil => simp
  | cons c cs ih =>
    obtain ⟨hc, hcs⟩ := List.forall_mem_cons.1 hdigits
    obtain ⟨hlt, hchar⟩ := digitChar_of_isDigit hc
    have hlonger := Nat.toDigits_append_toDigits (by decide : 1 < 10) hvalue hlt
    rw [Nat.toDigits_of_lt_base hlt, hchar] at hlonger
    rw [Nat.ofDigitChars_cons, ih (by omega) hcs, ← hlonger, List.append_assoc,
      List.singleton_append]

/-- A number that is not zero is not written with a zero in front. -/
theorem head_toDigits_ne (hn : 0 < n) : (Nat.toDigits 10 n).head? ≠ some '0' := by
  induction n using Nat.strongRecOn with
  | ind n ih =>
    rw [Nat.toDigits_eq_if (by decide)]
    split
    · rw [List.head?_cons, ne_eq, Option.some.injEq, Nat.digitChar_eq_zero]
      omega
    · have hsome := List.isSome_head?.2 (Nat.toDigits_ne_nil (n := n / 10) (b := 10))
      rw [List.head?_append, Option.or_of_isSome hsome]
      exact ih (n / 10) (by omega) (by omega)

/-- **Digits without a superfluous zero** are the ones that the number is written with. -/
theorem Decimal.eq_toDigits_iff (h : Decimal cs n) :
    cs = Nat.toDigits 10 n ↔ cs = ['0'] ∨ cs.head? ≠ some '0' := by
  constructor
  · rintro rfl
    rcases Nat.eq_zero_or_pos n with rfl | hn
    · exact .inl (Nat.toDigits_zero 10)
    · exact .inr (head_toDigits_ne hn)
  · rintro (rfl | hhead)
    · rw [← h.value]
      rfl
    · obtain ⟨c, cs, rfl⟩ := List.exists_cons_of_ne_nil h.nonempty
      obtain ⟨hc, hcs⟩ := List.forall_mem_cons.1 h.digits
      obtain ⟨hlt, hchar⟩ := digitChar_of_isDigit hc
      have hpos : 0 < c.toNat - '0'.toNat := by
        refine Nat.pos_of_ne_zero fun hzero => hhead ?_
        rw [← hchar, hzero]
        rfl
      rw [← h.value, Nat.ofDigitChars_cons, Nat.mul_zero, Nat.zero_add,
        toDigits_ofDigitChars hpos hcs, Nat.toDigits_of_lt_base hlt, hchar, List.singleton_append]

/-! ## Plus signs -/

/-- Digits that spell a number, with or without a plus sign in front. -/
def Unsigned (cs : List Char) (n : Nat) : Prop :=
  Decimal cs n ∨ ∃ rest, cs = '+' :: rest ∧ Decimal rest n

/-- A sign is no digit. -/
theorem not_decimal_plus (cs : List Char) (n : Nat) : ¬ Decimal ('+' :: cs) n := fun h =>
  absurd (h.digits '+' List.mem_cons_self) (by decide)

theorem Unsigned.lt_pow (h : Unsigned cs n) : n < 10 ^ cs.length := by
  rcases h with h | ⟨rest, rfl, h⟩
  · exact h.lt_pow
  · exact Nat.lt_of_lt_of_le h.lt_pow (Nat.pow_le_pow_right (by decide) (Nat.le_succ _))

/-- A number is written in characters of one byte. -/
theorem Unsigned.utf8Size (h : Unsigned cs n) : ∀ c ∈ cs, c.utf8Size = 1 := by
  have hdigit : ∀ c : Char, c.isDigit = true → c.utf8Size = 1 := by
    intro c hc
    simp only [Char.isDigit, Bool.and_eq_true, decide_eq_true_eq] at hc
    rw [Char.utf8Size_eq_one_iff]
    exact UInt32.le_trans hc.2 (by decide)
  rcases h with h | ⟨rest, rfl, h⟩
  · exact fun c hc => hdigit c (h.digits c hc)
  · rw [List.forall_mem_cons]
    exact ⟨by decide, fun c hc => hdigit c (h.digits c hc)⟩

/-- **An unsigned reader takes digits**, also behind a plus sign, up to its bound. -/
theorem readUnsigned?_eq_some_iff :
    readUnsigned? bound cs = some n ↔ n ≤ bound ∧ Unsigned cs n := by
  unfold readUnsigned? Unsigned
  rw [Option.filter_eq_some_iff, decide_eq_true_eq, and_comm, readDigits?_eq_some_iff]
  split
  · rename_i rest
    simp [not_decimal_plus rest n]
  · rename_i hne
    refine and_congr_right fun _ => (or_iff_left ?_).symm
    rintro ⟨rest, rfl, -⟩
    exact hne rest rfl

/-- Characters spell one number at most. -/
theorem Unsigned.unique {m : Nat} (hm : Unsigned cs m) (hn : Unsigned cs n) : m = n := by
  have hreadm := readUnsigned?_eq_some_iff.2 ⟨Nat.le_max_left m n, hm⟩
  have hreadn := readUnsigned?_eq_some_iff.2 ⟨Nat.le_max_right m n, hn⟩
  exact Option.some.inj (hreadm.symm.trans hreadn)

end OpenRelay.Text
