import Mathlib.Tactic.IntervalCases
import OpenRelay.Text.Utf8

/-!
# UTF-8 and back

* `Utf8.decode_encode_append`: what is spelled out is read back, character by character.
* `Utf8.ofNat_mem_of_mem_encode`: a byte below 0x80 spells a character by itself.
* `Utf8.splitOn_encode`: so the bytes of a text can be cut where its characters can.
* `Utf8.Lead.Sound`: what may follow a first byte spells characters, and not those of one byte.
* `Utf8.head_decodeLossy_iff`: so a text begins with a character of one byte if its first byte is
  below 0x80.
-/

namespace OpenRelay.Text.Utf8

variable {l : Lead} {b : UInt8} {x v : Nat} {bs : List UInt8}

theorem toNat_ofNat {x : Nat} (h : x < 256) : (UInt8.ofNat x).toNat = x := by
  rw [UInt8.toNat_ofNat', Nat.mod_eq_of_lt h]

/-! ## First bytes -/

theorem lead?_two (h : 2 ≤ x) (h' : x < 32) :
    lead? (UInt8.ofNat (x + 192)) = some { bits := x, more := 1 } := by
  interval_cases x <;> rfl

theorem lead?_three (h : x < 16) : lead? (UInt8.ofNat (x + 224)) = some
    { bits := x, more := 2, lo := if x = 0 then 0xA0 else 0x80,
      hi := if x = 13 then 0x9F else 0xBF } := by
  interval_cases x <;> rfl

theorem lead?_four (h : x < 5) : lead? (UInt8.ofNat (x + 240)) = some
    { bits := x, more := 3, lo := if x = 0 then 0x90 else 0x80,
      hi := if x = 4 then 0x8F else 0xBF } := by
  interval_cases x <;> rfl

/-- After the first of several bytes, more are needed. -/
theorem decodeFrom_lead (hx : 128 ≤ x) (hx' : x < 256) (h : lead? (UInt8.ofNat x) = some l) :
    decodeFrom none (UInt8.ofNat x :: bs) = decodeFrom (some l) bs := by
  have hstart : start (UInt8.ofNat x) = (none, some l) := by
    have hbig : ¬ UInt8.ofNat x < 0x80 := by
      rw [UInt8.lt_iff_toNat_lt, toNat_ofNat hx']
      exact Nat.not_lt.2 hx
    rw [start, if_neg hbig, h]
  simp [decodeFrom, hstart]

/-! ## Further bytes -/

theorem decodeFrom_more {bits more : Nat} {lo hi : UInt8} (hlo : lo.toNat ≤ x + 128)
    (hhi : x + 128 ≤ hi.toNat) :
    decodeFrom (some { bits, more := more + 2, lo, hi }) (UInt8.ofNat (x + 128) :: bs) =
      decodeFrom (some { bits := bits * 64 + x, more := more + 1 }) bs := by
  have hbyte : (UInt8.ofNat (x + 128)).toNat = x + 128 :=
    toNat_ofNat (Nat.lt_of_le_of_lt hhi hi.toNat_lt)
  have hrange : lo ≤ UInt8.ofNat (x + 128) ∧ UInt8.ofNat (x + 128) ≤ hi := by
    rw [UInt8.le_iff_toNat_le, UInt8.le_iff_toNat_le, hbyte]
    exact ⟨hlo, hhi⟩
  simp only [decodeFrom, if_pos hrange, hbyte, Nat.add_sub_cancel]

theorem decodeFrom_last {bits : Nat} {lo hi : UInt8} (hlo : lo.toNat ≤ x + 128)
    (hhi : x + 128 ≤ hi.toNat) :
    decodeFrom (some { bits, more := 1, lo, hi }) (UInt8.ofNat (x + 128) :: bs) =
      some (Char.ofNat (bits * 64 + x)) :: decodeFrom none bs := by
  have hbyte : (UInt8.ofNat (x + 128)).toNat = x + 128 :=
    toNat_ofNat (Nat.lt_of_le_of_lt hhi hi.toNat_lt)
  have hrange : lo ≤ UInt8.ofNat (x + 128) ∧ UInt8.ofNat (x + 128) ≤ hi := by
    rw [UInt8.le_iff_toNat_le, UInt8.le_iff_toNat_le, hbyte]
    exact ⟨hlo, hhi⟩
  simp only [decodeFrom, if_pos hrange, hbyte, Nat.add_sub_cancel]

/-! ## Characters -/

/-- **A character that is spelled out is read back.** -/
theorem decodeFrom_encodeChar (c : Char) (bs : List UInt8) :
    decodeFrom none (String.utf8EncodeChar c ++ bs) = some c :: decodeFrom none bs := by
  have hchar : Char.ofNat c.val.toNat = c := Char.ofNat_toNat c
  have hvalid : c.val.toNat < 0xD800 ∨ (0xDFFF < c.val.toNat ∧ c.val.toNat < 0x110000) := c.valid
  unfold String.utf8EncodeChar
  generalize c.val.toNat = v at hchar hvalid
  simp only
  split
  · have hsmall : UInt8.ofNat v < 0x80 := by
      rw [UInt8.lt_iff_toNat_lt, toNat_ofNat (by omega)]
      show v < 128
      omega
    simp [decodeFrom, start, hsmall, toNat_ofNat (show v < 256 by omega), hchar]
  -- the bits of the bytes together are the code point again
  split
  · simp only [List.cons_append, List.nil_append]
    rw [decodeFrom_lead (by omega) (by omega) (lead?_two (by omega) (by omega)),
      decodeFrom_last (Nat.le_add_left _ _) (by show _ ≤ 191; omega),
      show v / 64 % 32 * 64 + v % 64 = v by omega, hchar]
  split
  · simp only [List.cons_append, List.nil_append]
    rw [decodeFrom_lead (by omega) (by omega) (lead?_three (by omega)),
      decodeFrom_more (by split <;> simp; omega) (by split <;> simp <;> omega),
      decodeFrom_last (Nat.le_add_left _ _) (by show _ ≤ 191; omega),
      show (v / 4096 % 16 * 64 + v / 64 % 64) * 64 + v % 64 = v by omega, hchar]
  · simp only [List.cons_append, List.nil_append]
    rw [decodeFrom_lead (by omega) (by omega) (lead?_four (by omega)),
      decodeFrom_more (by split <;> simp; omega) (by split <;> simp <;> omega),
      decodeFrom_more (Nat.le_add_left _ _) (by show _ ≤ 191; omega),
      decodeFrom_last (Nat.le_add_left _ _) (by show _ ≤ 191; omega),
      show ((v / 262144 % 8 * 64 + v / 4096 % 64) * 64 + v / 64 % 64) * 64 + v % 64 = v by omega,
      hchar]

/-- **What is spelled out is read back**, whatever follows it. -/
theorem decode_encode_append (cs : List Char) (bs : List UInt8) :
    decode (encode cs ++ bs) = cs.map some ++ decode bs := by
  unfold decode
  induction cs with
  | nil => rfl
  | cons c cs ih =>
    rw [encode, List.flatMap_cons, List.append_assoc, decodeFrom_encodeChar, List.map_cons,
      List.cons_append, ← ih, encode]

theorem decodeLossy_encode_append (cs : List Char) (bs : List UInt8) :
    decodeLossy (encode cs ++ bs) = cs ++ decodeLossy bs := by
  simp [decodeLossy, decode_encode_append]

theorem decodeLossy_encode (cs : List Char) : decodeLossy (encode cs) = cs := by
  have h := decodeLossy_encode_append cs []
  rwa [List.append_nil, show decodeLossy [] = [] from rfl, List.append_nil] at h

/-! ## Single bytes -/

theorem val_eq_of_mem_encodeChar {c : Char} {b : UInt8} (h : b ∈ String.utf8EncodeChar c)
    (hb : b.toNat < 128) : c.val.toNat = b.toNat := by
  unfold String.utf8EncodeChar at h
  generalize c.val.toNat = v at h
  simp only at h
  split at h
  · rw [List.mem_singleton.1 h, toNat_ofNat (by omega)]
  -- the bytes of a longer spelling are all above
  · have hbig : ∀ x : Nat, 128 ≤ x → x < 256 → b ≠ UInt8.ofNat x := by
      rintro x hx hx' rfl
      rw [toNat_ofNat hx'] at hb
      omega
    split at h
    · simp only [List.mem_cons, List.not_mem_nil, or_false] at h
      rcases h with h | h <;> exact absurd h (hbig _ (by omega) (by omega))
    split at h
    · simp only [List.mem_cons, List.not_mem_nil, or_false] at h
      rcases h with h | h | h <;> exact absurd h (hbig _ (by omega) (by omega))
    · simp only [List.mem_cons, List.not_mem_nil, or_false] at h
      rcases h with h | h | h | h <;> exact absurd h (hbig _ (by omega) (by omega))

/-- **A byte below 0x80 spells a character by itself.** -/
theorem ofNat_mem_of_mem_encode {cs : List Char} {b : UInt8} (h : b ∈ encode cs)
    (hb : b.toNat < 128) : Char.ofNat b.toNat ∈ cs := by
  obtain ⟨c, hc, hmem⟩ := List.mem_flatMap.1 h
  rw [← val_eq_of_mem_encodeChar hmem hb]
  exact (Char.ofNat_toNat c).symm ▸ hc

/-- Such a byte is in the spelling of no other character. -/
theorem eq_of_mem_encodeChar {c sep : Char} {b : UInt8} (hsep : String.utf8EncodeChar sep = [b])
    (hb : b.toNat < 128) (h : b ∈ String.utf8EncodeChar c) : c = sep := by
  have hc := val_eq_of_mem_encodeChar h hb
  have hs := val_eq_of_mem_encodeChar (c := sep) (hsep ▸ List.mem_singleton_self b) hb
  exact Char.toNat_inj.1 (hc.trans hs.symm)

/-- Elements that are not the separator belong to the first piece. -/
theorem splitOn_append {α : Type} [BEq α] [LawfulBEq α] {sep : α} {xs : List α} (h : sep ∉ xs)
    (ys : List α) : (xs ++ ys).splitOn sep = (ys.splitOn sep).modifyHead (xs ++ ·) := by
  induction xs with
  | nil => cases hys : ys.splitOn sep <;> simp [hys]
  | cons x xs ih =>
    rw [List.mem_cons, not_or] at h
    rw [List.cons_append, List.splitOn_cons_eq_if_modifyHead, ih h.2,
      if_neg fun hx => h.1 (beq_iff_eq.1 hx).symm, List.modifyHead_modifyHead]
    rfl

/-- **The bytes of a text are cut where its characters are**, at a character of one byte. -/
theorem splitOn_encode {sep : Char} {b : UInt8} (hsep : String.utf8EncodeChar sep = [b])
    (hb : b.toNat < 128) (cs : List Char) :
    (encode cs).splitOn b = (cs.splitOn sep).map encode := by
  induction cs with
  | nil => rfl
  | cons c cs ih =>
    rw [encode, List.flatMap_cons, ← encode, List.splitOn_cons_eq_if_modifyHead]
    by_cases hc : c = sep
    · rw [hc, hsep, if_pos (beq_self_eq_true sep), List.map_cons, ← ih]
      exact List.splitOn_append_cons_self_of_not_mem List.not_mem_nil _
    · have hother : b ∉ String.utf8EncodeChar c := fun hmem =>
        hc (eq_of_mem_encodeChar hsep hb hmem)
      rw [splitOn_append hother, ih, if_neg fun h => hc (beq_iff_eq.1 h)]
      cases cs.splitOn sep with
      | nil => rfl
      | cons p ps => simp [encode]

/-! ## Characters of several bytes -/

/-- The least code point that a character begun before can have. -/
def Lead.least (l : Lead) : Nat := (l.bits * 64 + (l.lo.toNat - 0x80)) * 64 ^ (l.more - 1)

/-- The code points that it can have end before this one. -/
def Lead.bound (l : Lead) : Nat := (l.bits * 64 + (l.hi.toNat - 0x80) + 1) * 64 ^ (l.more - 1)

/-- The code points that a character begun before can have are characters, and none of them is
spelled by a single byte. -/
structure Lead.Sound (l : Lead) : Prop where
  tail : 0x80 ≤ l.lo.toNat
  wide : 0x80 ≤ l.least
  valid : l.bound ≤ 0xD800 ∨ (0xDFFF < l.least ∧ l.bound ≤ 0x110000)

/-- **What a first byte announces is sound**: long spellings, surrogates and what is above the last
code point are excluded by the bounds of the second byte. -/
theorem lead?_sound (h : lead? b = some l) : l.Sound := by
  unfold lead? at h
  simp only [UInt8.le_iff_toNat_le, ← UInt8.toNat_inj, UInt8.reduceToNat] at h
  split_ifs at h
  all_goals
    obtain rfl := Option.some.inj h
    constructor <;> simp [Lead.least, Lead.bound] <;> omega

/-- The character that is still to come when one more byte was read. -/
def Lead.next (l : Lead) (b : UInt8) (more : Nat) : Lead :=
  { bits := l.bits * 64 + (b.toNat - 0x80), more }

theorem Lead.least_next {more : Nat} (hlo : l.lo ≤ b) (hmore : l.more = more + 2) :
    l.least ≤ (l.next b (more + 1)).least := by
  rw [UInt8.le_iff_toNat_le] at hlo
  unfold least next
  dsimp only [UInt8.reduceToNat]
  rw [hmore, Nat.add_sub_cancel, show more + 2 - 1 = more + 1 by omega, Nat.pow_succ',
    ← Nat.mul_assoc]
  exact Nat.mul_le_mul_right _ (by omega)

theorem Lead.bound_next {more : Nat} (hhi : b ≤ l.hi) (hmore : l.more = more + 2) :
    (l.next b (more + 1)).bound ≤ l.bound := by
  rw [UInt8.le_iff_toNat_le] at hhi
  unfold bound next
  dsimp only [UInt8.reduceToNat]
  rw [hmore, Nat.add_sub_cancel, show more + 2 - 1 = more + 1 by omega, Nat.pow_succ',
    ← Nat.mul_assoc]
  exact Nat.mul_le_mul_right _ (by omega)

theorem Lead.Sound.next {more : Nat} (h : l.Sound) (hlo : l.lo ≤ b) (hhi : b ≤ l.hi)
    (hmore : l.more = more + 2) : (l.next b (more + 1)).Sound := by
  have hleast := Lead.least_next hlo hmore
  have hbound := Lead.bound_next hhi hmore
  have hwide := h.wide
  constructor
  · exact Nat.le_refl _
  · omega
  · rcases h.valid with hv | ⟨hv, hv'⟩
    · exact .inl (by omega)
    · exact .inr ⟨by omega, by omega⟩

theorem Lead.Sound.utf8Size (h : l.Sound) (hlo : l.lo ≤ b) (hhi : b ≤ l.hi) (hmore : l.more ≤ 1) :
    (Char.ofNat (l.bits * 64 + (b.toNat - 0x80))).utf8Size ≠ 1 := by
  rw [UInt8.le_iff_toNat_le] at hlo hhi
  have hone : 64 ^ (l.more - 1) = 1 := by rw [Nat.sub_eq_zero_of_le hmore, Nat.pow_zero]
  obtain ⟨-, hwide, hvalid⟩ := h
  rw [Lead.least, Lead.bound, hone, Nat.mul_one, Nat.mul_one] at hvalid
  rw [Lead.least, hone, Nat.mul_one] at hwide
  generalize hv : l.bits * 64 + (b.toNat - 0x80) = v
  have hchar : v.isValidChar := by
    unfold Nat.isValidChar
    omega
  intro hsize
  rw [Char.utf8Size_eq_one_iff, UInt32.le_iff_toNat_le] at hsize
  have htoNat : (Char.ofNat v).val.toNat = v := by
    rw [Char.ofNat, dif_pos hchar]
    rfl
  rw [htoNat] at hsize
  simp at hsize
  omega

/-- **A character of several bytes is not one of a single byte**, and neither is what stands for a
fault. -/
theorem decodeFrom_some (h : l.Sound) (bs : List UInt8) :
    ∃ c rest, decodeFrom (some l) bs = c :: rest ∧ (c.getD replacement).utf8Size ≠ 1 := by
  have hfault : ((none : Option Char).getD replacement).utf8Size ≠ 1 := by decide
  induction bs generalizing l with
  | nil => exact ⟨none, [], rfl, hfault⟩
  | cons b bs ih =>
    by_cases hb : l.lo ≤ b ∧ b ≤ l.hi
    · rw [decodeFrom]
      dsimp only
      rw [if_pos hb]
      split
      · rename_i more hmore
        exact ih (h.next hb.1 hb.2 hmore)
      · rename_i hmore
        have hlast : l.more ≤ 1 := by
          by_contra hmany
          exact hmore (l.more - 2) (by omega)
        have hsize := h.utf8Size hb.1 hb.2 hlast
        generalize l.bits * 64 + (b.toNat - 0x80) = v at hsize
        exact ⟨some (Char.ofNat v), _, rfl, hsize⟩
    · rw [decodeFrom]
      dsimp only
      rw [if_neg hb]
      exact ⟨none, _, rfl, hfault⟩

theorem decodeLossy_cons_of_lt (hb : b < 0x80) (bs : List UInt8) :
    decodeLossy (b :: bs) = Char.ofNat b.toNat :: decodeLossy bs := by
  simp [decodeLossy, decode, decodeFrom, start, hb]

theorem decodeLossy_cons_of_ge (hb : ¬ b < 0x80) (bs : List UInt8) :
    ∃ c cs, decodeLossy (b :: bs) = c :: cs ∧ c.utf8Size ≠ 1 := by
  have hfirst : ∃ c rest, decodeFrom none (b :: bs) = c :: rest ∧
      (c.getD replacement).utf8Size ≠ 1 := by
    cases hlead : lead? b with
    | none =>
      exact ⟨none, decodeFrom none bs, by simp [decodeFrom, start, hb, hlead], by decide⟩
    | some l =>
      have hopen : decodeFrom none (b :: bs) = decodeFrom (some l) bs := by
        simp [decodeFrom, start, hb, hlead]
      rw [hopen]
      exact decodeFrom_some (lead?_sound hlead) bs
  obtain ⟨c, rest, hrest, hc⟩ := hfirst
  refine ⟨_, rest.map fun c => c.getD replacement, ?_, hc⟩
  rw [decodeLossy, decode, hrest, List.map_cons]

theorem val_ofNat (hb : b < 0x80) : (Char.ofNat b.toNat).val.toNat = b.toNat := by
  have hsmall : b.toNat < 128 := UInt8.lt_iff_toNat_lt.1 hb
  rw [Char.ofNat, dif_pos (Or.inl (by omega))]
  rfl

theorem encodeChar_ofNat (hb : b < 0x80) :
    String.utf8EncodeChar (Char.ofNat b.toNat) = [b] := by
  have hsmall : b.toNat < 128 := UInt8.lt_iff_toNat_lt.1 hb
  rw [String.utf8EncodeChar, val_ofNat hb, if_pos (by omega), UInt8.ofNat_toNat]

/-- **Bytes below 0x80 spell a character each.** -/
theorem encode_map_ofNat (h : ∀ b ∈ bs, b < 0x80) :
    encode (bs.map fun b => Char.ofNat b.toNat) = bs := by
  unfold encode
  induction bs with
  | nil => rfl
  | cons b bs ih =>
    obtain ⟨hb, hbs⟩ := List.forall_mem_cons.1 h
    rw [List.map_cons, List.flatMap_cons, encodeChar_ofNat hb, ih hbs, List.singleton_append]

/-- **A text begins with a character of one byte** exactly if its first byte is below 0x80. -/
theorem head_decodeLossy_iff (bs : List UInt8) :
    (∀ c ∈ (decodeLossy bs).head?, c.utf8Size = 1) ↔ ∀ b ∈ bs.head?, b < 0x80 := by
  cases bs with
  | nil => simp [decodeLossy, decode, decodeFrom]
  | cons b bs =>
    by_cases hb : b < 0x80
    · rw [decodeLossy_cons_of_lt hb]
      have hsize : (Char.ofNat b.toNat).utf8Size = 1 := by
        rw [← String.length_utf8EncodeChar, encodeChar_ofNat hb]
        rfl
      simpa [hb] using hsize
    · obtain ⟨c, cs, hcs, hc⟩ := decodeLossy_cons_of_ge hb bs
      simpa [hcs, hc] using hb

/-- **A text begins with a character of one byte** exactly if it is spelled by the first byte. -/
theorem head_decodeLossy_eq_iff {sep : Char} (hsep : String.utf8EncodeChar sep = [b])
    (hb : b < 0x80) (bs : List UInt8) :
    (decodeLossy bs).head? = some sep ↔ bs.head? = some b := by
  cases bs with
  | nil => simp [decodeLossy, decode, decodeFrom]
  | cons b' bs =>
    rw [List.head?_cons, Option.some.injEq]
    by_cases hb' : b' < 0x80
    · rw [decodeLossy_cons_of_lt hb', List.head?_cons, Option.some.injEq]
      constructor
      · rintro rfl
        exact List.singleton_inj.1 ((encodeChar_ofNat hb').symm.trans hsep)
      · rintro rfl
        exact eq_of_mem_encodeChar hsep (UInt8.lt_iff_toNat_lt.1 hb)
          (by rw [encodeChar_ofNat hb', List.mem_singleton])
    · obtain ⟨c, cs, hcs, hc⟩ := decodeLossy_cons_of_ge hb' bs
      rw [hcs, List.head?_cons, Option.some.injEq]
      refine iff_of_false ?_ ?_
      · rintro rfl
        rw [← String.length_utf8EncodeChar, hsep] at hc
        exact hc rfl
      · rintro rfl
        exact hb' hb

end OpenRelay.Text.Utf8
