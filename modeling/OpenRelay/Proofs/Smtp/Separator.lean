import OpenRelay.Proofs.Smtp.Inbox
import OpenRelay.Proofs.Text.Utf8

/-!
# The text behind a code

A line is decoded as a whole, and its text is what stands behind one byte after the code. That cuts
the separator off if it is a character of one byte. Behind one of several bytes there is no text,
and a byte that spells no character counts as such a one, since three bytes stand for it.

* `textBehind_decodeLossy`, `textBehind_decodeLossy_of_not`: the text that is left of some bytes.
* `takeLine_code`: the code of a line is not touched by what stands behind it.
* `text_behind_code`: the text of every reply of one line, and exactly when none of it is lost.
* `text_lost`: a greeting of which nothing is left.
-/

namespace OpenRelay

variable {line bytes front behind : List UInt8} {cs : List Char}

/-! ## What is left of a text -/

theorem ReplyLine.textBehind_of_one (h : ∀ c ∈ cs.head?, c.utf8Size = 1) :
    ReplyLine.textBehind cs = cs.drop 1 := by
  cases cs with
  | nil => rfl
  | cons c cs => rw [textBehind, if_pos (h c rfl), List.drop_one, List.tail_cons]

theorem ReplyLine.textBehind_of_many (h : ¬ ∀ c ∈ cs.head?, c.utf8Size = 1) :
    ReplyLine.textBehind cs = [] := by
  cases cs with
  | nil => rfl
  | cons c cs => rw [textBehind, if_neg (by simpa using h)]

/-- **The separator is cut off if it is a byte below 0x80.** -/
theorem textBehind_decodeLossy (h : ∀ b ∈ bytes.head?, b < 0x80) :
    ReplyLine.textBehind (Text.Utf8.decodeLossy bytes) =
      (Text.Utf8.decodeLossy bytes).drop 1 :=
  ReplyLine.textBehind_of_one ((Text.Utf8.head_decodeLossy_iff bytes).2 h)

/-- **If not, all of the text is.** -/
theorem textBehind_decodeLossy_of_not (h : ¬ ∀ b ∈ bytes.head?, b < 0x80) :
    ReplyLine.textBehind (Text.Utf8.decodeLossy bytes) = [] :=
  ReplyLine.textBehind_of_many (mt (Text.Utf8.head_decodeLossy_iff bytes).1 h)

/-! ## The code -/

/-- A line that opens with three digits. -/
structure Coded (line : List UInt8) : Prop where
  length : 3 ≤ line.length
  digits : ∀ b ∈ line.take 3, 0x30 ≤ b ∧ b ≤ 0x39

theorem dropReturnByte_append (h : 0x0D ∉ front) (bytes : List UInt8) :
    dropReturnByte (front ++ bytes) = front ++ dropReturnByte bytes := by
  rcases List.eq_nil_or_concat bytes with rfl | ⟨bytes, b, rfl⟩
  · have hlast : front.getLast? ≠ some 0x0D := fun hlast => h (List.mem_of_getLast? hlast)
    rw [List.append_nil, dropReturnByte, if_neg hlast]
    exact (List.append_nil front).symm
  · rw [List.concat_eq_append, dropReturnByte, dropReturnByte, ← List.append_assoc,
      List.getLast?_concat, List.getLast?_concat, List.dropLast_concat, List.dropLast_concat]
    split
    · rfl
    · rw [List.append_assoc]

/-- The digits of a line spell a code. -/
theorem Coded.spells (h : Coded line) :
    ∃ cs code, Text.Utf8.encode cs = line.take 3 ∧ Spells cs code := by
  have hsmall : ∀ b ∈ line.take 3, b < 0x80 := fun b hb =>
    UInt8.lt_of_le_of_lt (h.digits b hb).2 (by decide)
  have hlength : (line.take 3).length = 3 := List.length_take_of_le h.length
  refine ⟨(line.take 3).map fun b => Char.ofNat b.toNat, _, Text.Utf8.encode_map_ofNat hsmall, ?_,
    .inl ⟨?_, ?_, rfl⟩⟩
  · rw [List.length_map, hlength]
  · rw [← List.length_pos_iff, List.length_map, hlength]
    decide
  · intro c hc
    obtain ⟨b, hb, rfl⟩ := List.mem_map.1 hc
    have hval := Text.Utf8.val_ofNat (hsmall b hb)
    obtain ⟨hlo, hhi⟩ := h.digits b hb
    rw [UInt8.le_iff_toNat_le] at hlo hhi
    simp only [Char.isDigit, Bool.and_eq_true, decide_eq_true_eq, UInt32.le_iff_toNat_le, hval]
    exact ⟨hlo, hhi⟩

theorem takeLine_append (hopen : lineFeed ∉ line) (behind : List UInt8) :
    takeLine (line ++ lineFeed :: behind) = some (lineText line, behind) := by
  rw [takeLine, cutLine_eq_some_iff.2 ⟨hopen, rfl⟩]
  rfl

/-- **The code of a line is not touched by what stands behind it**, whatever it spells. -/
theorem takeLine_code (h : Coded line) (hopen : lineFeed ∉ line) (behind : List UInt8) :
    ∃ cs code, Spells cs code ∧ takeLine (line ++ lineFeed :: behind) = some
      (String.ofList (cs ++ Text.Utf8.decodeLossy (dropReturnByte (line.drop 3))), behind) := by
  obtain ⟨cs, code, hcs, hcode⟩ := h.spells
  refine ⟨cs, code, hcode, ?_⟩
  have hreturn : 0x0D ∉ line.take 3 := fun hmem => absurd (h.digits _ hmem).1 (by decide)
  have hbytes : dropReturnByte line = Text.Utf8.encode cs ++ dropReturnByte (line.drop 3) := by
    rw [hcs, ← dropReturnByte_append hreturn, List.take_append_drop]
  rw [takeLine_append hopen, lineText, hbytes, Text.Utf8.decodeLossy_encode_append]

/-! ## Replies of one line -/

/-- **What becomes of the text of a reply.** A line that opens with three digits is taken as a whole
reply unless a hyphen stands behind them. What is decoded behind the separator is the text of the
reply if the separator is a byte below 0x80. If not, the text is empty, and so it is lost unless
there was none. -/
theorem text_behind_code (h : Coded line) (hopen : lineFeed ∉ line) (behind : List UInt8) :
    let bytes := dropReturnByte (line.drop 3)
    let text := (Text.Utf8.decodeLossy bytes).drop 1
    ∃ taken, takeLine (line ++ lineFeed :: behind) = some (taken, behind) ∧
      ((({} : Draft).push taken).2 = .ok true ↔ bytes.head? ≠ some 0x2D) ∧
      ∀ d, ({} : Draft).push taken = (d, .ok true) → ∃ r, d.finish = .ok r ∧
        ((∀ b ∈ bytes.head?, b < 0x80) → r.text = String.ofList text) ∧
        (¬ (∀ b ∈ bytes.head?, b < 0x80) → r.text = "") ∧
        (r.text = String.ofList text ↔ (∀ b ∈ bytes.head?, b < 0x80) ∨ text = []) := by
  intro bytes text
  obtain ⟨cs, code, hcode, htaken⟩ := takeLine_code h hopen behind
  refine ⟨_, htaken, ?_⟩
  have htake : (cs ++ Text.Utf8.decodeLossy bytes).take 3 = cs := List.take_left' hcode.1
  have hdrop : (cs ++ Text.Utf8.decodeLossy bytes).drop 3 = Text.Utf8.decodeLossy bytes :=
    List.drop_left' hcode.1
  have hspells : Spells ((cs ++ Text.Utf8.decodeLossy bytes).take 3) code := htake.symm ▸ hcode
  have hpush := Draft.push_of_spells (d := {}) hspells (Draft.agrees_new code) (by decide)
  rw [hpush, separator?, textOfLine, hdrop]
  have hminus : String.utf8EncodeChar '-' = [0x2D] := by decide
  have hhyphen := Text.Utf8.head_decodeLossy_eq_iff hminus (by decide) bytes
  refine ⟨by simp [hhyphen], ?_⟩
  intro d hd
  obtain ⟨rfl, -⟩ := Prod.mk.inj hd
  have hone : ∀ s : String, "\n".intercalate ([] ++ [s]) = s := fun s => by simp
  refine ⟨_, rfl, ?_⟩
  dsimp only
  rw [hone]
  by_cases hb : ∀ b ∈ bytes.head?, b < 0x80
  · rw [textBehind_decodeLossy hb]
    exact ⟨fun _ => rfl, fun hnot => absurd hb hnot, iff_of_true rfl (.inl hb)⟩
  · rw [textBehind_decodeLossy_of_not hb, String.ofList_inj]
    refine ⟨fun hall => absurd hall hb, fun _ => rfl, fun htext => .inr htext.symm, fun hor => ?_⟩
    exact (hor.resolve_left hb).symm

/-- A greeting in Latin-1: the byte that spells no character is behind the separator. -/
theorem text_of_greeting :
    let line : List UInt8 := [0x32, 0x32, 0x30, 0x20, 0x68, 0xE9, 0x6C, 0x6C, 0x6F, 0x0D]
    Coded line ∧ lineFeed ∉ line ∧
      ∃ taken d, takeLine (line ++ [lineFeed]) = some (taken, []) ∧
        ({} : Draft).push taken = (d, .ok true) ∧
        ∃ r, d.finish = .ok r ∧ r.text = "h\uFFFDllo" := by
  intro line
  have hcoded : Coded line := ⟨by decide, by simp [line]⟩
  have hopen : lineFeed ∉ line := by decide
  obtain ⟨taken, htaken, hwhole, htext⟩ := text_behind_code hcoded hopen []
  have hpush := hwhole.2 (by decide)
  obtain ⟨r, hr, htext, -⟩ := htext _ (Prod.ext rfl hpush)
  have hsmall : ∀ b ∈ (dropReturnByte (line.drop 3)).head?, b < 0x80 := by
    simp [line, dropReturnByte]
  exact ⟨hcoded, hopen, taken, _, htaken, Prod.ext rfl hpush, r, hr, htext hsmall⟩

/-- **A text is lost.** Without a blank behind the code, the byte that spells no character is the
separator, and nothing is left of the greeting. -/
theorem text_lost :
    let line : List UInt8 := [0x32, 0x32, 0x30, 0xE9, 0x6C, 0x6C, 0x6F]
    Coded line ∧ lineFeed ∉ line ∧
      (Text.Utf8.decodeLossy (dropReturnByte (line.drop 3))).drop 1 = ['l', 'l', 'o'] ∧
      ∃ taken d, takeLine (line ++ [lineFeed]) = some (taken, []) ∧
        ({} : Draft).push taken = (d, .ok true) ∧ d.finish = .ok { code := 220, text := "" } := by
  intro line
  exact ⟨⟨by decide, by simp [line]⟩, by decide, by decide, "220\uFFFDllo",
    { code := some 220, lines := [""] }, by decide, by decide, by decide⟩

end OpenRelay
