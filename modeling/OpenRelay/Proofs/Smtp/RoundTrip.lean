import OpenRelay.Proofs.Smtp.Grammar
import OpenRelay.Proofs.Text.Lines

/-!
# Replies written and read

* `Reply.write`: a reply as a server sends it, one line for each line of its text.
* `read_write`: it is read back, whatever follows it; but not if it has too many lines.
-/

namespace OpenRelay

variable {code : Nat} {part rest : List Char} {before : List (List Char)} {separator : Char}

/-! ## Writing -/

/-- A code in three digits. -/
def codeDigits (code : Nat) : List Char := (Nat.toDigits 10 code).leftpad 3 '0'

/-- A line of a reply, without its ending. -/
def replyLine (code : Nat) (separator : Char) (part : List Char) : List Char :=
  codeDigits code ++ separator :: part

/-- The lines of a reply, each with its ending. A hyphen stands behind the code of every line but
the last. -/
def writeParts (code : Nat) : List (List Char) → List Char
  | [] => []
  | [part] => replyLine code ' ' part ++ ['\r', '\n']
  | part :: parts => replyLine code '-' part ++ '\r' :: '\n' :: writeParts code parts

namespace Reply

/-- The lines of the text of a reply. -/
def parts (r : Reply) : List (List Char) := r.text.toList.splitOn '\n'

/-- A reply as a server sends it. -/
def write (r : Reply) : String := String.ofList (writeParts r.code r.parts)

end Reply

/-! ## Lines -/

theorem length_codeDigits (hcode : code ≤ 999) : (codeDigits code).length = 3 := by
  have hlength : (Nat.toDigits 10 code).length ≤ 3 :=
    (Nat.length_toDigits_le_iff (by decide) (by decide)).2 (by omega)
  rw [codeDigits, List.length_leftpad]
  omega

theorem decimal_codeDigits (code : Nat) : Text.Decimal (codeDigits code) code where
  nonempty := List.append_ne_nil_of_right_ne_nil _ Nat.toDigits_ne_nil
  digits := by
    intro c hc
    rcases List.mem_append.1 hc with hc | hc
    · rw [(List.mem_replicate.1 hc).2]
      rfl
    · exact Nat.isDigit_of_mem_toDigits (by decide) (by decide) hc
  value := by
    show Nat.ofDigitChars 10 (List.replicate _ '0' ++ Nat.toDigits 10 code) 0 = code
    rw [Nat.ofDigitChars_append, Nat.ofDigitChars_replicate_zero, Nat.mul_zero,
      Nat.ofDigitChars_ten_toDigits]

theorem spells_replyLine (hcode : code ≤ 999) (separator : Char) (part : List Char) :
    Spells ((replyLine code separator part).take 3) code := by
  rw [replyLine, ← length_codeDigits hcode, List.take_left]
  exact ⟨length_codeDigits hcode, Or.inl (decimal_codeDigits code)⟩

theorem separator_replyLine (hcode : code ≤ 999) (separator : Char) (part : List Char) :
    separator? (replyLine code separator part) = some separator := by
  rw [separator?, replyLine, ← length_codeDigits hcode, List.drop_left, List.head?_cons]

/-- The text behind a separator of one byte is the part that was written. -/
theorem textOfLine_replyLine (hcode : code ≤ 999) (hseparator : separator.utf8Size = 1)
    (part : List Char) : textOfLine (replyLine code separator part) = String.ofList part := by
  rw [textOfLine, replyLine, ← length_codeDigits hcode, List.drop_left, ReplyLine.textBehind,
    if_pos hseparator]

theorem continues_map_replyLine (hcode : code ≤ 999) (parts : List (List Char)) :
    ∀ line ∈ parts.map (replyLine code '-'), Continues code line := by
  intro line hmem
  obtain ⟨part, -, rfl⟩ := List.mem_map.1 hmem
  exact ⟨spells_replyLine hcode '-' part, separator_replyLine hcode '-' part⟩

theorem ends_replyLine (hcode : code ≤ 999) (part : List Char) :
    Ends code (replyLine code ' ' part) where
  code := spells_replyLine hcode ' ' part
  no_hyphen := by
    rw [separator_replyLine hcode]
    decide

theorem lineFeed_not_mem_replyLine (code : Nat) (hseparator : separator ≠ '\n')
    (hpart : '\n' ∉ part) : '\n' ∉ replyLine code separator part := by
  intro hmem
  rcases List.mem_append.1 hmem with hmem | hmem
  · exact absurd ((decimal_codeDigits code).digits _ hmem) (by decide)
  · rcases List.mem_cons.1 hmem with h | h
    · exact hseparator h.symm
    · exact hpart h

/-- **The lines of a reply that was written** are read from it, and then those behind it. -/
theorem lines_writeParts {last : List Char} (h : ∀ part ∈ before ++ [last], '\n' ∉ part) :
    Text.lines (writeParts code (before ++ [last]) ++ rest) =
      before.map (replyLine code '-') ++ replyLine code ' ' last :: Text.lines rest := by
  induction before with
  | nil =>
    have hline := lineFeed_not_mem_replyLine code (by decide : ' ' ≠ '\n') (h last (by simp))
    show Text.lines ((replyLine code ' ' last ++ ['\r', '\n']) ++ rest) = _
    rw [List.append_assoc]
    exact Text.lines_append_crlf hline rest
  | cons part before ih =>
    obtain ⟨hpart, hbefore⟩ := List.forall_mem_cons.1 h
    have hline := lineFeed_not_mem_replyLine code (by decide : '-' ≠ '\n') hpart
    have hwrite : writeParts code (part :: (before ++ [last])) =
        replyLine code '-' part ++ '\r' :: '\n' :: writeParts code (before ++ [last]) :=
      writeParts.eq_3 code part _ (by simp)
    rw [List.cons_append, hwrite, List.append_assoc, List.cons_append, List.cons_append,
      Text.lines_append_crlf hline, ih hbefore, List.map_cons, List.cons_append]

/-! ## Replies -/

/-- The text of a reply is put together again from its lines. -/
theorem Reply.intercalate_parts (r : Reply) :
    "\n".intercalate (r.parts.map String.ofList) = r.text := by
  rw [← String.toList_inj, String.toList_intercalate, List.map_map]
  have hid : String.toList ∘ String.ofList = id := funext fun _ => String.toList_ofList
  rw [hid, List.map_id]
  exact List.intercalate_splitOn '\n'

/-- **A reply that was written is read back**, whatever follows it: its code, and its text with
all carriage returns. If it has more lines than are kept, it is refused for that. -/
theorem read_write (r : Reply) (hcode : r.code ≤ 999) (rest : String) :
    (r.parts.length ≤ maxReplyLines → Reply.read (r.write ++ rest) = .ok r) ∧
      (maxReplyLines < r.parts.length →
        Reply.read (r.write ++ rest) = .error .tooManyLines) := by
  obtain ⟨before, last, hparts⟩ : ∃ before last, r.parts = before ++ [last] :=
    ⟨_, _, (List.dropLast_concat_getLast (List.splitOn_ne_nil '\n' _)).symm⟩
  have hclean : ∀ part ∈ before ++ [last], '\n' ∉ part := by
    rw [← hparts, Reply.parts, ← Text.pieces_eq_splitOn]
    exact fun part => Text.not_mem_of_mem_pieces
  have hlines : Text.lines (r.write ++ rest).toList =
      before.map (replyLine r.code '-') ++ replyLine r.code ' ' last :: Text.lines rest.toList := by
    rw [String.toList_append, Reply.write, String.toList_ofList, hparts, lines_writeParts hclean]
  unfold Reply.read
  rw [hlines, hparts, List.length_append, List.length_singleton]
  constructor
  · intro hroom
    have hblock : Block r.code (before.map (replyLine r.code '-')) (replyLine r.code ' ' last) :=
      ⟨continues_map_replyLine hcode before, ends_replyLine hcode last⟩
    have htext : (before.map (replyLine r.code '-') ++ [replyLine r.code ' ' last]).map textOfLine =
        r.parts.map String.ofList := by
      have hhyphen := textOfLine_replyLine hcode (by decide : Char.utf8Size '-' = 1)
      have hblank := textOfLine_replyLine hcode (by decide : Char.utf8Size ' ' = 1)
      rw [hparts]
      simp [hhyphen, hblank]
    rw [Draft.readLines_block hblock (by rw [List.length_map]; omega), htext, r.intercalate_parts]
  · intro hmany
    -- the line behind those that there is room for
    obtain ⟨line, behind, hline, hsplit⟩ : ∃ line behind, Spells (line.take 3) r.code ∧
        (before.drop maxReplyLines).map (replyLine r.code '-') ++
          replyLine r.code ' ' last :: Text.lines rest.toList = line :: behind := by
      cases before.drop maxReplyLines with
      | nil => exact ⟨_, _, spells_replyLine hcode ' ' last, rfl⟩
      | cons part parts => exact ⟨_, _, spells_replyLine hcode '-' part, rfl⟩
    have hfull :
        ((before.take maxReplyLines).map (replyLine r.code '-')).length = maxReplyLines := by
      rw [List.length_map, List.length_take]
      omega
    rw [← List.take_append_drop maxReplyLines before, List.map_append, List.append_assoc, hsplit]
    exact Draft.readLines_full (continues_map_replyLine hcode _) hfull hline behind

/-- A greeting of three lines, with a carriage return within one of them and another reply behind,
and a text of 65 lines. -/
theorem read_write_greeting :
    (Reply.read "007-mx\r\r\n007-\r\n007 last\r\n250 next\r\n" =
      .ok { code := 7, text := "mx\r\n\nlast" }) ∧
      Reply.read ({ code := 7, text := String.ofList (List.replicate 64 '\n') } : Reply).write =
        .error .tooManyLines := by
  have hgreeting := (read_write { code := 7, text := "mx\r\n\nlast" } (by decide)
    "250 next\r\n").1 (by decide +kernel)
  have hlong := (read_write { code := 7, text := String.ofList (List.replicate 64 '\n') }
    (by decide) "").2 (by decide +kernel)
  rw [String.append_empty] at hlong
  have hwrite : ({ code := 7, text := "mx\r\n\nlast" } : Reply).write ++ "250 next\r\n" =
      "007-mx\r\r\n007-\r\n007 last\r\n250 next\r\n" := by decide +kernel
  exact ⟨hwrite ▸ hgreeting, hlong⟩

end OpenRelay
