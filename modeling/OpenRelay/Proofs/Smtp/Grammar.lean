import OpenRelay.Smtp.Draft
import OpenRelay.Proofs.Text.Number

/-!
# The grammar of replies

A reply is said by its lines alone: each opens with the code, and a hyphen behind the code says
that another line follows. A code has three digits, but two digits behind a plus sign are read as
one, too.

* `Spells`: the three characters that are read as a code.
* `ReplyLine.read_of_spells`: a line that opens with a code is read.
* `Draft.push_cases`: which lines a draft takes, and for which faults it refuses the others.
* `reply_grammar`: which texts open with a reply, which break off within one, and that every other
  text is refused.
* `signed_code_read`: a reply whose code has a sign is read.
-/

namespace OpenRelay

variable {cs head rest line : List Char} {lines : List (List Char)} {code n : Nat} {l : ReplyLine}
  {d : Draft}

/-! ## Lines -/

/-- Three characters that are read as a code. -/
def Spells (cs : List Char) (code : Nat) : Prop := cs.length = 3 ∧ Text.Unsigned cs code

namespace Text

/-- Characters of one byte each are cut off by their number. -/
theorem splitBytes_append (h : ∀ c ∈ head, c.utf8Size = 1) :
    splitBytes head.length (head ++ rest) = some (head, rest) := by
  induction head with
  | nil => cases rest <;> rfl
  | cons c head ih =>
    obtain ⟨hc, hhead⟩ := List.forall_mem_cons.1 h
    rw [List.length_cons, List.cons_append, splitBytes, hc, if_pos (Nat.le_add_left 1 _),
      Nat.add_sub_cancel, ih hhead]
    rfl

/-- What is cut off fills the bytes asked for. -/
theorem of_splitBytes (h : splitBytes n cs = some (head, rest)) :
    cs = head ++ rest ∧ (head.map Char.utf8Size).sum = n := by
  induction cs generalizing n head with
  | nil =>
    cases n with
    | zero => cases h; exact ⟨rfl, rfl⟩
    | succ n => cases h
  | cons c cs ih =>
    cases n with
    | zero => cases h; exact ⟨rfl, rfl⟩
    | succ n =>
      rw [splitBytes] at h
      split at h
      · rename_i hfits
        obtain ⟨⟨head', rest'⟩, hsplit, heq⟩ := Option.map_eq_some_iff.1 h
        cases heq
        obtain ⟨rfl, hsum⟩ := ih hsplit
        refine ⟨rfl, ?_⟩
        rw [List.map_cons, List.sum_cons, hsum]
        omega
      · cases h

end Text

/-- Three bytes that are read as a code are the first three characters. -/
theorem splitBytes_code_iff :
    (Text.splitBytes 3 cs = some (head, rest) ∧ Text.readUnsigned? 65535 head = some code) ↔
      cs = head ++ rest ∧ Spells head code := by
  rw [Text.readUnsigned?_eq_some_iff]
  constructor
  · rintro ⟨hsplit, -, hcode⟩
    obtain ⟨rfl, hsum⟩ := Text.of_splitBytes hsplit
    have hones : head.map Char.utf8Size = List.replicate head.length 1 :=
      List.map_eq_replicate_iff.2 hcode.utf8Size
    rw [hones, List.sum_replicate_nat, Nat.mul_one] at hsum
    exact ⟨rfl, hsum, hcode⟩
  · rintro ⟨rfl, hlength, hcode⟩
    refine ⟨hlength ▸ Text.splitBytes_append hcode.utf8Size, ?_, hcode⟩
    have hlt := hcode.lt_pow
    rw [hlength] at hlt
    omega

/-- The character behind the code of a line. -/
def separator? (line : List Char) : Option Char := (line.drop 3).head?

/-- The text of a line, whatever its code. -/
def textOfLine (line : List Char) : String := String.ofList (ReplyLine.textBehind (line.drop 3))

/-- **A line that opens with a code is read.** -/
theorem ReplyLine.read_of_spells (h : Spells (line.take 3) code) :
    ReplyLine.read (String.ofList line) =
      .ok { code, continues := separator? line = some '-', text := textOfLine line } := by
  obtain ⟨hsplit, hread⟩ := splitBytes_code_iff.2 ⟨(List.take_append_drop 3 line).symm, h⟩
  unfold ReplyLine.read
  rw [String.toList_ofList, hsplit]
  dsimp only
  rw [hread]
  rfl

/-- The faults for which a line is refused. All of them are in the line itself or in those before
it; that there is no further line is none of them. -/
def ReplyError.refusesLine : ReplyError → Bool
  | .shortLine _ | .badCode _ | .mixedCodes .. | .tooManyLines => true
  | .noLine | .incomplete | .longLine | .timedOut | .closed => false

/-- **Every other line is refused.** -/
theorem ReplyLine.read_cases (line : List Char) :
    (∃ e, ReplyLine.read (String.ofList line) = .error e ∧ e.refusesLine = true) ∨
      ∃ code, Spells (line.take 3) code := by
  unfold ReplyLine.read
  rw [String.toList_ofList]
  cases hsplit : Text.splitBytes 3 line with
  | none => exact Or.inl ⟨_, rfl, rfl⟩
  | some found =>
    obtain ⟨head, rest⟩ := found
    cases hread : Text.readUnsigned? 65535 head with
    | none =>
      dsimp only
      rw [hread]
      exact Or.inl ⟨_, rfl, rfl⟩
    | some n =>
      obtain ⟨rfl, hcode⟩ := splitBytes_code_iff.1 ⟨hsplit, hread⟩
      refine Or.inr ⟨n, ?_⟩
      rwa [← hcode.1, List.take_left]

/-! ## Drafts -/

namespace Draft

/-- The lines of a draft so far have this code, if there are any. -/
def Agrees (d : Draft) (code : Nat) : Prop := ∀ n ∈ d.code, n = code

theorem agrees_some (code : Nat) (lines : List String) :
    ({ code := some code, lines } : Draft).Agrees code := by
  rintro _ ⟨⟩
  rfl

/-- A draft without lines agrees with every code. -/
theorem agrees_new (code : Nat) : ({} : Draft).Agrees code := by
  rintro _ ⟨⟩

theorem any_ne_eq_false_iff : d.code.any (· ≠ code) = false ↔ d.Agrees code := by
  unfold Agrees
  cases d.code <;> simp

/-- A draft takes a line with its code, if there is room. -/
theorem push_of_spells (h : Spells (line.take 3) code) (hd : d.Agrees code)
    (hroom : d.lines.length < maxReplyLines) :
    d.push (String.ofList line) =
      ({ code := some code, lines := d.lines ++ [textOfLine line] },
        .ok (decide (separator? line ≠ some '-'))) := by
  unfold push
  rw [ReplyLine.read_of_spells h]
  dsimp only
  rw [any_ne_eq_false_iff.2 hd, if_neg Bool.false_ne_true, if_neg (Nat.not_le_of_lt hroom),
    decide_not]

/-- Without room it does not. -/
theorem push_full (h : Spells (line.take 3) code) (hd : d.Agrees code)
    (hfull : maxReplyLines ≤ d.lines.length) :
    (d.push (String.ofList line)).2 = .error .tooManyLines := by
  unfold push
  rw [ReplyLine.read_of_spells h]
  dsimp only
  rw [any_ne_eq_false_iff.2 hd, if_neg Bool.false_ne_true, if_pos hfull]

/-- **Every other line is refused.** -/
theorem push_cases (d : Draft) (line : List Char) :
    (∃ e, (d.push (String.ofList line)).2 = .error e ∧ e.refusesLine = true) ∨
      ∃ code, Spells (line.take 3) code ∧ d.Agrees code ∧ d.lines.length < maxReplyLines := by
  rcases ReplyLine.read_cases line with ⟨e, hread, he⟩ | ⟨code, hcode⟩
  · refine Or.inl ⟨e, ?_, he⟩
    unfold push
    rw [hread]
  · cases hother : d.code.any (· ≠ code) with
    | false =>
      have hd := any_ne_eq_false_iff.1 hother
      rcases Nat.lt_or_ge d.lines.length maxReplyLines with hroom | hfull
      · exact Or.inr ⟨code, hcode, hd, hroom⟩
      · exact Or.inl ⟨_, push_full hcode hd hfull, rfl⟩
    | true =>
      refine Or.inl ⟨.mixedCodes (d.code.getD 0) code, ?_, rfl⟩
      unfold push
      rw [ReplyLine.read_of_spells hcode]
      dsimp only
      rw [if_pos hother]

end Draft

/-! ## Replies -/

/-- A line after which a reply goes on: a code and a hyphen. -/
structure Continues (code : Nat) (line : List Char) : Prop where
  code : Spells (line.take 3) code
  hyphen : separator? line = some '-'

/-- A line that ends a reply: a code, and no hyphen behind it. -/
structure Ends (code : Nat) (line : List Char) : Prop where
  code : Spells (line.take 3) code
  no_hyphen : separator? line ≠ some '-'

/-- Lines that make a reply: one that ends it, and those before it. -/
structure Block (code : Nat) (before : List (List Char)) (last : List Char) : Prop where
  before : ∀ line ∈ before, Continues code line
  last : Ends code last

namespace Draft

/-- **Lines after which a reply goes on** are taken, as long as there is room. -/
theorem readLines_append (before rest : List (List Char)) (hd : d.Agrees code)
    (hbefore : ∀ line ∈ before, Continues code line)
    (hroom : d.lines.length + before.length ≤ maxReplyLines) :
    ∃ d' : Draft, d'.Agrees code ∧ d'.lines = d.lines ++ before.map textOfLine ∧
      d.readLines (before ++ rest) = d'.readLines rest := by
  induction before generalizing d with
  | nil => exact ⟨d, hd, (List.append_nil _).symm, rfl⟩
  | cons line before ih =>
    obtain ⟨hline, hbefore⟩ := List.forall_mem_cons.1 hbefore
    rw [List.length_cons] at hroom
    have hpush := push_of_spells hline.code hd (by omega)
    obtain ⟨d', hd', hlines, hread⟩ := ih (agrees_some code (d.lines ++ [textOfLine line]))
      hbefore (by rw [List.length_append, List.length_singleton]; omega)
    refine ⟨d', hd', by rw [hlines, List.append_assoc]; rfl, ?_⟩
    rw [List.cons_append, readLines, hpush, hline.hyphen]
    exact hread

/-- **A reply is read off its lines.** -/
theorem readLines_block {before : List (List Char)} {last : List Char} (h : Block code before last)
    (hroom : before.length < maxReplyLines) (rest : List (List Char)) :
    ({} : Draft).readLines (before ++ last :: rest) =
      .ok { code, text := "\n".intercalate ((before ++ [last]).map textOfLine) } := by
  obtain ⟨d, hd, hlines, hread⟩ := readLines_append (d := {}) before (last :: rest)
    (agrees_new code) h.before (by simpa using Nat.le_of_lt hroom)
  rw [List.nil_append] at hlines
  have hpush := push_of_spells h.last.code hd (by rwa [hlines, List.length_map])
  rw [hread, readLines, hpush, decide_eq_true h.last.no_hyphen]
  dsimp only [finish]
  rw [hlines, List.map_append]
  rfl

/-- **What becomes of lines**: they open with the rest of a reply, or they break off within it, or
one of them is refused. -/
theorem readLines_cases (d : Draft) (lines : List (List Char))
    (hroom : d.lines.length ≤ maxReplyLines) :
    (∃ code before last behind, lines = before ++ last :: behind ∧ d.Agrees code ∧
        d.lines.length + before.length < maxReplyLines ∧ Block code before last) ∨
      (∃ code, d.Agrees code ∧ d.lines.length + lines.length ≤ maxReplyLines ∧
        ∀ line ∈ lines, Continues code line) ∨
      ∃ e, d.readLines lines = .error e ∧ e.refusesLine = true := by
  induction lines generalizing d with
  | nil =>
    refine Or.inr (Or.inl ⟨d.code.getD 0, fun n hn => ?_, hroom, by simp⟩)
    rw [Option.mem_def.1 hn, Option.getD_some]
  | cons line lines ih =>
    rcases d.push_cases line with ⟨e, hpush, he⟩ | ⟨code, hcode, hd, hfree⟩
    · refine Or.inr (Or.inr ⟨e, ?_, he⟩)
      generalize hpushed : d.push (String.ofList line) = pushed at hpush
      obtain ⟨d', out⟩ := pushed
      obtain rfl : out = .error e := hpush
      rw [readLines, hpushed]
    · by_cases hhyphen : separator? line = some '-'
      · -- the line continues the reply, and the others are read behind it
        have hline : Continues code line := ⟨hcode, hhyphen⟩
        have hread : d.readLines (line :: lines) =
            readLines { code := some code, lines := d.lines ++ [textOfLine line] } lines := by
          rw [readLines, push_of_spells hcode hd hfree, decide_eq_false (not_not_intro hhyphen)]
        rw [hread]
        have hsame : ∀ {n ls}, ({ code := some code, lines := ls } : Draft).Agrees n → n = code :=
          fun h => (h code rfl).symm
        have hlength : (d.lines ++ [textOfLine line]).length = d.lines.length + 1 := by simp
        rcases ih { code := some code, lines := d.lines ++ [textOfLine line] }
          (hlength ▸ hfree) with ⟨n, before, last, behind, rfl, hn, hlt, hblock⟩ |
            ⟨n, hn, hle, hall⟩ | hrefused
        · obtain rfl := hsame hn
          refine Or.inl ⟨n, line :: before, last, behind, rfl, hd, ?_,
            List.forall_mem_cons.2 ⟨hline, hblock.before⟩, hblock.last⟩
          rw [hlength] at hlt
          rw [List.length_cons]
          omega
        · obtain rfl := hsame hn
          refine Or.inr (Or.inl ⟨n, hd, ?_, List.forall_mem_cons.2 ⟨hline, hall⟩⟩)
          rw [hlength] at hle
          rw [List.length_cons]
          omega
        · exact Or.inr (Or.inr hrefused)
      · exact Or.inl ⟨code, [], line, lines, rfl, hd, hfree, by simp, hcode, hhyphen⟩

end Draft

/-- **One line too many is refused.** -/
theorem Draft.readLines_full {before : List (List Char)}
    (hbefore : ∀ line ∈ before, Continues code line) (hfull : before.length = maxReplyLines)
    (hline : Spells (line.take 3) code)
    (rest : List (List Char)) :
    ({} : Draft).readLines (before ++ line :: rest) = .error .tooManyLines := by
  obtain ⟨d, hd, hlines, hread⟩ := readLines_append (d := {}) before (line :: rest)
    (agrees_new code) hbefore (by simpa using Nat.le_of_eq hfull)
  rw [List.nil_append] at hlines
  have hpush := push_full hline hd (by simp [hlines, hfull])
  rw [hread, readLines]
  generalize d.push (String.ofList line) = pushed at hpush
  obtain ⟨d', out⟩ := pushed
  obtain rfl : out = .error .tooManyLines := hpush
  rfl

/-- Lines that break off within a reply. -/
def BreaksOff (lines : List (List Char)) : Prop :=
  lines.length ≤ maxReplyLines ∧ ∃ code, ∀ line ∈ lines, Continues code line

theorem Draft.readLines_breaksOff (h : BreaksOff lines) :
    ({} : Draft).readLines lines = .error .incomplete := by
  obtain ⟨hroom, code, hall⟩ := h
  obtain ⟨d, -, -, hread⟩ := readLines_append (d := {}) lines [] (agrees_new code) hall (by simpa)
  rw [← List.append_nil lines, hread]
  rfl

/-- **The grammar of replies.** A text is read as a reply exactly if its first lines are one, at
most 64 lines with one code, all but the last with a hyphen behind it. It is called incomplete
exactly if it breaks off within such lines. Every other text is refused for one of its lines. -/
theorem reply_grammar (s : String) :
    (∀ r, Reply.read s = .ok r ↔ ∃ before last behind,
      Text.lines s.toList = before ++ last :: behind ∧ before.length < maxReplyLines ∧
        Block r.code before last ∧
        r.text = "\n".intercalate ((before ++ [last]).map textOfLine)) ∧
    (Reply.read s = .error .incomplete ↔ BreaksOff (Text.lines s.toList)) ∧
    ∀ e, Reply.read s = .error e → e = .incomplete ∨ e.refusesLine = true := by
  unfold Reply.read
  generalize Text.lines s.toList = lines
  have hok : ∀ r, (∃ before last behind, lines = before ++ last :: behind ∧
      before.length < maxReplyLines ∧ Block r.code before last ∧
      r.text = "\n".intercalate ((before ++ [last]).map textOfLine)) →
      ({} : Draft).readLines lines = .ok r := by
    rintro r ⟨before, last, behind, rfl, hroom, hblock, htext⟩
    rw [Draft.readLines_block hblock hroom, ← htext]
  rcases ({} : Draft).readLines_cases lines (Nat.zero_le _) with
    ⟨code, before, last, behind, hlines, -, hroom, hblock⟩ | ⟨code, -, hroom, hall⟩ | ⟨e, hread, he⟩
  · have hroom' : before.length < maxReplyLines := by simpa using hroom
    have hread := hok { code, text := _ } ⟨before, last, behind, hlines, hroom', hblock, rfl⟩
    refine ⟨fun r => ⟨fun hr => ?_, hok r⟩, ⟨fun hr => ?_, Draft.readLines_breaksOff⟩,
      fun e hr => ?_⟩
    · cases hread.symm.trans hr
      exact ⟨before, last, behind, hlines, hroom', hblock, rfl⟩
    · cases hread.symm.trans hr
    · cases hread.symm.trans hr
  · have hoff : BreaksOff lines := ⟨by simpa using hroom, code, hall⟩
    have hread := Draft.readLines_breaksOff hoff
    refine ⟨fun r => ⟨fun hr => ?_, hok r⟩, ⟨fun _ => hoff, fun _ => hread⟩, fun e hr => ?_⟩
    · cases hread.symm.trans hr
    · cases hread.symm.trans hr
      exact Or.inl rfl
  · refine ⟨fun r => ⟨fun hr => ?_, hok r⟩, ⟨fun hr => ?_, Draft.readLines_breaksOff⟩,
      fun e' hr => ?_⟩
    · cases hread.symm.trans hr
    · cases hread.symm.trans hr
      cases he
    · cases hread.symm.trans hr
      exact Or.inr he

/-- **A code with a sign is read**, though it has no three digits. -/
theorem signed_code_read :
    Reply.read "+25 ok" = .ok { code := 25, text := "ok" } ∧
      ∀ line ∈ Text.lines "+25 ok".toList, ∀ code, ¬ Text.Decimal (line.take 3) code := by
  refine ⟨rfl, ?_⟩
  have hlines : Text.lines "+25 ok".toList = ["+25 ok".toList] := by decide +kernel
  rw [hlines, List.forall_mem_singleton]
  exact Text.not_decimal_plus ['2', '5']

end OpenRelay
