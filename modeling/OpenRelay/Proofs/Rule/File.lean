import OpenRelay.Proofs.Rule.OneLine
import OpenRelay.Proofs.Text.Blank
import OpenRelay.Proofs.Text.Items

/-!
# Rule files written and read

* `Rule.Legible`: the rules that can be read from their text; `Rule.read_eq_ok_iff` says from which
  texts.
* `Rules.FileLine`: the lines of a rule file, with the rule they hold, if any.
* `Rules.file_read`: a text that lists rules is read as these rules, and any other text is refused
  for its first stray line, or because it lists none.
-/

namespace OpenRelay

open Text (AllBlank Padded FirstStray Lists)

variable {r : Rule} {rs : Rules} {line text cs : List Char} {item : Option Rule} {number : Nat}
  {e : RuleError}

namespace Rule

/-! ## Rules -/

/-- A rule that is fit for a text: it can be sent, and its fields can be told from the bars between
them and the blanks around them. -/
structure Legible (r : Rule) : Prop where
  sendable : r.fault? = none
  trimmed : ∀ f, Text.trimmed (r.get f).toList = (r.get f).toList
  bar : ∀ f, '|' ∉ (r.get f).toList

/-- A text in which a rule is written: its fields, with bars between them and blanks around them. -/
def Written (r : Rule) (cs : List Char) : Prop :=
  ∃ helo mailFrom rcptTo, Padded r.helo.toList helo ∧ Padded r.mailFrom.toList mailFrom ∧
    Padded r.rcptTo.toList rcptTo ∧ cs = helo ++ '|' :: (mailFrom ++ '|' :: rcptTo)

/-- The text of a rule, without any blanks around its fields. -/
theorem written_fields (r : Rule) :
    r.Written (r.helo.toList ++ '|' :: (r.mailFrom.toList ++ '|' :: r.rcptTo.toList)) :=
  ⟨_, _, _, .refl _, .refl _, .refl _, rfl⟩

/-- The fields that are found in such a text. -/
theorem Legible.fields_eq (hr : r.Legible) (h : r.Written cs) :
    ((Text.pieces '|' cs).map fun p => String.ofList (Text.trimmed p)) =
      [r.helo, r.mailFrom, r.rcptTo] := by
  obtain ⟨helo, mailFrom, rcptTo, hhelo, hmailFrom, hrcptTo, rfl⟩ := h
  have hbar (f : Field) {text : List Char} (h : Padded (r.get f).toList text) : '|' ∉ text := by
    rw [h.mem_iff (by decide)]
    exact hr.bar f
  have hfield (f : Field) {text : List Char} (h : Padded (r.get f).toList text) :
      String.ofList (Text.trimmed text) = r.get f := by
    rw [h.trimmed_eq, hr.trimmed f, String.ofList_toList]
  rw [Text.pieces_append (hbar .helo hhelo), Text.pieces_append (hbar .mailFrom hmailFrom),
    Text.pieces_eq_splitOn, List.splitOn_eq_singleton (hbar .rcptTo hrcptTo), List.map_cons,
    List.map_cons, List.map_singleton, hfield .helo hhelo, hfield .mailFrom hmailFrom,
    hfield .rcptTo hrcptTo]
  rfl

/-- **A rule is read from the texts in which it is written.** -/
theorem read_eq_ok_iff : Rule.read cs = .ok r ↔ r.Legible ∧ r.Written cs := by
  constructor
  · intro h
    unfold Rule.read at h
    split at h
    · rename_i helo mailFrom rcptTo hfields
      simp only [List.map_eq_cons_iff, List.map_eq_nil_iff] at hfields
      obtain ⟨a, _, hpieces, rfl, b, _, rfl, rfl, c, _, rfl, rfl, rfl⟩ := hfields
      dsimp only at h
      split at h
      · cases h
      · rename_i hfault
        cases h
        -- the fields are the three pieces without the blanks around them
        obtain ⟨-, hplain, rfl⟩ := Text.pieces_eq_iff.1 hpieces
        have hbar {p : List Char} (hp : p ∈ [a, b, c]) : '|' ∉ Text.trimmed p := by
          rw [← (Text.padded_trimmed p).mem_iff (by decide)]
          exact hplain p hp
        refine ⟨⟨hfault, fun f => ?_, fun f => ?_⟩, a, b, c, ?_, ?_, ?_, by simp⟩
        · cases f <;> simp only [get, String.toList_ofList, Text.trimmed_trimmed]
        · cases f <;> simp only [get, String.toList_ofList] <;> exact hbar (by simp)
        all_goals
          rw [String.toList_ofList]
          exact Text.padded_trimmed _
    · cases h
  · rintro ⟨hr, hcs⟩
    unfold Rule.read
    rw [hr.fields_eq hcs]
    dsimp only
    rw [hr.sendable]

/-- Blanks around the text do not matter. -/
theorem read_trimmed (cs : List Char) : Rule.read (Text.trimmed cs) = Rule.read cs := by
  have hfields := congrArg (List.map String.ofList)
    (Text.map_trimmed_pieces (by decide : Text.isBlank '|' = false) cs)
  simp only [List.map_map, Function.comp_def] at hfields
  unfold Rule.read
  rw [hfields]

/-- Such a text begins with the name that is announced. -/
theorem Legible.head?_trimmed (hr : r.Legible) (h : r.Written cs) :
    Text.trimmed cs ≠ [] ∧ (Text.trimmed cs).head? = r.helo.toList.head? := by
  obtain ⟨helo, mailFrom, rcptTo, hpadded, -, -, rfl⟩ := h
  have hfirst : helo.find? (! Text.isBlank ·) = r.helo.toList.head? := by
    rw [← Text.head?_trimmed, hpadded.trimmed_eq]
    exact congrArg List.head? (hr.trimmed .helo)
  -- the first character stands before the first bar, as a name is announced
  have hsome : r.helo.toList.head?.isSome = true := by
    rw [List.isSome_head?]
    intro hnil
    have hblank := (fault?_eq_none_iff.1 hr.sendable).2.1
    rw [isBlank, hnil] at hblank
    cases hblank
  have hhead : (Text.trimmed (helo ++ '|' :: (mailFrom ++ '|' :: rcptTo))).head? =
      r.helo.toList.head? := by
    rw [Text.head?_trimmed, List.find?_append, hfirst, Option.or_of_isSome hsome]
  exact ⟨List.isSome_head?.1 (hhead ▸ hsome), hhead⟩

/-- A rule that can be written on a line of a rule file. It does not look like a comment. -/
structure Listable (r : Rule) : Prop extends r.Legible where
  hash : r.helo.toList.head? ≠ some '#'

end Rule

namespace Rules

/-! ## Lines -/

/-- A line of a rule file: a rule, or only blanks, or a comment. -/
inductive FileLine : List Char → Option Rule → Prop where
  | blank {line : List Char} (hline : AllBlank line) : FileLine line none
  | comment {blank text : List Char} (hblank : AllBlank blank) :
      FileLine (blank ++ '#' :: text) none
  | rule {r : Rule} {line : List Char} (hr : r.Listable) (hline : r.Written line) :
      FileLine line (some r)

/-- Reads a line of a rule file. -/
def readFileLine (line : List Char) : Except RuleError (Option Rule) :=
  if Text.trimmed line = [] ∨ (Text.trimmed line).head? = some '#' then .ok none
  else (Rule.read line).map some

theorem fileLine_none_iff : FileLine line none ↔
    Text.trimmed line = [] ∨ (Text.trimmed line).head? = some '#' := by
  constructor
  · rintro (hline | hblank)
    · exact .inl (Text.trimmed_eq_nil_iff.2 hline)
    · rename_i blank text
      have hnone : blank.find? (! Text.isBlank ·) = none := by
        rw [List.find?_eq_none]
        intro c hc
        simp [hblank c hc]
      rw [Text.head?_trimmed, List.find?_append, hnone]
      exact .inr rfl
  · rintro (hnil | hhash)
    · exact .blank (Text.trimmed_eq_nil_iff.1 hnil)
    · obtain ⟨text, htext⟩ := List.head?_eq_some_iff.1 hhash
      obtain ⟨before, after, hbefore, -, hline⟩ := Text.padded_trimmed line
      rw [hline, htext, List.append_assoc, List.cons_append]
      exact .comment hbefore

theorem fileLine_some_iff : FileLine line (some r) ↔ Rule.read line = .ok r ∧
    ¬ (Text.trimmed line = [] ∨ (Text.trimmed line).head? = some '#') := by
  rw [Rule.read_eq_ok_iff, not_or]
  constructor
  · rintro (_ | _ | ⟨hr, hline⟩)
    obtain ⟨hne, hhead⟩ := hr.head?_trimmed hline
    exact ⟨⟨hr.toLegible, hline⟩, hne, hhead ▸ hr.hash⟩
  · rintro ⟨⟨hr, hline⟩, -, hhash⟩
    exact .rule ⟨hr, (hr.head?_trimmed hline).2 ▸ hhash⟩ hline

/-- **The lines of a rule file are those that can be read.** -/
theorem readFileLine_eq_ok_iff : readFileLine line = .ok item ↔ FileLine line item := by
  unfold readFileLine
  cases item with
  | none =>
    rw [fileLine_none_iff]
    split <;> simp [Text.map_eq_ok_iff, *]
  | some r =>
    rw [fileLine_some_iff]
    split <;> simp [Text.map_eq_ok_iff, *]

/-- A line that cannot be read holds something else than a rule, and is neither blank nor a
comment. -/
theorem readFileLine_eq_error_iff : readFileLine line = .error e ↔
    Rule.read line = .error e ∧ ¬ FileLine line none := by
  rw [fileLine_none_iff]
  unfold readFileLine
  split <;> simp [Text.map_eq_error_iff, *]

theorem lenient_readFileLine : Text.Lenient readFileLine where
  empty := rfl
  concat_return line := by
    have htrimmed : Text.trimmed (line ++ ['\r']) = Text.trimmed line :=
      Text.trimmed_append_right (by decide)
    rw [readFileLine, readFileLine, htrimmed, ← Rule.read_trimmed, htrimmed, Rule.read_trimmed]

/-! ## Files -/

/-- Files are read line by line. -/
theorem readLines_eq (number : Nat) (lines : List (List Char)) :
    readLines number lines = (Text.readItems readFileLine number lines).mapError fun (n, e) =>
      .onLine n e := by
  induction lines generalizing number with
  | nil => rfl
  | cons line rest ih =>
    rw [readLines, Text.readItems, readFileLine, ih]
    dsimp only
    -- the rule is read from the trimmed line, which comes to the same
    rw [Rule.read_trimmed]
    split
    · cases Text.readItems readFileLine (number + 1) rest <;> rfl
    · cases Rule.read line with
      | error e => rfl
      | ok r => cases Text.readItems readFileLine (number + 1) rest <;> rfl

theorem read_eq (s : String) :
    Rules.read s = Text.readText readFileLine .onLine .noRules s.toList := by
  unfold Rules.read
  rw [readLines_eq, Text.readText]
  cases Text.readItems readFileLine 1 (Text.lines s.toList) with
  | error fault => rfl
  | ok rs => cases rs <;> rfl

/-- A rule has a line of its own. -/
theorem exists_fileLine (hr : r.Listable) : ∃ line, '\n' ∉ line ∧ FileLine line (some r) := by
  refine ⟨_, ?_, .rule hr r.written_fields⟩
  obtain ⟨hhelo, hmailFrom, hrcptTo⟩ := Rule.oneLine_of_fault? hr.sendable
  simp [hhelo.feed_not_mem, hmailFrom.feed_not_mem, hrcptTo.feed_not_mem]

/-- **What is read of a rule file.** Exactly the texts that list rules are read, as these rules, and
every list of rules that can be written on lines can be read. Any other text is refused: for its
first line that is neither blank nor a comment nor a rule, or because there is no rule on any
line. -/
theorem file_read :
    (∀ s rs, Rules.read s = .ok rs ↔ rs ≠ [] ∧ Lists FileLine s.toList rs) ∧
    (∀ rs, (∃ s, Rules.read s = .ok rs) ↔ rs ≠ [] ∧ ∀ r ∈ rs, r.Listable) ∧
    (∀ s number e, Rules.read s = .error (.onLine number e) ↔
      ∃ line, FirstStray (fun line => ∃ item, FileLine line item) s.toList number line ∧
        Rule.read line = .error e) ∧
    (∀ s, Rules.read s = .error .noRules ↔ ∀ line ∈ s.toList.splitOn '\n', FileLine line none) := by
  have hlines : ∀ line item, readFileLine line = .ok item ↔ FileLine line item :=
    fun _ _ => readFileLine_eq_ok_iff
  have hstray (number : Nat) (e : RuleError) : RuleError.onLine number e ≠ .noRules := nofun
  have hread (s : String) (rs : Rules) :
      Rules.read s = .ok rs ↔ rs ≠ [] ∧ Lists FileLine s.toList rs := by
    rw [read_eq, lenient_readFileLine.readText_eq_ok_iff hlines]
  refine ⟨hread, fun rs => ?_, fun s number e => ?_, fun s => ?_⟩
  · constructor
    · rintro ⟨s, hs⟩
      obtain ⟨hne, hlists⟩ := (hread s rs).1 hs
      refine ⟨hne, hlists.forall_mem fun line r hline => ?_⟩
      cases hline with
      | rule hr _ => exact hr
    · rintro ⟨hne, hrs⟩
      obtain ⟨cs, hcs⟩ := Text.exists_lists fun r hr => exists_fileLine (hrs r hr)
      exact ⟨String.ofList cs, (hread _ _).2 ⟨hne, by rwa [String.toList_ofList]⟩⟩
  · rw [read_eq, lenient_readFileLine.readText_eq_stray_iff hlines
      (fun _ _ _ _ => RuleError.onLine.inj) hstray]
    refine exists_congr fun line => and_congr_right fun hline => ?_
    rw [readFileLine_eq_error_iff, and_iff_left fun hnone => hline.not_readable ⟨none, hnone⟩]
  · rw [read_eq, lenient_readFileLine.readText_eq_empty_iff hlines hstray]

/-- Blanks around fields, a sender that is left out, and a number sign that opens no comment; and
files with a field too few, and with no rule. -/
theorem file_read_lab :
    let s := "# lab\r\n\n a.test | | #b@c.test \r\n"
    let rs : Rules := [⟨"a.test", "", "#b@c.test"⟩]
    Rules.read s = .ok rs ∧ Lists FileLine s.toList rs ∧ (∀ r ∈ rs, r.Listable) ∧
      (∃ line, FirstStray (fun line => ∃ item, FileLine line item) "#\na|b\n".toList 2 line ∧
        Rule.read line = .error (.fieldCount 2)) ∧
      ∀ line ∈ "# lab\n".toList.splitOn '\n', FileLine line none := by
  intro s rs
  obtain ⟨hread, himage, hstray, hempty⟩ := file_read
  have hs : Rules.read s = .ok rs := by decide +kernel
  exact ⟨hs, ((hread s rs).1 hs).2, ((himage rs).1 ⟨s, hs⟩).2,
    (hstray _ 2 (.fieldCount 2)).1 (by decide +kernel), (hempty _).1 (by decide +kernel)⟩

end Rules

end OpenRelay
