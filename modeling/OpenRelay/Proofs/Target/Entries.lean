import OpenRelay.Proofs.Target.Address
import OpenRelay.Proofs.Text.Items
import OpenRelay.Target.Targets

/-!
# Address lists written and read

* `Targets.EntryLine`: the lines of an address list, with the address they hold, if any.
* `Targets.readEntry_eq_ok_iff`: these are the lines that can be read.
* `Targets.list_read`: a text that lists addresses is read as these addresses, and any other text is
  refused for its first stray line, or because it lists none.
-/

namespace OpenRelay

open Text (AllBlank Padded FirstStray Lists)

variable {line text comment cs : List Char} {item : Option Address} {x : Address} {number : Nat}

namespace Targets

/-! ## Lines -/

/-- What may stand at the end of a line: nothing, or a number sign and any text. -/
def Comment (cs : List Char) : Prop := cs = [] ∨ ∃ text, cs = '#' :: text

/-- A line of an address list: an address with blanks around it, or only blanks, and perhaps a
comment behind them. -/
inductive EntryLine : List Char → Option Address → Prop where
  | blank {blank comment : List Char} (hblank : AllBlank blank) (hcomment : Comment comment) :
      EntryLine (blank ++ comment) none
  | address {x : Address} {text comment : List Char} (htext : Padded x.toString.toList text)
      (hcomment : Comment comment) : EntryLine (text ++ comment) (some x)

/-- Reads a line of an address list, or gives what stands there in place of an address. -/
def readEntry (line : List Char) : Except String (Option Address) :=
  match entry line with
  | [] => .ok none
  | cs =>
    match Address.read? cs with
    | some x => .ok (some x)
    | none => .error (String.ofList cs)

/-- A line without its comment. -/
def uncommented (line : List Char) : List Char := line.takeWhile (· ≠ '#')

theorem uncommented_append (htext : '#' ∉ text) (hcomment : Comment comment) :
    uncommented (text ++ comment) = text := by
  have hall : ∀ c ∈ text, decide (c ≠ '#') = true := fun c hc =>
    decide_eq_true fun heq => htext (heq ▸ hc)
  have hstop : comment.takeWhile (· ≠ '#') = [] := by
    rcases hcomment with rfl | ⟨rest, rfl⟩ <;> rfl
  rw [uncommented, List.takeWhile_append_of_pos hall, hstop, List.append_nil]

/-- What is left out is a comment. -/
theorem exists_comment (line : List Char) :
    ∃ comment, Comment comment ∧ line = uncommented line ++ comment := by
  refine ⟨line.dropWhile (· ≠ '#'), ?_, List.takeWhile_append_dropWhile.symm⟩
  cases hrest : line.dropWhile (· ≠ '#') with
  | nil => exact .inl rfl
  | cons c rest =>
    have hhead := List.head?_dropWhile_not (· ≠ '#') line
    rw [hrest] at hhead
    have hc : c = '#' := by simpa using hhead
    exact .inr ⟨rest, by rw [hc]⟩

theorem hash_not_mem_of_padded (h : Padded x.toString.toList cs) : '#' ∉ cs := by
  rw [h.mem_iff (by decide)]
  exact Address.not_mem_toString (by decide) (by decide)

theorem entryLine_none_iff : EntryLine line none ↔ entry line = [] := by
  rw [entry, Text.trimmed_eq_nil_iff]
  constructor
  · rintro ⟨hblank, hcomment⟩
    rwa [← uncommented, uncommented_append (hblank.not_mem (by decide)) hcomment]
  · intro h
    obtain ⟨comment, hcomment, hline⟩ := exists_comment line
    rw [hline]
    exact .blank h hcomment

theorem entryLine_some_iff : EntryLine line (some x) ↔ entry line = x.toString.toList := by
  rw [entry, Address.trimmed_eq_iff]
  constructor
  · rintro (_ | ⟨htext, hcomment⟩)
    rwa [← uncommented, uncommented_append (hash_not_mem_of_padded htext) hcomment]
  · intro h
    obtain ⟨comment, hcomment, hline⟩ := exists_comment line
    rw [hline]
    exact .address h hcomment

/-- **The lines of an address list are those that can be read.** -/
theorem readEntry_eq_ok_iff : readEntry line = .ok item ↔ EntryLine line item := by
  unfold readEntry
  cases item with
  | none =>
    rw [entryLine_none_iff]
    split
    · simp [*]
    · rename_i hne
      split <;> simpa using hne
  | some x =>
    rw [entryLine_some_iff, ← Address.read?_eq_some_iff]
    split
    · rename_i hnil
      simp [hnil, Address.read?_eq_some_iff, x.toList_ne_nil.symm]
    · split <;> simp [*]

/-- A line that cannot be read holds something else than an address. -/
theorem readEntry_eq_error_iff {found : String} : readEntry line = .error found ↔
    entry line = found.toList ∧ found ≠ "" ∧ ∀ x : Address, found ≠ x.toString := by
  have hfound : readEntry line = .error found ↔
      entry line = found.toList ∧ ∀ item, ¬ readEntry line = .ok item := by
    unfold readEntry
    split
    · simp
    · rename_i hne
      cases hread : Address.read? (entry line) with
      | some x => simp
      | none => simp [← String.toList_inj, eq_comm]
  rw [hfound]
  refine and_congr_right fun hentry => ?_
  rw [Option.forall]
  simp only [readEntry_eq_ok_iff, entryLine_none_iff, entryLine_some_iff, hentry,
    String.toList_inj, String.toList_eq_nil_iff, ne_eq]

/-- A carriage return at the end of a line is blank, or part of a comment. -/
theorem entry_concat_return (line : List Char) : entry (line ++ ['\r']) = entry line := by
  obtain ⟨comment, hcomment, hline⟩ := exists_comment line
  have htext : '#' ∉ uncommented line := fun hc => by simpa using List.mem_takeWhile_imp hc
  show Text.trimmed (uncommented (line ++ ['\r'])) = Text.trimmed (uncommented line)
  generalize uncommented line = text at hline htext
  rcases hcomment with rfl | ⟨rest, rfl⟩
  · have hreturn : uncommented ((text ++ ['\r']) ++ []) = text ++ ['\r'] :=
      uncommented_append (by simpa using htext) (.inl rfl)
    rw [List.append_nil] at hline hreturn
    rw [hline, hreturn]
    exact Text.trimmed_append_right (by decide)
  · rw [hline, List.append_assoc, List.cons_append, uncommented_append htext (.inr ⟨_, rfl⟩)]

theorem lenient_readEntry : Text.Lenient readEntry where
  empty := rfl
  concat_return line := by rw [readEntry, readEntry, entry_concat_return]

/-! ## Lists -/

/-- Lists are read line by line. -/
theorem readEntries_eq (number : Nat) (lines : List (List Char)) :
    readEntries number lines = (Text.readItems readEntry number lines).mapError fun (n, found) =>
      .badEntry n found := by
  induction lines generalizing number with
  | nil => rfl
  | cons line rest ih =>
    rw [readEntries, Text.readItems, readEntry, ih]
    cases entry line with
    | nil => cases Text.readItems readEntry (number + 1) rest <;> rfl
    | cons c cs =>
      cases hread : Address.read? (c :: cs) with
      | none =>
        simp only [hread]
        rfl
      | some x =>
        simp only [hread]
        cases Text.readItems readEntry (number + 1) rest <;> rfl

theorem readList_eq (s : String) : readList s =
    (Text.readText readEntry .badEntry .emptyList s.toList).map .list := by
  unfold readList
  rw [readEntries_eq, Text.readText]
  cases Text.readItems readEntry 1 (Text.lines s.toList) with
  | error fault => rfl
  | ok xs => cases xs <;> rfl

/-- Exactly the texts that list addresses are read. -/
theorem readList_eq_ok_iff {s : String} {t : Targets} : readList s = .ok t ↔
    ∃ xs, t = .list xs ∧ xs ≠ [] ∧ Lists EntryLine s.toList xs := by
  have hlines : ∀ line item, readEntry line = .ok item ↔ EntryLine line item :=
    fun _ _ => readEntry_eq_ok_iff
  rw [readList_eq, Text.map_eq_ok_iff]
  simp only [lenient_readEntry.readText_eq_ok_iff hlines]
  exact ⟨fun ⟨xs, hxs, ht⟩ => ⟨xs, ht.symm, hxs⟩, fun ⟨xs, ht, hxs⟩ => ⟨xs, hxs, ht.symm⟩⟩

/-- **What is read of an address list.** Exactly the texts that list addresses are read, as these
addresses. Any other is refused: for its first line that holds something else, whatever follows, or
because there is nothing on any line. -/
theorem list_read (s : String) :
    (∀ t, readList s = .ok t ↔
      ∃ xs, t = .list xs ∧ xs ≠ [] ∧ Lists EntryLine s.toList xs) ∧
    (∀ number found, readList s = .error (.badEntry number found) ↔
      ∃ line, FirstStray (fun line => ∃ item, EntryLine line item) s.toList number line ∧
        entry line = found.toList ∧ found ≠ "" ∧ ∀ x : Address, found ≠ x.toString) ∧
    (readList s = .error .emptyList ↔ ∀ line ∈ s.toList.splitOn '\n', EntryLine line none) := by
  have hlines : ∀ line item, readEntry line = .ok item ↔ EntryLine line item :=
    fun _ _ => readEntry_eq_ok_iff
  have hstray (number : Nat) (found : String) : TargetError.badEntry number found ≠ .emptyList :=
    nofun
  refine ⟨fun t => readList_eq_ok_iff, fun number found => ?_, ?_⟩
  · rw [readList_eq, Text.map_eq_error_iff, lenient_readEntry.readText_eq_stray_iff hlines
      (fun _ _ _ _ => TargetError.badEntry.inj) hstray]
    simp only [readEntry_eq_error_iff]
  · rw [readList_eq, Text.map_eq_error_iff, lenient_readEntry.readText_eq_empty_iff hlines hstray]

/-- Either kind of ending, blanks, comments, and an address that comes twice; and lists with a line
that holds no address, and with none that holds one. -/
theorem list_read_lab :
    let s := "# lab\r\n 192.0.2.1\t# mx\n\n192.0.2.1"
    let xs : List Address := [⟨192, 0, 2, 1⟩, ⟨192, 0, 2, 1⟩]
    readList s = .ok (.list xs) ∧ Lists EntryLine s.toList xs ∧
      (∃ line, FirstStray (fun line => ∃ item, EntryLine line item) "\nmx # 1\n0".toList 2 line ∧
        entry line = "mx".toList) ∧
      ∀ line ∈ "# lab\n".toList.splitOn '\n', EntryLine line none := by
  intro s xs
  have hs : readList s = .ok (.list xs) := by decide +kernel
  obtain ⟨_, ⟨⟩, -, hlists⟩ := ((list_read s).1 _).1 hs
  obtain ⟨line, hfirst, hentry, -⟩ := ((list_read "\nmx # 1\n0").2.1 2 "mx").1 (by decide +kernel)
  exact ⟨hs, hlists, ⟨line, hfirst, hentry⟩, (list_read _).2.2.1 (by decide +kernel)⟩

end Targets

end OpenRelay
