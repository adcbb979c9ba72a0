import Mathlib.Logic.Function.Basic
import OpenRelay.Proofs.Text.Lines

/-!
# Texts that list items

A list of items is written one item a line, and there may be lines that hold none. It is read line
by line, up to the first line that cannot be read.

* `readItems`: reads some lines, and counts them.
* `Lists`: a text that lists items, with either ending behind each line.
* `FirstStray`: the first line of a text that cannot be read, and its number.
* `Lenient.readItems_eq_ok_iff`, `Lenient.readItems_eq_error_iff`: reading finds the items that a
  text lists, or else its first stray line.
* `readText`: reads a text that must list at least one item.
-/

namespace OpenRelay.Text

variable {α ε ε' : Type} {read : List Char → Except ε (Option α)} {holds : List Char → Option α → Prop}
  {cs line : List Char} {item : Option α} {items : List α} {number m : Nat} {e : ε}

/-- Reads lines, each of which holds one item or none. The first that cannot be read is reported
with its number; `number` is that of the first line. -/
def readItems (read : List Char → Except ε (Option α)) (number : Nat) :
    List (List Char) → Except (Nat × ε) (List α)
  | [] => .ok []
  | line :: rest =>
    match read line with
    | .ok item => (readItems read (number + 1) rest).map (item.toList ++ ·)
    | .error e => .error (number, e)

/-- Whether a reader of lines finds nothing in an empty line, and does not mind a carriage return
at the end of any other. -/
structure Lenient (read : List Char → Except ε (Option α)) : Prop where
  empty : read [] = .ok none
  concat_return : ∀ line, read (line ++ ['\r']) = read line

/-- A text that lists items: lines of which each holds one item or none, and ends with a line feed,
or with a carriage return and a line feed. The last line may lack its ending. -/
inductive Lists (holds : List Char → Option α → Prop) : List Char → List α → Prop where
  | nil : Lists holds [] []
  | last {line : List Char} {item : Option α} (hline : '\n' ∉ line) (hitem : holds line item) :
      Lists holds line item.toList
  | next {line ending rest : List Char} {item : Option α} {items : List α} (hline : '\n' ∉ line)
      (hitem : holds line item) (hending : ending = ['\n'] ∨ ending = ['\r', '\n'])
      (hrest : Lists holds rest items) : Lists holds (line ++ ending ++ rest) (item.toList ++ items)

/-- The first line of a text that is not readable, and its number, counted from one. Lines are what
stands between line feeds. -/
def FirstStray (readable : List Char → Prop) (cs : List Char) (number : Nat) (line : List Char) :
    Prop :=
  ∃ before after, cs.splitOn '\n' = before ++ line :: after ∧ number = before.length + 1 ∧
    ¬ readable line ∧ ∀ earlier ∈ before, readable earlier

/-- What holds of the item of each line holds of all items. -/
theorem Lists.forall_mem {P : α → Prop} (h : Lists holds cs items)
    (hline : ∀ line item, holds line (some item) → P item) : ∀ item ∈ items, P item := by
  have key {line : List Char} {item : Option α} (hitem : holds line item) :
      ∀ x ∈ item.toList, P x := by
    intro x hx
    rw [Option.mem_toList] at hx
    exact hline line x (hx ▸ hitem)
  induction h with
  | nil => nofun
  | last _ hitem => exact key hitem
  | next _ hitem _ _ ih => exact List.forall_mem_append.2 ⟨key hitem, ih⟩

/-- Items can be listed if each of them has a line. -/
theorem exists_lists (h : ∀ item ∈ items, ∃ line, '\n' ∉ line ∧ holds line (some item)) :
    ∃ cs, Lists holds cs items := by
  induction items with
  | nil => exact ⟨[], .nil⟩
  | cons item items ih =>
    obtain ⟨⟨line, hline, hitem⟩, hitems⟩ := List.forall_mem_cons.1 h
    obtain ⟨rest, hrest⟩ := ih hitems
    exact ⟨line ++ ['\n'] ++ rest, .next hline hitem (.inl rfl) hrest⟩

theorem FirstStray.not_readable {readable : List Char → Prop}
    (h : FirstStray readable cs number line) : ¬ readable line := by
  obtain ⟨_, _, -, -, hline, -⟩ := h
  exact hline

/-! ## Reading lines -/

theorem map_eq_ok_iff {β : Type} {f : α → β} {result : Except ε α} {b : β} :
    result.map f = .ok b ↔ ∃ a, result = .ok a ∧ f a = b := by
  cases result <;> simp [Except.map]

theorem map_eq_error_iff {β : Type} {f : α → β} {result : Except ε α} :
    result.map f = .error e ↔ result = .error e := by
  cases result <;> simp [Except.map]

/-- A line behind which others are read. -/
theorem readItems_cons_eq_ok_iff {lines : List (List Char)} :
    readItems read number (line :: lines) = .ok items ↔ ∃ item more, read line = .ok item ∧
      readItems read (number + 1) lines = .ok more ∧ items = item.toList ++ more := by
  rw [readItems]
  cases read line with
  | error e => simp
  | ok item =>
    rw [map_eq_ok_iff]
    simp [eq_comm]

/-- No item is found if no line holds any. -/
theorem readItems_eq_ok_nil_iff {lines : List (List Char)} :
    readItems read number lines = .ok [] ↔ ∀ line ∈ lines, read line = .ok none := by
  induction lines generalizing number with
  | nil => simp [readItems]
  | cons line lines ih =>
    rw [readItems_cons_eq_ok_iff, List.forall_mem_cons, ← ih]
    constructor
    · rintro ⟨item, more, hread, hmore, hitems⟩
      obtain ⟨hitem, rfl⟩ := List.append_eq_nil_iff.1 hitems.symm
      exact ⟨by rwa [Option.toList_eq_nil_iff.1 hitem] at hread, hmore⟩
    · rintro ⟨hread, hmore⟩
      exact ⟨none, [], hread, hmore, rfl⟩

/-- **The first line that cannot be read is reported**, whatever follows it. -/
theorem readItems_eq_error_iff_split {lines : List (List Char)} :
    readItems read number lines = .error (m, e) ↔ ∃ line before after,
      lines = before ++ line :: after ∧ m = number + before.length ∧ read line = .error e ∧
        ∀ earlier ∈ before, ∃ item, read earlier = .ok item := by
  induction lines generalizing number with
  | nil => simp [readItems]
  | cons first lines ih =>
    rw [readItems]
    cases hfirst : read first with
    | error fault =>
      constructor
      · rintro ⟨⟩
        exact ⟨first, [], lines, rfl, rfl, hfirst, nofun⟩
      · rintro ⟨line, before, after, hlines, rfl, hread, hbefore⟩
        cases before with
        | nil =>
          obtain ⟨rfl, rfl⟩ := List.cons_eq_cons.1 hlines
          rw [hfirst] at hread
          cases hread
          rfl
        | cons earlier before =>
          obtain ⟨rfl, -⟩ := List.cons_eq_cons.1 hlines
          obtain ⟨item, hitem⟩ := hbefore first List.mem_cons_self
          rw [hfirst] at hitem
          cases hitem
    | ok item =>
      rw [map_eq_error_iff, ih]
      constructor
      · rintro ⟨line, before, after, rfl, rfl, hread, hbefore⟩
        refine ⟨line, first :: before, after, rfl, ?_, hread, ?_⟩
        · rw [List.length_cons]
          omega
        · exact List.forall_mem_cons.2 ⟨⟨item, hfirst⟩, hbefore⟩
      · rintro ⟨line, before, after, hlines, rfl, hread, hbefore⟩
        cases before with
        | nil =>
          obtain ⟨rfl, -⟩ := List.cons_eq_cons.1 hlines
          rw [hfirst] at hread
          cases hread
        | cons earlier before =>
          obtain ⟨rfl, rfl⟩ := List.cons_eq_cons.1 hlines
          refine ⟨line, before, after, rfl, ?_, hread, (List.forall_mem_cons.1 hbefore).2⟩
          rw [List.length_cons]
          omega

/-! ## Reading texts -/

/-- Whatever holds of a line without a line feed, and of a text with another line in front, holds of
every text. -/
theorem line_induction {motive : List Char → Prop} (nil : motive [])
    (last : ∀ line, line ≠ [] → '\n' ∉ line → motive line)
    (next : ∀ line rest, '\n' ∉ line → motive rest → motive (line ++ '\n' :: rest))
    (cs : List Char) : motive cs := by
  induction hlength : cs.length using Nat.strongRecOn generalizing cs with
  | ind n ih =>
    by_cases hfeed : '\n' ∈ cs
    · obtain ⟨line, rest, rfl, hline⟩ := List.eq_append_cons_of_mem hfeed
      refine next line rest hline (ih rest.length ?_ rest rfl)
      rw [← hlength, List.length_append, List.length_cons]
      omega
    · by_cases hnil : cs = []
      · exact hnil ▸ nil
      · exact last cs hnil hfeed

namespace Lenient

theorem read_dropReturn (h : Lenient read) (line : List Char) :
    read (dropReturn line) = read line := by
  rcases List.eq_nil_or_concat line with rfl | ⟨front, c, hline⟩
  · rfl
  · rw [hline, List.concat_eq_append]
    by_cases hc : c = '\r'
    · rw [hc, dropReturn_concat, h.concat_return]
    · rw [dropReturn_of_ne hc]

/-- What is read does not depend on the endings of the lines. -/
theorem readItems_lines (h : Lenient read) (cs : List Char) (number : Nat) :
    readItems read number (lines cs) = readItems read number (cs.splitOn '\n') := by
  have key (ps : List (List Char)) (number : Nat) :
      readItems read number (linesOfPieces ps) = readItems read number ps := by
    induction ps generalizing number with
    | nil => rfl
    | cons p ps ih =>
      by_cases hnil : ps = []
      · rw [hnil, linesOfPieces]
        split
        · rename_i hp
          rw [hp, readItems, readItems, h.empty]
          rfl
        · rfl
      · rw [linesOfPieces.eq_3 _ _ hnil, readItems, readItems, h.read_dropReturn, ih]
  rw [lines, pieces_eq_splitOn, key]

/-- **Reading finds the items that a text lists.** -/
theorem readItems_eq_ok_iff (h : Lenient read)
    (hholds : ∀ line item, read line = .ok item ↔ holds line item) :
    readItems read number (lines cs) = .ok items ↔ Lists holds cs items := by
  constructor
  · intro hread
    induction cs using line_induction generalizing number items with
    | nil =>
      cases hread
      exact .nil
    | last line hne hline =>
      have hlines : lines line = [line] := by
        rw [lines, pieces_eq_splitOn, List.splitOn_eq_singleton hline, linesOfPieces, if_neg hne]
      rw [hlines] at hread
      obtain ⟨item, more, hitem, hmore, rfl⟩ := readItems_cons_eq_ok_iff.1 hread
      cases hmore
      rw [List.append_nil]
      exact .last hline ((hholds line item).1 hitem)
    | next line rest hline ih =>
      rw [lines_append hline] at hread
      obtain ⟨item, more, hitem, hmore, rfl⟩ := readItems_cons_eq_ok_iff.1 hread
      rw [h.read_dropReturn] at hitem
      rw [List.append_cons]
      exact .next hline ((hholds line item).1 hitem) (.inl rfl) (ih hmore)
  · intro hlists
    induction hlists generalizing number with
    | nil => rfl
    | @last line item hline hitem =>
      rw [h.readItems_lines, List.splitOn_eq_singleton hline]
      exact readItems_cons_eq_ok_iff.2 ⟨item, [], (hholds line item).2 hitem, rfl, by simp⟩
    | @next line ending rest item items hline hitem hending _ ih =>
      -- a carriage return may be left of the ending, and the reader does not mind it
      obtain ⟨left, hlines, hleft⟩ : ∃ left,
          lines (line ++ ending ++ rest) = left :: lines rest ∧ read left = read line := by
        rw [List.append_assoc]
        rcases hending with rfl | rfl
        · exact ⟨dropReturn line, lines_append hline rest, h.read_dropReturn line⟩
        · exact ⟨line, lines_append_crlf hline rest, rfl⟩
      rw [hlines]
      have hread : read left = .ok item := hleft.trans ((hholds line item).2 hitem)
      exact readItems_cons_eq_ok_iff.2 ⟨item, items, hread, ih, rfl⟩

/-- **Reading fails at the first stray line.** -/
theorem readItems_eq_error_iff (h : Lenient read)
    (hholds : ∀ line item, read line = .ok item ↔ holds line item) :
    readItems read 1 (lines cs) = .error (m, e) ↔ ∃ line,
      FirstStray (fun line => ∃ item, holds line item) cs m line ∧ read line = .error e := by
  have hok : (fun line => ∃ item, holds line item) = fun line => ∃ item, read line = .ok item := by
    simp only [hholds]
  rw [h.readItems_lines, readItems_eq_error_iff_split, hok]
  constructor
  · rintro ⟨line, before, after, hsplit, hm, hread, hbefore⟩
    refine ⟨line, ⟨before, after, hsplit, by omega, ?_, hbefore⟩, hread⟩
    rintro ⟨item, hitem⟩
    rw [hread] at hitem
    cases hitem
  · rintro ⟨line, ⟨before, after, hsplit, hm, -, hbefore⟩, hread⟩
    exact ⟨line, before, after, hsplit, by omega, hread, hbefore⟩

/-- Reading finds nothing if no line holds an item. -/
theorem readItems_eq_ok_nil_iff (h : Lenient read)
    (hholds : ∀ line item, read line = .ok item ↔ holds line item) :
    readItems read number (lines cs) = .ok [] ↔ ∀ line ∈ cs.splitOn '\n', holds line none := by
  rw [h.readItems_lines, Text.readItems_eq_ok_nil_iff]
  simp only [hholds]

end Lenient

/-! ## Texts that must not be empty -/

/-- What comes of a text: its items, or a fault if a line cannot be read or there is no item. -/
def readText (read : List Char → Except ε (Option α)) (stray : Nat → ε → ε') (empty : ε')
    (cs : List Char) : Except ε' (List α) :=
  match readItems read 1 (lines cs) with
  | .ok [] => .error empty
  | .ok items => .ok items
  | .error (number, e) => .error (stray number e)

namespace Lenient

variable {stray : Nat → ε → ε'} {empty : ε'}

theorem readText_eq_ok_iff (h : Lenient read)
    (hholds : ∀ line item, read line = .ok item ↔ holds line item) :
    readText read stray empty cs = .ok items ↔ items ≠ [] ∧ Lists holds cs items := by
  have hlists : readItems read 1 (lines cs) = .ok items ↔ Lists holds cs items :=
    h.readItems_eq_ok_iff hholds
  rw [← hlists, readText]
  cases readItems read 1 (lines cs) with
  | error fault => simp
  | ok found =>
    cases found with
    | nil => simp [eq_comm]
    | cons item found =>
      simp only [Except.ok.injEq, iff_and_self]
      rintro rfl
      exact List.cons_ne_nil _ _

/-- The fault tells the first stray line, if no other fault looks like it. -/
theorem readText_eq_stray_iff (h : Lenient read)
    (hholds : ∀ line item, read line = .ok item ↔ holds line item)
    (hstray : Function.Injective2 stray) (hempty : ∀ number e, stray number e ≠ empty) :
    readText read stray empty cs = .error (stray m e) ↔ ∃ line,
      FirstStray (fun line => ∃ item, holds line item) cs m line ∧ read line = .error e := by
  rw [← h.readItems_eq_error_iff hholds, readText]
  cases readItems read 1 (lines cs) with
  | error fault =>
    obtain ⟨number, fault⟩ := fault
    simp [hstray.eq_iff]
  | ok found => cases found <;> simp [(hempty m e).symm]

theorem readText_eq_empty_iff (h : Lenient read)
    (hholds : ∀ line item, read line = .ok item ↔ holds line item)
    (hempty : ∀ number e, stray number e ≠ empty) :
    readText read stray empty cs = .error empty ↔
      ∀ line ∈ cs.splitOn '\n', holds line none := by
  have hnone : readItems read 1 (lines cs) = .ok [] ↔ ∀ line ∈ cs.splitOn '\n', holds line none :=
    h.readItems_eq_ok_nil_iff hholds
  rw [← hnone, readText]
  cases readItems read 1 (lines cs) with
  | error fault => simp [hempty]
  | ok found => cases found <;> simp

end Lenient

end OpenRelay.Text
