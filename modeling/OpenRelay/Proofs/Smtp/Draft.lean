import OpenRelay.Proofs.Smtp.Grammar

/-!
# Lines pushed onto a draft

Lines may be pushed onto a draft one after the other, whatever becomes of them: also behind one that
was refused, and behind one that made the reply complete. Only those that are taken leave a trace.

The code of a line is noted before it is known whether there is room for the line. If there is none,
that changes nothing, but only because a draft that is full has a code. So a draft is described by the
lines that it took.

* `Draft.Holds.push`: a push that is refused leaves the draft as it was, one that is taken adds a line.
* `Draft.pushes_atomic`: a draft is made of the lines that were taken, and of nothing else.
-/

namespace OpenRelay

variable {d : Draft} {line : String} {held : List String} {code m n : Nat}

theorem Spells.unique {cs : List Char} (hm : Spells cs m) (hn : Spells cs n) : m = n :=
  Text.Unsigned.unique hm.2 hn.2

/-- The first of some lines opens with a code. -/
def OpensWith (code : Nat) (lines : List String) : Prop :=
  ∃ first ∈ lines.head?, Spells (first.toList.take 3) code

theorem not_opensWith_nil : ¬ OpensWith code [] := by
  rintro ⟨_, ⟨⟩, -⟩

theorem opensWith_cons {lines : List String} :
    OpensWith code (line :: lines) ↔ Spells (line.toList.take 3) code := by
  simp [OpensWith]

/-- The texts of some lines in one text. -/
def textOfLines (lines : List String) : String :=
  "\n".intercalate (lines.map fun line => textOfLine line.toList)

namespace Draft

/-- The draft after lines were pushed. -/
def pushAll (d : Draft) : List String → Draft
  | [] => d
  | line :: lines => (d.push line).1.pushAll lines

/-- Those of the lines pushed that are taken. -/
def taken (d : Draft) : List String → List String
  | [] => []
  | line :: lines =>
    match d.push line with
    | (d, .ok _) => line :: d.taken lines
    | (d, .error _) => d.taken lines

/-- A draft that took these lines. -/
structure Holds (d : Draft) (held : List String) : Prop where
  /-- It has a code if it took a line, -/
  coded : d.code.isSome ↔ held ≠ []
  /-- and that is the code of the first one. -/
  code : ∀ code, d.code = some code ↔ OpensWith code held
  lines : d.lines = held.map fun line => textOfLine line.toList
  /-- There are no more lines than a reply may have. -/
  room : held.length ≤ maxReplyLines

theorem holds_new : ({} : Draft).Holds [] where
  coded := by simp
  code code := iff_of_false nofun not_opensWith_nil
  lines := rfl
  room := Nat.zero_le _

namespace Holds

variable (h : d.Holds held)

include h

theorem length_lines : d.lines.length = held.length := by rw [h.lines, List.length_map]

/-- A draft agrees with the code of its first line alone, and with every code if it has none. -/
theorem agrees_iff : d.Agrees code ↔ held = [] ∨ OpensWith code held := by
  by_cases hnil : held = []
  · subst hnil
    refine iff_of_true (fun n hn => ?_) (.inl rfl)
    exact absurd ((h.code n).1 hn) not_opensWith_nil
  · obtain ⟨n, hn⟩ := Option.isSome_iff_exists.1 (h.coded.2 hnil)
    rw [or_iff_right hnil, ← h.code]
    constructor
    · intro hd
      rw [hn, hd n hn]
    · intro hcode n' hn'
      exact Option.some.inj (hn'.symm.trans hcode)

/-- **A full draft has a code**, so that noting one with which it agrees changes nothing. -/
theorem note_full (hd : d.Agrees code) (hfull : maxReplyLines ≤ d.lines.length) :
    { d with code := some code } = d := by
  have hheld : held ≠ [] := by
    rintro rfl
    rw [h.length_lines] at hfull
    exact absurd hfull (by decide)
  obtain ⟨n, hn⟩ := Option.isSome_iff_exists.1 (h.coded.2 hheld)
  obtain rfl := hd n hn
  rw [← hn]

/-- A draft takes one more line with its code, if there is room. -/
theorem concat (hline : Spells (line.toList.take 3) code) (hd : d.Agrees code)
    (hroom : d.lines.length < maxReplyLines) :
    ({ code := some code, lines := d.lines ++ [textOfLine line.toList] } : Draft).Holds
      (held ++ [line]) where
  coded := by simp
  code n := by
    have hopens : OpensWith code (held ++ [line]) := by
      rcases h.agrees_iff.1 hd with rfl | hopens
      · exact opensWith_cons.2 hline
      · obtain ⟨first, hfirst, hcode⟩ := hopens
        exact ⟨first, by rw [List.head?_append, hfirst, Option.some_or, Option.mem_some], hcode⟩
    constructor
    · rintro ⟨⟩
      exact hopens
    · rintro ⟨first, hfirst, hn⟩
      obtain ⟨first', hfirst', hcode⟩ := hopens
      obtain rfl := Option.some.inj (hfirst.symm.trans hfirst')
      exact congrArg some (hcode.unique hn)
  lines := by rw [List.map_append, h.lines, List.map_singleton]
  room := by
    rw [h.length_lines] at hroom
    rwa [List.length_append, List.length_singleton]

/-- **A push that is refused changes nothing, and one that is taken adds its line.** -/
theorem push (line : String) :
    (∃ e, d.push line = (d, .error e)) ∨
      ∃ code, Spells (line.toList.take 3) code ∧ d.Agrees code ∧
        d.lines.length < maxReplyLines ∧
        d.push line = ({ code := some code, lines := d.lines ++ [textOfLine line.toList] },
          .ok (decide (separator? line.toList ≠ some '-'))) := by
  have hread := ReplyLine.read_cases line.toList
  rw [String.ofList_toList] at hread
  rcases hread with ⟨e, hread, -⟩ | ⟨code, hcode⟩
  · refine .inl ⟨e, ?_⟩
    rw [Draft.push, hread]
  have hread := ReplyLine.read_of_spells hcode
  rw [String.ofList_toList] at hread
  cases hother : d.code.any (· ≠ code) with
  | true =>
    refine .inl ⟨.mixedCodes (d.code.getD 0) code, ?_⟩
    rw [Draft.push, hread]
    dsimp only
    rw [if_pos hother]
  | false =>
    have hd : d.Agrees code := any_ne_eq_false_iff.1 hother
    rcases Nat.lt_or_ge d.lines.length maxReplyLines with hroom | hfull
    · have hpush := push_of_spells hcode hd hroom
      rw [String.ofList_toList] at hpush
      exact .inr ⟨code, hcode, hd, hroom, hpush⟩
    · refine .inl ⟨.tooManyLines, ?_⟩
      rw [Draft.push, hread]
      dsimp only
      rw [hother, if_neg Bool.false_ne_true, if_pos hfull, h.note_full hd hfull]

/-- **After all pushes a draft holds the lines that were taken.** -/
theorem pushAll (lines : List String) : (d.pushAll lines).Holds (held ++ d.taken lines) := by
  induction lines generalizing d held with
  | nil => rwa [Draft.pushAll, taken, List.append_nil]
  | cons line lines ih =>
    rw [Draft.pushAll, taken]
    rcases h.push line with ⟨e, hpush⟩ | ⟨code, hcode, hd, hroom, hpush⟩
    · rw [hpush]
      exact ih h
    · rw [hpush]
      have hlater := ih (h.concat hcode hd hroom)
      rwa [List.append_assoc, List.singleton_append] at hlater

theorem refused (line : String) {e : ReplyError} (he : (d.push line).2 = .error e) :
    (d.push line).1 = d := by
  rcases h.push line with ⟨_, hpush⟩ | ⟨_, -, -, -, hpush⟩
  · rw [hpush]
  · rw [hpush] at he
    cases he

theorem takes_iff (line : String) : (∃ final, (d.push line).2 = .ok final) ↔
    ∃ code, Spells (line.toList.take 3) code ∧ (held = [] ∨ OpensWith code held) ∧
      held.length < maxReplyLines := by
  constructor
  · rintro ⟨final, hfinal⟩
    rcases h.push line with ⟨e, hpush⟩ | ⟨code, hcode, hd, hroom, -⟩
    · rw [hpush] at hfinal
      cases hfinal
    · exact ⟨code, hcode, h.agrees_iff.1 hd, h.length_lines ▸ hroom⟩
  · rintro ⟨code, hcode, hopens, hroom⟩
    have hpush := push_of_spells hcode (h.agrees_iff.2 hopens) (h.length_lines ▸ hroom)
    rw [String.ofList_toList] at hpush
    exact ⟨_, congrArg Prod.snd hpush⟩

theorem finish : (held = [] ∧ d.finish = .error .noLine) ∨
    ∃ code, OpensWith code held ∧ d.finish = .ok { code, text := textOfLines held } := by
  by_cases hnil : held = []
  · have hnone : d.code = none := by
      rw [← Option.not_isSome_iff_eq_none, h.coded]
      exact not_not_intro hnil
    exact .inl ⟨hnil, by rw [Draft.finish, hnone]⟩
  · obtain ⟨code, hcode⟩ := Option.isSome_iff_exists.1 (h.coded.2 hnil)
    refine .inr ⟨code, (h.code code).1 hcode, ?_⟩
    rw [Draft.finish, hcode, textOfLines, h.lines]

end Holds

/-- What is true of a draft onto which lines were pushed, if these were taken: its code and its lines
are theirs, and moreover the next line is taken or leaves no trace. -/
structure Pushed (d : Draft) (held : List String) : Prop extends d.Holds held where
  /-- A line that is refused leaves the code and the lines as they were. -/
  refused : ∀ line e, (d.push line).2 = .error e → (d.push line).1 = d
  /-- A line is taken if it opens with a code, and with the one of the first line if there is one, as
  long as there is room. -/
  takes : ∀ line, (∃ final, (d.push line).2 = .ok final) ↔
    ∃ code, Spells (line.toList.take 3) code ∧ (held = [] ∨ OpensWith code held) ∧
      held.length < maxReplyLines
  /-- The reply has the code and the texts of the lines taken. There is none without a line. -/
  finish : (held = [] ∧ d.finish = .error .noLine) ∨
    ∃ code, OpensWith code held ∧ d.finish = .ok { code, text := textOfLines held }

/-- **Lines that are refused leave no trace.** Whatever lines are pushed onto a draft, it is made of
those that were taken, and so is its reply. -/
theorem pushes_atomic (lines : List String) :
    (({} : Draft).pushAll lines).Pushed (({} : Draft).taken lines) := by
  have h : (({} : Draft).pushAll lines).Holds (({} : Draft).taken lines) := holds_new.pushAll lines
  exact { h with refused := fun line _ => h.refused line, takes := h.takes_iff, finish := h.finish }

/-- A line with another code is refused, and one behind the end of the reply is taken. -/
example : ({} : Draft).taken ["250-a", "251 b", "250 c", "250 d"] = ["250-a", "250 c", "250 d"] := by
  decide +kernel

end Draft

end OpenRelay
