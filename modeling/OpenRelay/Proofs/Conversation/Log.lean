import OpenRelay.Conversation.Check

/-!
# Reading the log of a check

What a check said and heard can be read off its log alone, without the record that the check
makes. `replies_in_lockstep` and `relayed_iff_accepted` set the record against the exchanges in each
round, `request_noted_iff_sent` against the lines in it, and `commands_in_order` says in which order
the commands of a log come.

* `Stage.ofLine?`: the stage whose command a line is. The lines of a message are no commands.
* `exchanges`: the replies that came right after a line, each with that line.
* `rounds`: the parts of a log that belong to the rules. A round opens with `HELO` and reaches to
  the next `HELO` or to `QUIT`.
-/

namespace OpenRelay

/-! ## Commands -/

/-- How the commands with an argument open. -/
def commandOpenings : List (String × Stage) :=
  [("HELO ", .helo), ("MAIL FROM:<", .mailFrom), ("RCPT TO:<", .rcptTo)]

/-- The commands without an argument. -/
def commandWords : List (String × Stage) :=
  [("DATA", .dataStart), (".", .dataEnd), ("RSET", .rset), ("QUIT", .quit)]

/-- The stage whose command a line is. -/
def Stage.ofLine? (line : String) : Option Stage :=
  ((commandOpenings.find? fun x => x.1.toList.isPrefixOf line.toList).or
    (commandWords.find? fun x => x.1 = line)).map Prod.snd

/-- The stages of an attempt, in the order in which they come. -/
def Stage.ofAttempt : List Stage := [.helo, .mailFrom, .rcptTo, .dataStart, .dataEnd, .rset]

/-- The command that a rule sends in a stage. -/
def Rule.line (rule : Rule) : Stage → String
  | .helo => rule.heloCommand
  | .mailFrom => rule.mailFromCommand
  | .rcptTo => rule.rcptToCommand
  | .dataStart => "DATA"
  | .dataEnd => "."
  | .rset => "RSET"
  | .quit => "QUIT"
  | .resolve | .connect | .banner => ""

@[simp] theorem ofLine?_heloCommand (rule : Rule) :
    Stage.ofLine? rule.heloCommand = some .helo := by
  simp [Stage.ofLine?, commandOpenings, Rule.heloCommand]

@[simp] theorem ofLine?_mailFromCommand (rule : Rule) :
    Stage.ofLine? rule.mailFromCommand = some .mailFrom := by
  simp [Stage.ofLine?, commandOpenings, Rule.mailFromCommand]

@[simp] theorem ofLine?_rcptToCommand (rule : Rule) :
    Stage.ofLine? rule.rcptToCommand = some .rcptTo := by
  simp [Stage.ofLine?, commandOpenings, Rule.rcptToCommand]

@[simp] theorem ofLine?_data : Stage.ofLine? "DATA" = some .dataStart := by decide

@[simp] theorem ofLine?_dot : Stage.ofLine? "." = some .dataEnd := by decide

@[simp] theorem ofLine?_rset : Stage.ofLine? "RSET" = some .rset := by decide

@[simp] theorem ofLine?_quit : Stage.ofLine? "QUIT" = some .quit := by decide

/-- The command of a stage is a command of that stage. -/
theorem ofLine?_line (rule : Rule) {st : Stage} (h : st ∈ Stage.ofAttempt) :
    Stage.ofLine? (rule.line st) = some st := by
  simp only [Stage.ofAttempt, List.mem_cons, List.not_mem_nil, or_false] at h
  rcases h with rfl | rfl | rfl | rfl | rfl | rfl <;> simp [Rule.line]

/-- A line that opens with no letter of a command is none. -/
theorem ofLine?_eq_none {line : String}
    (h : ∀ c ∈ line.toList.head?, c ∉ ['H', 'M', 'R', 'D', '.', 'Q']) :
    Stage.ofLine? line = none := by
  have hne : ∀ {word : String} {c : Char}, word.toList.head? = some c →
      c ∈ ['H', 'M', 'R', 'D', '.', 'Q'] → ¬ word.toList <+: line.toList := by
    rintro word c hc hmem ⟨rest, hrest⟩
    refine h c ?_ hmem
    rw [← hrest, List.head?_append, hc]
    rfl
  have hword : ∀ {word : String} {c : Char}, word.toList.head? = some c →
      c ∈ ['H', 'M', 'R', 'D', '.', 'Q'] → word ≠ line := by
    rintro word c hc hmem rfl
    exact hne hc hmem (List.prefix_refl _)
  have h1 : ∀ x ∈ commandOpenings, ¬ x.1.toList.isPrefixOf line.toList = true := by
    intro x hx
    rw [List.isPrefixOf_iff_prefix]
    simp only [commandOpenings, List.mem_cons, List.not_mem_nil, or_false] at hx
    rcases hx with rfl | rfl | rfl <;> exact hne (by rfl) (by decide)
  have h2 : ∀ x ∈ commandWords, ¬ decide (x.1 = line) = true := by
    intro x hx
    rw [decide_eq_true_iff]
    simp only [commandWords, List.mem_cons, List.not_mem_nil, or_false] at hx
    rcases hx with rfl | rfl | rfl | rfl <;> exact hword (by rfl) (by decide)
  simp only [Stage.ofLine?, Option.map_eq_none_iff, Option.or_eq_none_iff,
    List.find?_eq_none]
  exact ⟨h1, h2⟩

/-- **The lines of a message are no commands**, as they are sent. -/
theorem ofLine?_message (subject : String) (address : Address) (index : Nat) (rule : Rule) :
    ∀ line ∈ (messageLines subject address index rule).map stuff, Stage.ofLine? line = none := by
  simp only [messageLines, List.map_cons, List.map_nil, List.forall_mem_cons]
  refine ⟨?_, ?_, ?_, ?_, ?_, ?_, ?_, ?_, by simp⟩ <;> exact ofLine?_eq_none (by simp [stuff])

/-- The commands without an argument are the only lines of their stages. -/
theorem eq_word_of_ofLine? {line word : String} {st : Stage} (hmem : (word, st) ∈ commandWords)
    (h : Stage.ofLine? line = some st) : line = word := by
  simp only [Stage.ofLine?, Option.map_eq_some_iff] at h
  obtain ⟨⟨found, st'⟩, hfind, rfl : st' = st⟩ := h
  rw [Option.or_eq_some_iff] at hfind
  rcases hfind with hfind | ⟨-, hfind⟩
  · have hmem' := List.mem_of_find?_eq_some hfind
    have hnone : ∀ x ∈ commandOpenings, ∀ y ∈ commandWords, x.2 ≠ y.2 := by decide
    exact absurd rfl (hnone _ hmem' (word, st') hmem)
  · have hmem' := List.mem_of_find?_eq_some hfind
    have heq := List.find?_some hfind
    have hinj : ∀ x ∈ commandWords, ∀ y ∈ commandWords, x.2 = y.2 → x.1 = y.1 := by decide
    rw [← of_decide_eq_true heq]
    exact hinj _ hmem' _ hmem rfl

/-! ## Entries -/

namespace Entry

/-- The line that an entry sends, whether it came through or not. -/
def line? (e : Entry) : Option String :=
  match e.event with
  | .sent line _ => some line
  | _ => none

/-- The reply that an entry brings. -/
def reply? (e : Entry) : Option Reply :=
  match e.event with
  | .heard _ (.ok r) => some r
  | _ => none

/-- Whether an entry is a send or a read that failed. -/
def failed (e : Entry) : Bool :=
  match e.event with
  | .sent _ (.error _) => true
  | .heard _ (.error _) => true
  | _ => false

/-- The stage whose command an entry sends. -/
def command? (e : Entry) : Option Stage := e.line?.bind Stage.ofLine?

end Entry

/-- The lines of a log. -/
def sentLines (log : List Entry) : List String := log.filterMap Entry.line?

/-- The replies of a log. -/
def heardReplies (log : List Entry) : List Reply := log.filterMap Entry.reply?

@[simp] theorem sentLines_nil : sentLines [] = [] := rfl

theorem mem_sentLines {line : String} {es : List Entry} :
    line ∈ sentLines es ↔ ∃ e ∈ es, e.line? = some line := List.mem_filterMap

theorem sentLines_eq_nil {es : List Entry} : sentLines es = [] ↔ ∀ e ∈ es, e.line? = none :=
  List.filterMap_eq_nil_iff

@[simp] theorem sentLines_append (es es' : List Entry) :
    sentLines (es ++ es') = sentLines es ++ sentLines es' := List.filterMap_append

theorem heardReplies_append (es es' : List Entry) :
    heardReplies (es ++ es') = heardReplies es ++ heardReplies es' := List.filterMap_append

@[simp] theorem sentLines_sent (line : String) (res : Except String Unit) (c : Bool)
    (es : List Entry) : sentLines (⟨.sent line res, c⟩ :: es) = line :: sentLines es := rfl

@[simp] theorem sentLines_heard (t : Duration) (res : Except String Reply) (c : Bool)
    (es : List Entry) : sentLines (⟨.heard t res, c⟩ :: es) = sentLines es := rfl

/-! ## Exchanges -/

/-- The replies that were read right after a line had gone out, each with that line. -/
def exchanges : List Entry → List (String × Reply)
  | ⟨.sent line (.ok ()), _⟩ :: ⟨.heard _ (.ok r), _⟩ :: rest => (line, r) :: exchanges rest
  | _ :: rest => exchanges rest
  | [] => []

/-- A part of a log that does not open with a read. -/
def Speaks (es : List Entry) : Prop := ∀ e ∈ es.head?, e.event.isRead = false

theorem speaks_nil : Speaks [] := by simp [Speaks]

theorem speaks_sent (line : String) (res : Except String Unit) (c : Bool) (es : List Entry) :
    Speaks (⟨.sent line res, c⟩ :: es) := by simp [Speaks, Event.isRead]

theorem Speaks.append {es es' : List Entry} (h : Speaks es) (h' : Speaks es') :
    Speaks (es ++ es') := by
  cases es with
  | nil => exact h'
  | cons e es => simpa [Speaks] using h

/-- Exchanges do not reach over the start of a part that opens with a send. -/
theorem exchanges_append {es' : List Entry} (h : Speaks es') (es : List Entry) :
    exchanges (es ++ es') = exchanges es ++ exchanges es' := by
  fun_induction exchanges es with
  | case1 line c t r c' rest ih => simp [exchanges, ih]
  | case2 e rest hne ih =>
    rw [List.cons_append, exchanges, ih]
    intro line c t r c' rest' he hrest
    cases rest with
    | nil =>
      obtain rfl : es' = _ := hrest
      simpa [Event.isRead] using h _ rfl
    | cons x rest =>
      obtain ⟨rfl, rfl⟩ := List.cons.inj hrest
      exact hne _ _ _ _ _ _ he rfl
  | case3 => rfl

/-- Sends alone are no exchanges. -/
theorem exchanges_eq_nil {es : List Entry} (h : ∀ e ∈ es, e.reply? = none) :
    exchanges es = [] := by
  fun_induction exchanges es with
  | case1 line c t r c' rest ih => simp [Entry.reply?] at h
  | case2 e rest hne ih => exact ih fun x hx => h x (List.mem_cons_of_mem _ hx)
  | case3 => rfl

/-- What comes before the first line is no part of an exchange. -/
theorem exchanges_unsent {es : List Entry} (h : ∀ e ∈ es, e.line? = none) (es' : List Entry) :
    exchanges (es ++ es') = exchanges es' := by
  induction es with
  | nil => rfl
  | cons e es ih =>
    obtain ⟨he, hes⟩ := List.forall_mem_cons.1 h
    rw [List.cons_append, exchanges, ih hes]
    rintro line c t r c' rest rfl
    cases he

/-! ## Rounds -/

/-- Cuts a log before each `HELO` and before `QUIT`: what comes before the first cut, and the
parts that open with `HELO`. -/
def cutRounds : List Entry → List Entry × List (List Entry)
  | [] => ([], [])
  | e :: es =>
    match e.command? with
    | some .helo => ([], (e :: (cutRounds es).1) :: (cutRounds es).2)
    | some .quit => ([], (cutRounds es).2)
    | _ => (e :: (cutRounds es).1, (cutRounds es).2)

/-- The parts of a log that belong to the rules, in order. -/
def rounds (log : List Entry) : List (List Entry) := (cutRounds log).2

/-- A part of a log within a round: it neither begins one nor says `QUIT`. -/
def Inner (es : List Entry) : Prop :=
  ∀ e ∈ es, e.command? ≠ some .helo ∧ e.command? ≠ some .quit

theorem Inner.append {es es' : List Entry} (h : Inner es) (h' : Inner es') :
    Inner (es ++ es') := by
  intro e he
  rcases List.mem_append.1 he with he | he
  · exact h e he
  · exact h' e he

theorem cutRounds_inner {es : List Entry} (h : Inner es) (es' : List Entry) :
    cutRounds (es ++ es') = (es ++ (cutRounds es').1, (cutRounds es').2) := by
  induction es with
  | nil => rfl
  | cons e es ih =>
    obtain ⟨h1, h2⟩ := h e List.mem_cons_self
    rw [List.cons_append, cutRounds, ih fun x hx => h x (List.mem_cons_of_mem _ hx)]
    split
    · exact absurd ‹_› h1
    · exact absurd ‹_› h2
    · rfl

/-- What comes before the first round does not matter. -/
theorem rounds_inner {es : List Entry} (h : Inner es) (es' : List Entry) :
    rounds (es ++ es') = rounds es' := by
  rw [rounds, cutRounds_inner h, rounds]

/-- A round followed by a cut is a part of its own. -/
theorem rounds_round {e : Entry} {es es' : List Entry} (he : e.command? = some .helo)
    (h : Inner es) (h' : (cutRounds es').1 = []) :
    rounds (e :: es ++ es') = (e :: es) :: rounds es' := by
  rw [rounds, List.cons_append, cutRounds, he, cutRounds_inner h]
  simp only [h', List.append_nil, rounds]

/-- `QUIT` and what follows it belong to no round. -/
theorem rounds_quit {e : Entry} {post : List Entry} (he : e.command? = some .quit)
    (hpost : Inner post) (pre : List Entry) : rounds (pre ++ e :: post) = rounds pre := by
  have hcut : cutRounds (pre ++ e :: post) = cutRounds pre := by
    induction pre with
    | nil =>
      have hnil := cutRounds_inner hpost []
      rw [List.append_nil] at hnil
      simp only [List.nil_append, cutRounds, he, hnil]
    | cons x pre ih => simp only [List.cons_append, cutRounds, ih]
  rw [rounds, hcut, rounds]

theorem mem_of_mem_cutRounds {x : Entry} (es : List Entry) :
    (x ∈ (cutRounds es).1 → x ∈ es) ∧ ∀ round ∈ rounds es, x ∈ round → x ∈ es := by
  unfold rounds
  induction es with
  | nil => simp [cutRounds]
  | cons e es ih =>
    obtain ⟨ih₁, ih₂⟩ := ih
    rw [cutRounds]
    split
    · refine ⟨by simp, List.forall_mem_cons.2 ⟨fun hx => ?_, fun round hr hx => ?_⟩⟩
      · exact (List.mem_cons.1 hx).elim (fun h => h ▸ List.mem_cons_self) fun h =>
          List.mem_cons_of_mem _ (ih₁ h)
      · exact List.mem_cons_of_mem _ (ih₂ round hr hx)
    · exact ⟨by simp, fun round hr hx => List.mem_cons_of_mem _ (ih₂ round hr hx)⟩
    · refine ⟨fun hx => ?_, fun round hr hx => List.mem_cons_of_mem _ (ih₂ round hr hx)⟩
      exact (List.mem_cons.1 hx).elim (fun h => h ▸ List.mem_cons_self) fun h =>
        List.mem_cons_of_mem _ (ih₁ h)

end OpenRelay
