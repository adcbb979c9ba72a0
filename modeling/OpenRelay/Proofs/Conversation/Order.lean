import OpenRelay.Proofs.Conversation.Round

/-!
# The order of a conversation

When a line may be sent is said by what stands before it in the log (`Due`).

* `Due`: what must stand before a line.
* `Orderly`: a part of a log in which each entry is allowed by what stands before it.
* `Takes.orderly`: a step keeps to the order.
-/

namespace OpenRelay

/-! ## What stands at the end of a log -/

/-- The reply `r` to `line` is the last thing in a log. -/
def Answered (log : List Entry) (line : String) (r : Reply) : Prop :=
  ∃ before t c c', log = before ++ [⟨.sent line (.ok ()), c⟩, ⟨.heard t (.ok r), c'⟩]

/-- The banner is the last thing in a log, and nothing was sent. -/
def Greeted (log : List Entry) : Prop :=
  sentLines log = [] ∧ ∃ before t r c, log = before ++ [⟨.heard t (.ok r), c⟩]

/-- The server asked for a message, and `text` is what it got of it so far. -/
def Dictated (log : List Entry) (text : List String) : Prop :=
  ∃ before r, Answered before "DATA" r ∧ r.isIntermediate = true ∧
    log = before ++ text.map Entry.calm

/-- The server asked for a message, and the dot was not sent since. -/
def Dictating (log : List Entry) : Prop :=
  ∃ before after r, log = before ++ after ∧ Answered before "DATA" r ∧ r.isIntermediate = true ∧
    "." ∉ sentLines after

/-- How many rules were begun. -/
def begun (log : List Entry) : Nat :=
  (sentLines log).countP fun line => Stage.ofLine? line = some .helo

/-- The rule that was begun last, with its number. -/
def Current (rules : List (Rule × Nat)) (log : List Entry) (rule : Rule) (k : Nat) : Prop :=
  rules[k]? = some (rule, k) ∧ begun log = k + 1

/-- Whether a reply decides an attempt: it does not accept, or it accepts the last stage. -/
def Settings.Decides (s : Settings) (st : Stage) (r : Reply) : Prop :=
  st ∈ s.stages ∧ (st.accepts r = false ∨ s.stages.getLast? = some st)

/-- The reply that decides the attempt of a rule is the last thing in a log. -/
def Decided (s : Settings) (rules : List (Rule × Nat)) (log : List Entry) : Prop :=
  ∃ rule k st r, Current rules log rule k ∧ s.Decides st r ∧ Answered log (rule.line st) r

/-- The lines of the message of a rule as they are sent. -/
def Settings.messageOf (s : Settings) (address : Address) (k : Nat) (rule : Rule) : List String :=
  (messageLines s.subject address k rule).map stuff

/-- When a line may be sent, by what stands before it:
`HELO` of the next rule after the banner or after the reply to `RSET`;
a command of the envelope, and `DATA`, after the command before it was accepted;
a line of the message after the lines before it, and the dot after all of them;
`RSET` after the reply that decides the attempt;
`QUIT` after a reply other than the one that asks for a message, and only if the scan was
cancelled or all rules are done. -/
def Due (s : Settings) (rules : List (Rule × Nat)) (address : Address) (log : List Entry)
    (line : String) : Prop :=
  match Stage.ofLine? line with
  | some .helo => ∃ rule, rules[begun log]? = some (rule, begun log) ∧ line = rule.heloCommand ∧
      (Greeted log ∨ ∃ r, Answered log "RSET" r)
  | some .mailFrom => ∃ rule k r, Current rules log rule k ∧ line = rule.mailFromCommand ∧
      Answered log rule.heloCommand r ∧ r.isCompletion = true
  | some .rcptTo => ∃ rule k r, Current rules log rule k ∧ line = rule.rcptToCommand ∧
      Answered log rule.mailFromCommand r ∧ r.isCompletion = true
  | some .dataStart => s.sendData = true ∧ ∃ rule k r, Current rules log rule k ∧
      Answered log rule.rcptToCommand r ∧ r.isCompletion = true
  | none => s.sendData = true ∧ ∃ rule k i, Current rules log rule k ∧
      (s.messageOf address k rule)[i]? = some line ∧
      Dictated log ((s.messageOf address k rule).take i)
  | some .dataEnd => s.sendData = true ∧ ∃ rule k, Current rules log rule k ∧
      Dictated log (s.messageOf address k rule)
  | some .rset => Decided s rules log
  | some .quit => (Greeted log ∨ ∃ line r, Answered log line r) ∧ ¬ Dictated log [] ∧
      (log.any (·.cancelled) = true ∨
        begun log = rules.length ∧ (Greeted log ∨ ∃ r, Answered log "RSET" r))
  | some .resolve | some .connect | some .banner => False

variable {s : Settings} {rules : List (Rule × Nat)} {address : Address} {rule : Rule} {k : Nat}
  {stage : Stage} {st reset : Step} {steps : List Step} {a : Attempt} {c c' : Bool}
  {past es : List Entry} {h h' : HostRecord}

/-- The last reply of a log, and the line that it answers, are the only ones. -/
theorem Answered.inj {log : List Entry} {line line' : String} {r r' : Reply}
    (h : Answered log line r) (h' : Answered log line' r') : line = line' ∧ r = r' := by
  obtain ⟨before, t, c, c', rfl⟩ := h
  obtain ⟨before', t', d, d', heq⟩ := h'
  have := List.append_inj_right' heq rfl
  simp only [List.cons.injEq, Entry.mk.injEq, Event.sent.injEq, Event.heard.injEq,
    Except.ok.injEq] at this
  exact ⟨this.1.1.1, this.2.1.1.2⟩

theorem Answered.sentLines_ne_nil {log : List Entry} {line : String} {r : Reply}
    (h : Answered log line r) : sentLines log ≠ [] := by
  obtain ⟨before, t, c, c', rfl⟩ := h
  simp

/-- A message of which nothing was sent yet was asked for by the last reply. -/
theorem Dictated.answered {log : List Entry} (h : Dictated log []) :
    ∃ r, Answered log "DATA" r ∧ r.isIntermediate = true := by
  obtain ⟨before, r, hans, hr, rfl⟩ := h
  exact ⟨r, by simpa using hans, hr⟩

/-- Between the lines of a message the last thing in the log is no reply. -/
theorem Dictated.eq_nil {log : List Entry} {text : List String} {line : String} {r : Reply}
    (h : Dictated log text) (h' : Answered log line r) : text = [] := by
  obtain ⟨before, r', -, -, rfl⟩ := h
  obtain ⟨before', t, c, c', heq⟩ := h'
  rcases List.eq_nil_or_concat text with rfl | ⟨init, last, rfl⟩
  · rfl
  · rw [List.concat_eq_append, List.map_append, ← List.append_assoc] at heq
    have hlast := (List.append_singleton_inj.1 (heq.trans (List.append_cons before' _ _))).2
    cases hlast

@[simp] theorem begun_append (es es' : List Entry) : begun (es ++ es') = begun es + begun es' := by
  simp [begun, List.countP_append]

theorem begun_eq_zero (h : ∀ line ∈ sentLines es, Stage.ofLine? line ≠ some .helo) :
    begun es = 0 := by
  simpa [begun, List.countP_eq_zero] using h

/-! ## Logs in order -/

/-- What must stand before an entry: no failure; before a line also no `QUIT`, and, unless the line
is `QUIT` itself, nothing that cancelled the scan. A line must be due, a reply must be awaited, and
anything else comes before all lines and replies. -/
structure Allowed (s : Settings) (rules : List (Rule × Nat)) (address : Address)
    (past : List Entry) (e : Entry) : Prop where
  unbroken : ∀ x ∈ past, x.failed = false
  due : ∀ line, e.line? = some line → Due s rules address past line
  unquit : ∀ line, e.line? = some line → "QUIT" ∉ sentLines past
  calm : ∀ line, e.line? = some line → line ≠ "QUIT" → past.any (·.cancelled) = false
  awaited : e.event.isRead = true →
    (sentLines past = [] ∧ heardReplies past = [] ∧ past.any (·.cancelled) = false) ∨
      ∃ before line c, past = before ++ [⟨.sent line (.ok ()), c⟩] ∧ Stage.ofLine? line ≠ none
  early : e.line? = none → e.event.isRead = false →
    ∀ x ∈ past, x.line? = none ∧ x.event.isRead = false

/-- Every entry of a part of a log is allowed after what stands before it. -/
def Orderly (s : Settings) (rules : List (Rule × Nat)) (address : Address) :
    List Entry → List Entry → Prop
  | _, [] => True
  | past, e :: es => Allowed s rules address past e ∧ Orderly s rules address (past ++ [e]) es

theorem orderly_append (es es' : List Entry) : ∀ past, Orderly s rules address past (es ++ es') ↔
    Orderly s rules address past es ∧ Orderly s rules address (past ++ es) es' := by
  induction es with
  | nil => intro past; simp [Orderly]
  | cons e es ih =>
    intro past
    simp only [List.cons_append, Orderly, ih, List.append_assoc, List.nil_append, and_assoc]

/-- In a log in order, each entry is allowed by what stands before it. -/
theorem Orderly.allowed {pre post : List Entry} {e : Entry}
    (h : Orderly s rules address [] (pre ++ e :: post)) : Allowed s rules address pre e :=
  ((orderly_append pre (e :: post) []).1 h).2.1

/-- A connection that can be used: nothing failed, and `QUIT` was not said. The flag says whether
the scan was cancelled. -/
structure Live (past : List Entry) (c : Bool) : Prop where
  unbroken : ∀ x ∈ past, x.failed = false
  unquit : "QUIT" ∉ sentLines past
  flag : past.any (·.cancelled) = c

theorem Live.snoc {e : Entry} (hl : Live past c) (hf : e.failed = false)
    (hq : e.line? ≠ some "QUIT") (hc : c = true → e.cancelled = true) :
    Live (past ++ [e]) e.cancelled := by
  refine ⟨?_, ?_, ?_⟩
  · intro x hx
    rcases List.mem_append.1 hx with hx | hx
    · exact hl.unbroken x hx
    · rw [List.mem_singleton.1 hx, hf]
  · intro hmem
    rw [sentLines_append, List.mem_append] at hmem
    rcases hmem with hmem | hmem
    · exact hl.unquit hmem
    · obtain ⟨x, hx, hline⟩ := mem_sentLines.1 hmem
      rw [List.mem_singleton.1 hx] at hline
      exact hq hline
  · rw [List.any_append, hl.flag]
    cases c with
    | false => simp
    | true => simp [hc rfl]

/-- A line that is due may be sent. -/
theorem Live.allowed_sent {line : String} {res : Except String Unit} (hl : Live past c)
    (hdue : Due s rules address past line) (hc : line ≠ "QUIT" → c = false) :
    Allowed s rules address past ⟨.sent line res, c'⟩ where
  unbroken := hl.unbroken
  due := by rintro _ ⟨⟩; exact hdue
  unquit := by rintro _ ⟨⟩; exact hl.unquit
  calm := by rintro _ ⟨⟩ hne; rw [hl.flag]; exact hc hne
  awaited := by intro h; cases h
  early := by intro h; cases h

/-- After a command its reply may be read. -/
theorem allowed_heard {before : List Entry} {line : String} {d : Bool} {t : Duration}
    {res : Except String Reply} (hbefore : ∀ x ∈ before, x.failed = false)
    (hline : Stage.ofLine? line ≠ none) :
    Allowed s rules address (before ++ [⟨.sent line (.ok ()), d⟩]) ⟨.heard t res, c'⟩ where
  unbroken := by
    intro x hx
    rcases List.mem_append.1 hx with hx | hx
    · exact hbefore x hx
    · rw [List.mem_singleton.1 hx]; rfl
  due := by rintro _ ⟨⟩
  unquit := by rintro _ ⟨⟩
  calm := by rintro _ ⟨⟩
  awaited := fun _ => Or.inr ⟨before, line, d, rfl, hline⟩
  early := by intro _ h; cases h

/-! ## Steps in order -/

/-- Each line of a step is due, once the lines before it went out. -/
def Ready (s : Settings) (rules : List (Rule × Nat)) (address : Address) (lines : List String)
    (past : List Entry) : Prop :=
  ∀ i line, lines[i]? = some line →
    line ≠ "QUIT" ∧ Due s rules address (past ++ (lines.take i).map Entry.calm) line

theorem ready_singleton {line : String} (hq : line ≠ "QUIT") (h : Due s rules address past line) :
    Ready s rules address [line] past := by
  intro i line' hi
  rcases i with _ | i
  · obtain rfl : line = line' := by simpa using hi
    exact ⟨hq, by simpa using h⟩
  · simp at hi

/-- **Lines are sent in order.** -/
theorem Transmits.orderly {lines : List String} {out : Except Halt Unit}
    (h : Transmits stage lines c es out c') : ∀ {past}, Live past c →
      Ready s rules address lines past →
      Orderly s rules address past es ∧ (out = .ok () → Live (past ++ es) c') := by
  induction h with
  | done => intro past hl _; exact ⟨trivial, fun _ => by simpa using hl⟩
  | cancelled => intro past _ _; exact ⟨trivial, fun h => by cases h⟩
  | failed =>
    intro past hl hready
    obtain ⟨-, hdue⟩ := hready 0 _ rfl
    refine ⟨⟨hl.allowed_sent (by simpa using hdue) fun _ => rfl, trivial⟩, fun h => by cases h⟩
  | @sent line rest c es out c' h ih =>
    intro past hl hready
    obtain ⟨hq, hdue⟩ := hready 0 _ rfl
    have hfirst : Allowed s rules address past ⟨.sent line (.ok ()), c⟩ :=
      hl.allowed_sent (by simpa using hdue) fun _ => rfl
    have hl' : Live (past ++ [⟨.sent line (.ok ()), c⟩]) c :=
      hl.snoc rfl (by simpa [Entry.line?] using hq) (by simp)
    rw [List.append_cons]
    cases c with
    | true =>
      -- once the scan is cancelled, nothing more is sent
      cases h with
      | done => exact ⟨⟨hfirst, trivial⟩, fun _ => by simpa using hl'⟩
      | cancelled => exact ⟨⟨hfirst, trivial⟩, fun h => by cases h⟩
    | false =>
      obtain ⟨hes, hlive⟩ := ih hl' (by
        intro i line' hi
        have := hready (i + 1) line' (by simpa using hi)
        simpa using this)
      exact ⟨⟨hfirst, hes⟩, hlive⟩

/-- **A step keeps to the order**, and ends with the reply to its command. -/
theorem Takes.orderly {out : Except Halt Reply} (h : Takes st c es out c') (hl : Live past c)
    (hready : Ready s rules address st.lines past) (hcmd : Stage.ofLine? st.command ≠ none) :
    Orderly s rules address past es ∧ ∀ r, out = .ok r →
      Live (past ++ es) c' ∧ Answered (past ++ es) st.command r := by
  cases h with
  | unsent ht => exact ⟨(ht.orderly hl hready).1, fun r h => by cases h⟩
  | @sent es₁ c₁ es₂ _ _ ht hr =>
    obtain ⟨hes, hlive⟩ := ht.orderly hl hready
    have hl' := hlive rfl
    obtain ⟨-, rfl⟩ := ht.eq_of_ok
    rw [← List.append_assoc past] at hl'
    have hheard : ∀ {res : Except String Reply} {c'}, Allowed s rules address
        (past ++ (st.body.map Entry.calm ++ [⟨.sent st.command (.ok ()), c₁⟩]))
        ⟨.heard st.timeout res, c'⟩ := by
      intro res c'
      rw [← List.append_assoc past]
      exact allowed_heard (fun x hx => hl'.unbroken x (List.mem_append_left _ hx)) hcmd
    cases hr with
    | failed hc =>
      exact ⟨(orderly_append _ _ _).2 ⟨hes, hheard, trivial⟩, fun r h => by cases h⟩
    | @answered r _ hc =>
      refine ⟨(orderly_append _ _ _).2 ⟨hes, hheard, trivial⟩, ?_⟩
      intro r' hr
      obtain rfl : r = r' := Except.ok.inj hr
      rw [← List.append_assoc past, ← List.append_assoc past]
      refine ⟨hl'.snoc (e := ⟨.heard st.timeout (.ok r), c'⟩) rfl (by simp [Entry.line?]) hc, ?_⟩
      exact ⟨past ++ st.body.map Entry.calm, st.timeout, c₁, c', by simp⟩

/-- A step without lines before its command can only be cancelled before it did anything. -/
theorem Takes.of_cancelled (h : Takes st c es (.error (.cancelled stage)) c')
    (hbody : st.body = []) : stage = st.stage ∧ es = [] ∧ c = true ∧ c' = true := by
  cases h with
  | unsent ht =>
    rw [hbody] at ht
    cases ht with
    | cancelled => exact ⟨rfl, rfl, rfl, rfl⟩
    | sent ht => cases ht
  | sent _ hr => cases hr

end OpenRelay
