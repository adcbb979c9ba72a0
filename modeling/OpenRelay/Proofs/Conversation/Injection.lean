import OpenRelay.Proofs.Conversation.Cancellation
import OpenRelay.Proofs.Smtp.Outbox

/-!
# Nothing is injected

What a scan puts into its lines comes from rules, from the mailbox, and from host names. None of it
can add a command, or end a message early.

* `Due.oneLine`: a line that is due has no line breaks.
* `Orderly.message`: after the server asked for a message it gets the lines of the message, and the
  dot behind the last of them.
* `nothing_injected`: the other side reads the lines that a check sent, and the message that it
  wrote.
-/

namespace OpenRelay

variable {s : Settings} {rules : List (Rule × Nat)} {address : Address} {rule : Rule} {k : Nat}
  {past es : List Entry} {h : HostRecord}

/-! ## Dots -/

/-- A line of a message as it is meant: a dot at its beginning was added. -/
def unstuff (line : String) : String :=
  match line.toList with
  | '.' :: cs => String.ofList cs
  | _ => line

theorem unstuff_stuff (line : String) : unstuff (stuff line) = line := by
  unfold stuff
  split
  · simp [unstuff]
  next hdot =>
    unfold unstuff
    split
    next cs heq => simp [heq] at hdot
    next => rfl

/-- No line of a message is the dot that ends it. -/
theorem dot_not_mem_messageOf (s : Settings) (address : Address) (k : Nat) (rule : Rule) :
    "." ∉ s.messageOf address k rule := by
  intro hmem
  have hnone := ofLine?_message _ _ _ _ _ hmem
  rw [ofLine?_dot] at hnone
  cases hnone

/-! ## Line breaks -/

/-- Settings whose texts have no line breaks. -/
structure Settings.OneLine (s : Settings) : Prop where
  /-- All rules can be sent. -/
  rules : ∀ r ∈ s.rules, r.fault? = none
  subject : OpenRelay.OneLine s.subject
  mailbox : ∀ m ∈ s.mailbox, OpenRelay.OneLine m.name ∧ OpenRelay.OneLine m.domain

theorem OneLine.stuff {line : String} (hl : OneLine line) : OneLine (stuff line) := by
  unfold OpenRelay.stuff
  split
  · exact OneLine.append (by decide) hl
  · exact hl

theorem oneLine_messageLines {subject : String} (hsubject : OneLine subject) (address : Address)
    (k : Nat) (hr : rule.OneLine) : ∀ line ∈ messageLines subject address k rule, OneLine line := by
  have haddress : OneLine (toString address) := oneLine_address address
  have hk := oneLine_toString k
  simp only [messageLines, List.forall_mem_cons, oneLine_append, hsubject, haddress, hk, hr.mailFrom,
    hr.rcptTo, and_true]
  exact ⟨by decide, by decide, by decide, by decide, by decide, by decide, by decide, by decide,
    by simp⟩

/-- The rules for a host have no line breaks, if its name has none. -/
theorem Settings.OneLine.rulesFor (hs : s.OneLine)
    (hname : ∀ name ∈ h.hostname, OpenRelay.OneLine name) :
    ∀ x ∈ s.rulesFor h, x.1.OneLine := by
  intro x hx
  obtain ⟨r, hr, heq⟩ := List.mem_map.1 (List.fst_mem_of_mem_zipIdx hx)
  rw [← heq]
  exact Rule.oneLine_expand (Rule.oneLine_of_fault? (hs.rules r hr)) ⟨hname, hs.mailbox⟩

/-- **A line that is due has no line breaks.** -/
theorem Due.oneLine {line : String} (hdue : Due s rules address past line)
    (hrules : ∀ x ∈ rules, x.1.OneLine) (hsubject : OneLine s.subject) : OneLine line := by
  have hword : ∀ {word : String} {st : Stage}, Stage.ofLine? line = some st →
      (word, st) ∈ commandWords → OneLine word → OneLine line :=
    fun hline hmem hword => eq_word_of_ofLine? hmem hline ▸ hword
  unfold Due at hdue
  split at hdue
  · obtain ⟨rule, hrule, rfl, -⟩ := hdue
    exact (hrules _ (List.mem_of_getElem? hrule)).heloCommand
  · obtain ⟨rule, k, r, hcurrent, rfl, -⟩ := hdue
    exact (hrules _ (List.mem_of_getElem? hcurrent.1)).mailFromCommand
  · obtain ⟨rule, k, r, hcurrent, rfl, -⟩ := hdue
    exact (hrules _ (List.mem_of_getElem? hcurrent.1)).rcptToCommand
  · exact hword ‹_› (.head _) (by decide)
  · obtain ⟨-, rule, k, i, hcurrent, hi, -⟩ := hdue
    have hr := hrules _ (List.mem_of_getElem? hcurrent.1)
    obtain ⟨text, htext, rfl⟩ := List.mem_map.1 (List.mem_of_getElem? hi)
    exact (oneLine_messageLines hsubject address k hr text htext).stuff
  · exact hword ‹_› (.tail _ (.head _)) (by decide)
  · exact hword ‹_› (.tail _ (.tail _ (.head _))) (by decide)
  · exact hword ‹_› (.tail _ (.tail _ (.tail _ (.head _)))) (by decide)
  all_goals exact hdue.elim

/-! ## Messages -/

theorem Current.inj {rule' : Rule} {k' : Nat} (h : Current rules past rule k)
    (h' : Current rules past rule' k') : rule = rule' ∧ k = k' := by
  obtain ⟨hrule, hk⟩ := h
  obtain ⟨hrule', hk'⟩ := h'
  obtain rfl : k = k' := by omega
  rw [hrule] at hrule'
  exact ⟨(Prod.mk.inj (Option.some.inj hrule')).1, rfl⟩

/-- What the server got of a message so far is said by the log. -/
theorem Dictated.inj {text text' : List String} (h : Dictated past text)
    (h' : Dictated past text') : text = text' := by
  -- the lines of the message are what stands behind the last reply
  have key : ∀ {text}, Dictated past text →
      past.reverse.takeWhile (fun x => x.line?.isSome) = (text.map Entry.calm).reverse := by
    rintro text ⟨before, r, ⟨before', t, c, c', rfl⟩, -, rfl⟩
    rw [List.reverse_append, List.takeWhile_append_of_pos]
    · simp [Entry.line?]
    · intro x hx
      obtain ⟨line, -, rfl⟩ := List.mem_map.1 (List.mem_reverse.1 hx)
      rfl
  have heq := (key h).symm.trans (key h')
  have := congrArg sentLines (List.reverse_injective heq)
  rwa [sentLines_calm, sentLines_calm] at this

theorem Dictated.midway {text rest : List String} (hd : Dictated past text)
    (hsplit : s.messageOf address k rule = text ++ rest) : Midway past := by
  obtain ⟨before, r, hans, hr, rfl⟩ := hd
  refine ⟨before, _, r, hans, hr, rfl, fun x hx => ?_⟩
  obtain ⟨line, hline, rfl⟩ := List.mem_map.1 hx
  exact ⟨line, rfl, ofLine?_message _ _ _ _ _ (hsplit ▸ List.mem_append_left _ hline)⟩

/-- A line that went out while the scan was going on. -/
theorem Entry.eq_calm {x : Entry} {line : String} (hline : x.line? = some line)
    (hfailed : x.failed = false) (hcalm : x.cancelled = false) : x = Entry.calm line := by
  obtain ⟨event, flag⟩ := x
  cases event with
  | sent line' res =>
    obtain rfl : line' = line := Option.some.inj hline
    obtain rfl : flag = false := hcalm
    cases res with
    | error e => cases hfailed
    | ok u => rfl
  | _ => cases hline

/-- **After the server asked for a message** it gets the lines of the message, and the dot behind
the last of them; or the check breaks off on the way. -/
theorem Orderly.message (hord : Orderly s rules address past es) (hcurrent : Current rules past rule k)
    {done rest : List String} (hsplit : s.messageOf address k rule = done ++ rest)
    (hd : Dictated past done) : sentLines es <+: rest ∨ rest ++ ["."] <+: sentLines es := by
  induction es generalizing past done rest with
  | nil => exact Or.inl List.nil_prefix
  | cons x es ih =>
    obtain ⟨hx, hes⟩ := hord
    have hm := hd.midway hsplit
    obtain ⟨line, hline⟩ := Option.ne_none_iff_exists'.1 (hm.sends hx)
    have hdue := hx.due line hline
    have hlines : sentLines (x :: es) = line :: sentLines es := by
      simp [sentLines, hline]
    rw [hlines]
    by_cases hdot : line = "."
    · -- the dot is due behind the whole message
      subst hdot
      simp only [Due, ofLine?_dot] at hdue
      obtain ⟨-, rule', k', hcurrent', hd'⟩ := hdue
      obtain ⟨rfl, rfl⟩ := hcurrent.inj hcurrent'
      rw [hd.inj hd', List.self_eq_append_right] at hsplit
      subst hsplit
      exact Or.inr (List.cons_prefix_cons.2 ⟨rfl, List.nil_prefix⟩)
    · have hnone := hm.next hdue hdot
      simp only [Due, hnone] at hdue
      obtain ⟨-, rule', k', i, hcurrent', hi, hd'⟩ := hdue
      obtain ⟨rfl, rfl⟩ := hcurrent.inj hcurrent'
      -- the line is the next one of the message
      obtain ⟨rest', rfl⟩ : ∃ rest', rest = line :: rest' := by
        have hlt := (List.getElem?_eq_some_iff.1 hi).1
        have hlen : done.length = i := by rw [hd.inj hd', List.length_take]; omega
        rw [hsplit, List.getElem?_append_right (Nat.le_of_eq hlen), hlen, Nat.sub_self] at hi
        cases rest with
        | nil => cases hi
        | cons line' rest' => exact ⟨rest', congrArg (· :: rest') (Option.some.inj hi)⟩
      have hm' := hm.snoc ⟨line, hline, hnone⟩
      cases es with
      | nil => exact Or.inl (by simp)
      | cons y es =>
        -- if another line follows, this one went out while the scan was going on
        obtain ⟨line', hline'⟩ := Option.ne_none_iff_exists'.1 (hm'.sends hes.1)
        have hquit : line' ≠ "QUIT" := by
          rintro rfl
          have := hm'.next (hes.1.due _ hline') (by decide)
          simp at this
        have hcalm := List.any_eq_false.1 (hes.1.calm line' hline' hquit) x (by simp)
        obtain rfl := Entry.eq_calm hline (hes.1.unbroken x (by simp)) (by simpa using hcalm)
        have hlater : Current rules (past ++ [Entry.calm line]) rule k := by
          have hzero : begun [Entry.calm line] = 0 := by
            apply begun_eq_zero
            simp [hnone]
          exact ⟨hcurrent.1, by rw [begun_append, hzero, hcurrent.2]⟩
        have hd'' : Dictated (past ++ [Entry.calm line]) (done ++ [line]) := by
          obtain ⟨before, r, hans, hr, rfl⟩ := hd
          exact ⟨before, r, hans, hr, by simp⟩
        have hrest := ih hes hlater (hsplit.trans (List.append_cons _ _ _)) hd''
        exact hrest.imp (fun h => List.cons_prefix_cons.2 ⟨rfl, h⟩)
          (fun h => List.cons_prefix_cons.2 ⟨rfl, h⟩)

/-- `DATA` is sent for the rule that was begun last. -/
theorem Orderly.current {r : Reply} (hord : Orderly s rules address [] past)
    (hans : Answered past "DATA" r) : ∃ rule k, Current rules past rule k := by
  obtain ⟨before, t, c, c', rfl⟩ := hans
  have hdue := hord.allowed.due "DATA" rfl
  simp only [Due, ofLine?_data] at hdue
  obtain ⟨-, rule, k, -, ⟨hrule, hbegun⟩, -⟩ := hdue
  refine ⟨rule, k, hrule, ?_⟩
  rw [begun_append, hbegun, begun_eq_zero (by simp)]

/-- What a check sends is what the other side reads. -/
structure Faithful (s : Settings) (address : Address) (h : HostRecord) (log : List Entry) :
    Prop where
  oneLine : ∀ line ∈ sentLines log, OneLine line
  /-- The lines that were sent up to some moment are read as they are. -/
  stream : ∀ lines, lines <+: sentLines log → readLines (lines.flatMap lineBytes) = lines ++ [""]
  /-- So are those that arrived in full, where the last one arrived in part. -/
  arrived : ∀ got, got <+: (sentLines log).flatMap lineBytes →
    (readLines got).dropLast <+: sentLines log
  /-- After a server asked for a message it gets the lines of the message of the current rule, none
  of them a dot, and the dot behind the last; or the check breaks off on the way. Without the dots
  that were added the lines are those that were meant. -/
  message : ∀ pre post r, log = pre ++ post → Answered pre "DATA" r → r.isIntermediate = true →
    ∃ rule k, Current (s.rulesFor h) pre rule k ∧
      "." ∉ s.messageOf address k rule ∧
      (s.messageOf address k rule).map unstuff = messageLines s.subject address k rule ∧
      (sentLines post <+: s.messageOf address k rule ∨
        s.messageOf address k rule ++ ["."] <+: sentLines post)

/-- **Nothing is injected.** If no text of the settings and no name of the host has a line break,
whatever the peer does and whenever it cancels the scan, the other side reads the lines that the
check sent, and the message that it wrote. -/
theorem nothing_injected (hs : s.OneLine) (p : Peer) (index : Nat) (address : Address)
    (cancelled : Bool)
    (hname : ∀ name ∈ (s.recordOf p index address cancelled).hostname, OneLine name) :
    Faithful s address (s.recordOf p index address cancelled)
      (s.logOf p index address cancelled) := by
  obtain ⟨c', hc⟩ := s.checks p index address cancelled
  have hord := hc.orderly.1
  generalize s.recordOf p index address cancelled = h at hname hord ⊢
  generalize s.logOf p index address cancelled = log at hord ⊢
  have hlines : ∀ line ∈ sentLines log, OneLine line := by
    intro line hmem
    obtain ⟨e, he, hline⟩ := mem_sentLines.1 hmem
    obtain ⟨pre, post, rfl⟩ := List.append_of_mem he
    exact (hord.allowed.due line hline).oneLine (hs.rulesFor hname) hs.subject
  refine ⟨hlines, fun lines hpre => ?_, fun got hgot => readLines_prefix hlines hgot, ?_⟩
  · exact readLines_lineBytes fun line hline => hlines line (hpre.subset hline)
  · rintro pre post r rfl hans hr
    obtain ⟨hpre, hpost⟩ := (orderly_append pre post []).1 hord
    obtain ⟨rule, k, hcurrent⟩ := hpre.current hans
    refine ⟨rule, k, hcurrent, dot_not_mem_messageOf s address k rule, ?_, ?_⟩
    · rw [Settings.messageOf, List.map_map]
      exact List.map_id'' unstuff_stuff _
    · rw [List.nil_append] at hpost
      exact hpost.message hcurrent (List.nil_append _).symm ⟨pre, r, hans, hr, by simp⟩

/-- A server that has a name and accepts everything. -/
def acceptsNamed : Script where
  lookUp := { value := .named "mx.example" }
  send _ := { value := .ok () }
  read n := { value := .ok { code := if n = 4 then 354 else 250, text := "" } }

/-- A message to that server, by a rule that is filled in for it. -/
theorem nothing_injected_named :
    let s : Settings :=
      { rules := [{ helo := "\x7bhost\x7d", mailFrom := "", rcptTo := "\x7bname\x7d@\x7bip\x7d" }]
        resolveHostnames := true, sendData := true, mailbox := some ⟨"n", "example.org"⟩ }
    let x : Address := ⟨192, 0, 2, 1⟩
    let log := s.logOf acceptsNamed.peer 0 x false
    (sentLines log).take 5 = ["HELO mx.example", "MAIL FROM:<>", "RCPT TO:<n@192.0.2.1>", "DATA",
        "From: <>"] ∧
      Faithful s x (s.recordOf acceptsNamed.peer 0 x false) log := by
  intro s x log
  have hs : s.OneLine := by
    refine ⟨?_, by decide, ?_⟩
    · simp only [s, List.forall_mem_singleton]
      decide
    · rintro m ⟨⟩
      decide
  have hname : (s.recordOf acceptsNamed.peer 0 x false).hostname = some "mx.example" := by
    decide +kernel
  refine ⟨by decide +kernel, nothing_injected hs _ 0 x false ?_⟩
  rw [hname]
  rintro name ⟨⟩
  decide

end OpenRelay
