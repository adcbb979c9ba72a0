import OpenRelay.Proofs.Conversation.Commands
import OpenRelay.Proofs.Conversation.Stops

/-!
# Cancelled scans

A scan is cancelled while a check waits for the outside. What the check does once that call has
returned follows from the order of a conversation.

* `Orderly.after_cancel`: the rest of the log holds the reply owed, if one is, and the leave-taking.
* `Orderly.unsaid_of_dictating`: within a message `QUIT` is not said.
* `cancellation_discipline`: what a check does after the call in which the scan was cancelled, and
  what its record says then.
-/

namespace OpenRelay

variable {s : Settings} {rules : List (Rule × Nat)} {address : Address} {c c' : Bool}
  {past es pre post : List Entry} {e : Entry} {h : HostRecord}

/-! ## Messages on their way -/

/-- A message is on its way, and only lines of it were sent since the server asked for it. -/
def Midway (log : List Entry) : Prop :=
  ∃ before done r, Answered before "DATA" r ∧ r.isIntermediate = true ∧ log = before ++ done ∧
    ∀ x ∈ done, ∃ line, x.line? = some line ∧ Stage.ofLine? line = none

/-- While a message is on its way a reply is the last thing in the log only before its first
line. -/
theorem Midway.answered {line : String} {r : Reply} (hm : Midway past)
    (hans : Answered past line r) : Answered past "DATA" r ∧ r.isIntermediate = true := by
  obtain ⟨before, done, r', hdata, hr, rfl, hdone⟩ := hm
  rcases List.eq_nil_or_concat done with rfl | ⟨init, last, rfl⟩
  · rw [List.append_nil] at hans ⊢
    obtain ⟨-, rfl⟩ := hans.inj hdata
    exact ⟨hdata, hr⟩
  · obtain ⟨before', t, d, d', heq⟩ := hans
    rw [List.concat_eq_append, ← List.append_assoc] at heq
    have hlast := (List.append_singleton_inj.1 (heq.trans (List.append_cons before' _ _))).2
    obtain ⟨line', hline', -⟩ := hdone last (by simp)
    rw [hlast] at hline'
    cases hline'

theorem Midway.sentLines_ne_nil (hm : Midway past) : sentLines past ≠ [] := by
  obtain ⟨before, done, r, hdata, -, rfl, -⟩ := hm
  simp [hdata.sentLines_ne_nil]

/-- While a message is on its way the last thing in the log is no command. -/
theorem Midway.not_command {before : List Entry} {line : String} {d : Bool}
    (hm : Midway (before ++ [⟨.sent line (.ok ()), d⟩])) : Stage.ofLine? line = none := by
  obtain ⟨start, done, r, hdata, -, heq, hdone⟩ := hm
  rcases List.eq_nil_or_concat done with rfl | ⟨init, last, rfl⟩
  · obtain ⟨start', t, d', d'', rfl⟩ := hdata
    rw [List.append_nil] at heq
    cases (List.append_singleton_inj.1 (heq.trans (List.append_cons start' _ _))).2
  · rw [List.concat_eq_append, ← List.append_assoc] at heq
    obtain ⟨line', hline', hnone⟩ := hdone last (by simp)
    rw [← (List.append_singleton_inj.1 heq).2] at hline'
    cases hline'
    exact hnone

/-- While a message is on its way nothing but lines may come: no reply is awaited, and it is too
late for anything else. -/
theorem Midway.sends {x : Entry} (hm : Midway past) (hx : Allowed s rules address past x) :
    x.line? ≠ none := by
  intro hline
  by_cases hread : x.event.isRead = true
  · rcases hx.awaited hread with ⟨hnil, -⟩ | ⟨before, line, d, rfl, hcmd⟩
    · exact hm.sentLines_ne_nil hnil
    · exact hcmd hm.not_command
  · refine hm.sentLines_ne_nil (sentLines_eq_nil.2 fun y hy => ?_)
    exact (hx.early hline (Bool.eq_false_iff.2 hread) y hy).1

/-- While a message is on its way its next line is due, or the dot, and nothing else. -/
theorem Midway.next {line : String} (hm : Midway past) (hdue : Due s rules address past line)
    (hdot : line ≠ ".") : Stage.ofLine? line = none := by
  -- what needs the reply to a command other than `DATA` is not due
  have hother : ∀ {line r} {st : Stage}, Answered past line r → Stage.ofLine? line = some st →
      st = .dataStart := by
    intro line r st hans hst
    rw [(hans.inj (hm.answered hans).1).1, ofLine?_data] at hst
    exact (Option.some.inj hst).symm
  unfold Due at hdue
  split at hdue
  · obtain ⟨_, -, -, hg | ⟨r, hans⟩⟩ := hdue
    · exact absurd hg.1 hm.sentLines_ne_nil
    · cases hother hans ofLine?_rset
  · obtain ⟨rule, _, r, -, -, hans, -⟩ := hdue
    cases hother hans (ofLine?_heloCommand rule)
  · obtain ⟨rule, _, r, -, -, hans, -⟩ := hdue
    cases hother hans (ofLine?_mailFromCommand rule)
  · obtain ⟨-, rule, _, r, -, hans, -⟩ := hdue
    cases hother hans (ofLine?_rcptToCommand rule)
  · assumption
  · have hmem : (".", Stage.dataEnd) ∈ commandWords := by decide
    exact absurd (eq_word_of_ofLine? hmem ‹_›) hdot
  · obtain ⟨line', r, hans⟩ := Decided.exists_answered hdue
    obtain ⟨hdata, hr⟩ := hm.answered hans
    rw [(Decided.of_answered hdue hdata ofLine?_data).not_intermediate] at hr
    cases hr
  · obtain ⟨hg | ⟨line', r, hans⟩, hnot, -⟩ := hdue
    · exact absurd hg.1 hm.sentLines_ne_nil
    · obtain ⟨hdata, hr⟩ := hm.answered hans
      exact absurd ⟨past, r, hdata, hr, by simp⟩ hnot
  all_goals exact hdue.elim

/-- A message stays on its way with a further line of it. -/
theorem Midway.snoc {x : Entry} (hm : Midway past)
    (hx : ∃ line, x.line? = some line ∧ Stage.ofLine? line = none) : Midway (past ++ [x]) := by
  obtain ⟨before, done, r, hdata, hr, rfl, hdone⟩ := hm
  refine ⟨before, done ++ [x], r, hdata, hr, List.append_assoc _ _ _, ?_⟩
  intro y hy
  rcases List.mem_append.1 hy with hy | hy
  · exact hdone y hy
  · rw [List.mem_singleton.1 hy]; exact hx

/-- Until the dot is sent only lines of the message follow. -/
theorem Orderly.only_message (hord : Orderly s rules address past es) (hm : Midway past)
    (hdot : "." ∉ sentLines es) :
    ∀ x ∈ es, ∃ line, x.line? = some line ∧ Stage.ofLine? line = none := by
  induction es generalizing past with
  | nil => intro x hx; cases hx
  | cons x es ih =>
    obtain ⟨hx, hes⟩ := hord
    obtain ⟨line, hline⟩ := Option.ne_none_iff_exists'.1 (hm.sends hx)
    have hnext : ∃ line, x.line? = some line ∧ Stage.ofLine? line = none := by
      refine ⟨line, hline, hm.next (hx.due line hline) ?_⟩
      rintro rfl
      exact hdot (mem_sentLines.2 ⟨x, List.mem_cons_self, hline⟩)
    refine List.forall_mem_cons.2 ⟨hnext, ih hes (hm.snoc hnext) fun hmem => hdot ?_⟩
    obtain ⟨y, hy, hline⟩ := mem_sentLines.1 hmem
    exact mem_sentLines.2 ⟨y, List.mem_cons_of_mem _ hy, hline⟩

/-- **Within a message `QUIT` is not said.** -/
theorem Orderly.unsaid_of_dictating (hord : Orderly s rules address [] es) (hd : Dictating es) :
    "QUIT" ∉ sentLines es := by
  obtain ⟨before, after, r, rfl, hans, hr, hdot⟩ := hd
  obtain ⟨hbefore, hafter⟩ := (orderly_append before after []).1 hord
  have hmessage := hafter.only_message ⟨before, [], r, hans, hr, by simp, by simp⟩ hdot
  rw [sentLines_append, List.mem_append, not_or]
  constructor
  · obtain ⟨before', t, d, d', rfl⟩ := hans
    simpa using hbefore.allowed.unquit "DATA" rfl
  · intro hmem
    obtain ⟨x, hx, hline⟩ := mem_sentLines.1 hmem
    obtain ⟨line, hline', hnone⟩ := hmessage x hx
    rw [hline] at hline'
    cases hline'
    simp at hnone

/-! ## After the scan was cancelled -/

/-- Whether an entry belongs to the conversation: whether it is a send or a read. -/
def Entry.speaks (e : Entry) : Bool := e.event.isSend || e.event.isRead

/-- The reply owed after an entry, if one is: that to a command that came through. -/
def Owed (e : Entry) (es : List Entry) : Prop :=
  es = [] ∨ ∃ line c x, e = ⟨.sent line (.ok ()), c⟩ ∧ Stage.ofLine? line ≠ none ∧ es = [x] ∧
    x.event.isRead = true

/-- A leave-taking: nothing, or `QUIT` and, if it came through, one read. -/
def TakesLeave (es : List Entry) : Prop :=
  es = [] ∨ (∃ res c, es = [⟨.sent "QUIT" res, c⟩]) ∨
    ∃ c x, es = [⟨.sent "QUIT" (.ok ()), c⟩, x] ∧ x.event.isRead = true

/-- After `QUIT` nothing comes but its reply. -/
theorem Orderly.after_quit (hord : Orderly s rules address past es)
    (hquit : "QUIT" ∈ sentLines past) : es = [] ∨ ∃ before line c x,
      past = before ++ [⟨.sent line (.ok ()), c⟩] ∧ es = [x] ∧ x.event.isRead = true := by
  have hlines : ∀ later, sentLines (past ++ later) ≠ [] := by
    intro later hnil
    rw [sentLines_append, List.append_eq_nil_iff] at hnil
    rw [hnil.1] at hquit
    cases hquit
  have hread : ∀ (later : List Entry) {x : Entry}, Allowed s rules address (past ++ later) x →
      x.event.isRead = true ∧
        ∃ before line c, past ++ later = before ++ [⟨.sent line (.ok ()), c⟩] := by
    intro later x hx
    have hline : x.line? = none := by
      refine Option.eq_none_iff_forall_ne_some.2 fun line hline => hx.unquit line hline ?_
      rw [sentLines_append]
      exact List.mem_append_left _ hquit
    by_cases hread : x.event.isRead = true
    · rcases hx.awaited hread with ⟨hnil, -⟩ | ⟨before, line, d, heq, -⟩
      · exact absurd hnil (hlines later)
      · exact ⟨hread, before, line, d, heq⟩
    · refine absurd (sentLines_eq_nil.2 fun y hy => ?_) (hlines later)
      exact (hx.early hline (Bool.eq_false_iff.2 hread) y hy).1
  rcases es with _ | ⟨x, _ | ⟨y, es⟩⟩
  · exact Or.inl rfl
  · obtain ⟨hx, before, line, d, heq⟩ := hread [] (by simpa using hord.1)
    exact Or.inr ⟨before, line, d, x, by simpa using heq, rfl, hx⟩
  · obtain ⟨hx, -⟩ := hread [] (by simpa using hord.1)
    obtain ⟨-, before, line, d, heq⟩ := hread [x] hord.2.1
    rw [(List.append_singleton_inj.1 heq).2] at hx
    cases hx

/-- **What comes after the call in which the scan was cancelled**: the reply owed then, if one is,
and the leave-taking. -/
theorem Orderly.after_cancel (hord : Orderly s rules address (pre ++ [e]) es)
    (hcancel : (pre ++ [e]).any (·.cancelled) = true) : ∃ owed closing,
      es.filter Entry.speaks = owed ++ closing ∧ Owed e owed ∧ TakesLeave closing := by
  induction es generalizing pre e with
  | nil => exact ⟨[], [], rfl, Or.inl rfl, Or.inl rfl⟩
  | cons x es ih =>
    obtain ⟨hx, hes⟩ := hord
    have hcancel' : (pre ++ [e] ++ [x]).any (·.cancelled) = true := by
      rw [List.any_append, hcancel, Bool.true_or]
    obtain ⟨owed, closing, hrest, howed, hclosing⟩ := ih hes hcancel'
    cases hline : x.line? with
    | some line =>
      -- the only line that is sent from now on is `QUIT`
      have hquit : line = "QUIT" := by
        by_contra hne
        rw [hx.calm line hline hne] at hcancel
        cases hcancel
      obtain ⟨res, d, rfl⟩ : ∃ res d, x = ⟨.sent line res, d⟩ := by
        obtain ⟨event, d⟩ := x
        cases event <;> simp_all [Entry.line?]
      subst hquit
      refine ⟨[], _, rfl, Or.inl rfl, ?_⟩
      have hsaid : "QUIT" ∈ sentLines (pre ++ [e] ++ [⟨.sent "QUIT" res, d⟩]) := by
        rw [sentLines_append]; simp
      rcases hes.after_quit hsaid with rfl | ⟨before, line, d', y, heq, rfl, hy⟩
      · exact Or.inr (Or.inl ⟨res, d, rfl⟩)
      · cases (List.append_singleton_inj.1 heq).2
        exact Or.inr (Or.inr ⟨d, y, by simp [Entry.speaks, Event.isSend, hy], hy⟩)
    | none =>
      have hnot : ∀ {line d}, x ≠ ⟨.sent line (.ok ()), d⟩ := by
        rintro line d rfl
        cases hline
      have hnone : owed = [] := by
        rcases howed with hnil | ⟨line, d, y, hsent, -⟩
        · exact hnil
        · exact absurd hsent hnot
      subst hnone
      -- after anything but a line no reply is owed, so that all that is left is the leave-taking
      by_cases hread : x.event.isRead = true
      · refine ⟨[x], closing, by simp [Entry.speaks, hread, ← hrest], ?_, hclosing⟩
        rcases hx.awaited hread with ⟨-, -, hcalm⟩ | ⟨before, line, d, heq, hcmd⟩
        · rw [hcalm] at hcancel; cases hcancel
        · have hlast := (List.append_singleton_inj.1 heq).2
          exact Or.inr ⟨line, d, x, hlast, hcmd, rfl, hread⟩
      · refine ⟨[], closing, ?_, Or.inl rfl, hclosing⟩
        have hsend : x.event.isSend = false := by
          obtain ⟨event, d⟩ := x
          cases event <;> simp_all [Entry.line?, Event.isSend]
        rw [List.filter_cons_of_neg (by simp [Entry.speaks, hread, hsend]), hrest]

/-- Nothing is sent as long as no reply came. -/
theorem Orderly.unsent (hord : Orderly s rules address [] es) (hnone : heardReplies es = []) :
    sentLines es = [] := by
  refine sentLines_eq_nil.2 fun x hx => ?_
  obtain ⟨before, after, rfl⟩ := List.append_of_mem hx
  cases hline : x.line? with
  | none => rfl
  | some line =>
    rw [heardReplies_append, List.append_eq_nil_iff] at hnone
    exact absurd hnone.1 (hord.allowed.due line hline).heard

/-- A scan cancelled before the banner was read sends nothing any more. -/
theorem Orderly.unsent_after_cancel (hord : Orderly s rules address past es)
    (hcancel : past.any (·.cancelled) = true) (hlines : sentLines past = [])
    (hnone : heardReplies past = []) : sentLines es = [] := by
  induction es generalizing past with
  | nil => rfl
  | cons x es ih =>
    obtain ⟨hx, hes⟩ := hord
    have hline : x.line? = none :=
      Option.eq_none_iff_forall_ne_some.2 fun line hline => (hx.due line hline).heard hnone
    have hread : ¬ x.event.isRead = true := by
      intro hread
      rcases hx.awaited hread with ⟨-, -, hcalm⟩ | ⟨before, line, d, rfl, -⟩
      · rw [hcancel] at hcalm; cases hcalm
      · simp at hlines
    have hreply : x.reply? = none := by
      obtain ⟨event, d⟩ := x
      cases event <;> simp_all [Entry.reply?, Event.isRead]
    have hx₁ : sentLines [x] = [] := by simp [sentLines, hline]
    have hx₂ : heardReplies [x] = [] := by simp [heardReplies, hreply]
    have hes' := ih hes (by rw [List.any_append, hcancel, Bool.true_or])
      (by rw [sentLines_append, hlines, hx₁]; rfl) (by rw [heardReplies_append, hnone, hx₂]; rfl)
    rw [← List.singleton_append, sentLines_append, hx₁, hes']
    rfl

theorem Dictating.append {es' : List Entry} (hd : Dictating es) (hdot : "." ∉ sentLines es') :
    Dictating (es ++ es') := by
  obtain ⟨before, after, r, rfl, hans, hr, hafter⟩ := hd
  refine ⟨before, after ++ es', r, List.append_assoc _ _ _, hans, hr, ?_⟩
  rw [sentLines_append, List.mem_append, not_or]
  exact ⟨hafter, hdot⟩

theorem sentLines_reads (es : List Entry) :
    sentLines (es.takeWhile (·.event.isRead)) = [] := by
  refine sentLines_eq_nil.2 fun x hx => ?_
  have hread := List.mem_takeWhile_imp hx
  obtain ⟨event, d⟩ := x
  cases event <;> simp_all [Entry.line?, Event.isRead]

/-- A message that is on its way at the end of a log was so when the reply owed after an entry had
been read, if `DATA` was not sent later. -/
theorem Dictating.of_reads (hd : Dictating (pre ++ [e] ++ post)) (hdata : "DATA" ∉ sentLines post) :
    Dictating (pre ++ [e] ++ post.takeWhile (·.event.isRead)) := by
  obtain ⟨before, after, r, heq, ⟨b, t, d, d', rfl⟩, hr, hdot⟩ := hd
  have hreads := sentLines_reads post
  have hans : Answered (b ++ [⟨.sent "DATA" (.ok ()), d⟩, ⟨.heard t (.ok r), d'⟩]) "DATA" r :=
    ⟨b, t, d, d', rfl⟩
  -- the reply to `DATA` is the first entry after the cancelled call, or comes before it
  have hfirst : ∀ {after'}, pre ++ [e] = b ++ [⟨.sent "DATA" (.ok ()), d⟩] →
      post = ⟨.heard t (.ok r), d'⟩ :: after' →
      Dictating (pre ++ [e] ++ post.takeWhile (·.event.isRead)) := by
    rintro after' hpre rfl
    refine ⟨_, after'.takeWhile (·.event.isRead), r, ?_, hans, hr, ?_⟩
    · rw [hpre, List.takeWhile_cons_of_pos rfl]
      simp
    · rw [sentLines_reads]; simp
  have heq' : pre ++ [e] ++ post =
      (b ++ [⟨.sent "DATA" (.ok ()), d⟩]) ++ ⟨.heard t (.ok r), d'⟩ :: after := by
    rw [heq]; simp
  rcases List.append_eq_append_iff.1 heq' with ⟨mid, hpre, hpost⟩ | ⟨mid, hpre, hpost⟩
  · rcases List.eq_nil_or_concat mid with rfl | ⟨init, last, rfl⟩
    · exact hfirst (by simpa using hpre.symm) (by simpa using hpost)
    · rw [List.concat_eq_append, ← List.append_assoc] at hpre
      have hlast := (List.append_singleton_inj.1 hpre).2
      refine absurd ?_ hdata
      rw [hpost, ← hlast]
      simp
  · rcases mid with _ | ⟨x, mid⟩
    · exact hfirst (by simpa using hpre) (by simpa using hpost.symm)
    · obtain ⟨rfl, hafter⟩ := List.cons.inj hpost
      rw [show after = mid ++ post from hafter] at hdot
      rw [hpre]
      refine ⟨_, mid ++ post.takeWhile (·.event.isRead), r, by simp, hans, hr, ?_⟩
      rw [sentLines_append, List.mem_append, not_or] at hdot ⊢
      exact ⟨hdot.1, by rw [hreads]; simp⟩

/-- `QUIT` is said once at most. -/
theorem Orderly.count_quit (hord : Orderly s rules address [] es) (hq : "QUIT" ∈ sentLines es) :
    (sentLines es).count "QUIT" = 1 := by
  obtain ⟨x, hx, hline⟩ := mem_sentLines.1 hq
  obtain ⟨before, after, rfl⟩ := List.append_of_mem hx
  have hbefore := hord.allowed.unquit _ hline
  have hafter := hord.quit_last hline
  have hone : sentLines (x :: after) = "QUIT" :: sentLines after :=
    List.filterMap_cons_some hline
  rw [sentLines_append, hone, hafter, List.count_append, List.count_eq_zero_of_not_mem hbefore]
  rfl

/-! ## The discipline -/

/-- A stage of some rule was skipped though the connection was there: it was opened, nothing failed
on it before `QUIT`, and yet not every rule got its reply to `RSET`. -/
def Skipped (s : Settings) (log : List Entry) : Prop :=
  (∃ x ∈ log, x.opens = true) ∧ Unbroken log ∧ concluded log < s.rules.length

/-- What a check does, and notes, whose log is `pre ++ [e] ++ post`, if `e` is the call in which the
scan was cancelled. -/
structure Disciplined (s : Settings) (h : HostRecord) (pre : List Entry) (e : Entry)
    (post : List Entry) : Prop where
  /-- No line is sent any more but one `QUIT`. -/
  lines : sentLines post = [] ∨ sentLines post = ["QUIT"]
  /-- No reply is read any more but the one owed and the one to `QUIT`. -/
  reads : ∃ owed closing, post.filter Entry.speaks = owed ++ closing ∧ Owed e owed ∧
    TakesLeave closing
  /-- `QUIT` is not said before the banner was read, nor within a message. -/
  unsaid : heardReplies (pre ++ [e]) = [] ∨
      Dictating (pre ++ [e] ++ post.takeWhile (·.event.isRead)) →
    "QUIT" ∉ sentLines (pre ++ [e] ++ post)
  /-- Otherwise it is said once, unless something failed before. -/
  said : heardReplies (pre ++ [e]) ≠ [] →
    ¬ Dictating (pre ++ [e] ++ post.takeWhile (·.event.isRead)) →
    Unbroken (pre ++ [e] ++ post) → (sentLines (pre ++ [e] ++ post)).count "QUIT" = 1
  /-- If a stage was skipped the record says that the scan was cancelled, and each attempt that was
  not decided names the stage that it did not get to. -/
  noted : Skipped s (pre ++ [e] ++ post) → h.cancelled = true ∧ h.fatal = false ∧
    List.Forall₂ (fun a round => DecidedIn s a.rule round ∨ CutOff s a round) h.attempts
      (rounds (pre ++ [e] ++ post))

theorem Orderly.lines_after_cancel (hord : Orderly s rules address (pre ++ [e]) post)
    (hcancel : (pre ++ [e]).any (·.cancelled) = true) :
    sentLines post = [] ∨ sentLines post = ["QUIT"] := by
  obtain ⟨owed, closing, hpost, howed, hclosing⟩ := hord.after_cancel hcancel
  have hread : ∀ {x : Entry} {es}, x.event.isRead = true → sentLines (x :: es) = sentLines es := by
    rintro ⟨event, d⟩ es hx
    cases event <;> simp_all [Event.isRead]
  have hfilter : sentLines (post.filter Entry.speaks) = sentLines post := by
    unfold sentLines
    rw [List.filterMap_filter]
    refine List.filterMap_congr fun x _ => ?_
    obtain ⟨event, d⟩ := x
    cases event <;> simp [Entry.speaks, Event.isSend, Event.isRead, Entry.line?]
  have howed' : sentLines owed = [] := by
    rcases howed with rfl | ⟨_, _, x, -, -, rfl, hx⟩
    · rfl
    · rw [hread hx]; rfl
  rw [← hfilter, hpost, sentLines_append, howed', List.nil_append]
  rcases hclosing with rfl | ⟨res, d, rfl⟩ | ⟨d, x, rfl, hx⟩
  · exact Or.inl rfl
  · exact Or.inr rfl
  · rw [sentLines_sent, hread hx]
    exact Or.inr rfl

/-- If nothing failed before `QUIT`, nothing failed in the rounds. -/
theorem Orderly.rounds_unfailed (hord : Orderly s rules address [] es) (hu : Unbroken es) :
    ∀ round ∈ rounds es, ∀ x ∈ round, x.failed = false := by
  intro round hround x hx
  by_cases hq : "QUIT" ∈ sentLines es
  · -- the rounds end with `QUIT`, and nothing may fail before it
    obtain ⟨q, hmem, hline⟩ := mem_sentLines.1 hq
    obtain ⟨before, after, rfl⟩ := List.append_of_mem hmem
    have hafter : sentLines after ⊆ [] := by rw [hord.quit_last hline]; exact List.Subset.refl _
    rw [rounds_quit (by simp [Entry.command?, hline]) (inner_of_lines hafter (by simp))] at hround
    exact hord.allowed.unbroken x ((mem_of_mem_cutRounds before).2 round hround hx)
  · exact hu.of_unsaid hq x ((mem_of_mem_cutRounds es).2 round hround hx)

theorem Orderly.only_quit {line : String} (hord : Orderly s rules address (pre ++ [e]) post)
    (hcancel : (pre ++ [e]).any (·.cancelled) = true) (hline : line ≠ "QUIT") :
    line ∉ sentLines post := by
  intro hmem
  rcases hord.lines_after_cancel hcancel with hnil | hquit
  · rw [hnil] at hmem
    cases hmem
  · rw [hquit] at hmem
    exact hline (List.mem_singleton.1 hmem)

/-- **Where `QUIT` is not said**: before the banner, and within a message. -/
theorem Orderly.unsaid_after_cancel (hord : Orderly s rules address [] (pre ++ [e] ++ post))
    (hcancel : (pre ++ [e]).any (·.cancelled) = true)
    (h : heardReplies (pre ++ [e]) = [] ∨
      Dictating (pre ++ [e] ++ post.takeWhile (·.event.isRead))) :
    "QUIT" ∉ sentLines (pre ++ [e] ++ post) := by
  obtain ⟨hpre, hpost⟩ := (orderly_append (pre ++ [e]) post []).1 hord
  rw [List.nil_append] at hpost
  rcases h with hnone | hd
  · have hunsent := hpre.unsent hnone
    rw [sentLines_append, hunsent, hpost.unsent_after_cancel hcancel hunsent hnone]
    simp
  · -- what is sent later does not end the message
    refine hord.unsaid_of_dictating ?_
    rw [← List.takeWhile_append_dropWhile (p := (·.event.isRead)) (l := post),
      ← List.append_assoc]
    refine hd.append fun hmem => hpost.only_quit hcancel (by decide) (?_ : "." ∈ sentLines post)
    obtain ⟨x, hx, hline⟩ := mem_sentLines.1 hmem
    exact mem_sentLines.2 ⟨x, (List.dropWhile_suffix _).subset hx, hline⟩

/-- **Where `QUIT` is said**: everywhere else, unless something failed. -/
theorem Orderly.said_after_cancel (hord : Orderly s rules address [] (pre ++ [e] ++ post))
    (hcancel : (pre ++ [e]).any (·.cancelled) = true) (hclosed : Closed (pre ++ [e] ++ post))
    (hmessage : ¬ Dictating (pre ++ [e] ++ post.takeWhile (·.event.isRead)))
    (hunbroken : Unbroken (pre ++ [e] ++ post)) :
    (sentLines (pre ++ [e] ++ post)).count "QUIT" = 1 := by
  have hpost := ((orderly_append (pre ++ [e]) post []).1 hord).2
  rw [List.nil_append] at hpost
  by_cases hq : "QUIT" ∈ sentLines (pre ++ [e] ++ post)
  · exact hord.count_quit hq
  rcases hclosed with hquit | ⟨x, hx, hf⟩ | hd
  · exact absurd hquit hq
  · rw [hunbroken.of_unsaid hq x hx] at hf
    cases hf
  · exact absurd (hd.of_reads (hpost.only_quit hcancel (by decide))) hmessage

/-- **What is noted** of a check that skipped a stage though the connection was there. -/
theorem Checks.noted {index : Nat} (hc : Checks s index address false es h c')
    (hskipped : Skipped s es) : h.cancelled = true ∧ h.fatal = false ∧
      List.Forall₂ (fun a round => DecidedIn s a.rule round ∨ CutOff s a round) h.attempts
        (rounds es) := by
  obtain ⟨hopen, hunbroken, hless⟩ := hskipped
  have hnoted := (hc.ending hopen hunbroken).resolve_left (by omega)
  refine ⟨hnoted.1, hnoted.2, ?_⟩
  have hunfailed := hc.orderly.1.rounds_unfailed hunbroken
  have hall := ((List.forall₂_and_left _ _).2 ⟨hunfailed, hc.attempted.1.flip⟩).flip
  refine hall.imp ?_
  rintro a round ⟨hround, hat⟩
  rcases Attempted.settled hat with hd | hcut | ⟨x, hx, hf⟩
  · exact Or.inl hd
  · exact Or.inr hcut
  · rw [hround x hx] at hf
    cases hf

/-- **Cancelled scans.** A check that finds the scan cancelled calls on nobody. In any other check,
whatever call it is in which the scan is cancelled, nothing is sent after it but one `QUIT`, and
nothing is read but the replies to what was sent; and the record says where the check stopped. -/
theorem cancellation_discipline (s : Settings) (p : Peer) (index : Nat) (address : Address) :
    s.logOf p index address true = [] ∧ ∀ pre e post,
      s.logOf p index address false = pre ++ [e] ++ post → e.cancelled = true →
      Disciplined s (s.recordOf p index address false) pre e post := by
  constructor
  · obtain ⟨c', hc⟩ := s.checks p index address true
    generalize s.logOf p index address true = log at hc ⊢
    cases hc with
    | skipped => rfl
  intro pre e post hlog he
  obtain ⟨c', hc⟩ := s.checks p index address false
  rw [hlog] at hc
  obtain ⟨hord, hclosed⟩ := hc.orderly
  have hpost := ((orderly_append (pre ++ [e]) post []).1 hord).2
  rw [List.nil_append] at hpost
  have hcancel : (pre ++ [e]).any (·.cancelled) = true := by
    rw [List.any_append, List.any_cons, he, Bool.true_or, Bool.or_true]
  refine ⟨hpost.lines_after_cancel hcancel, hpost.after_cancel hcancel,
    hord.unsaid_after_cancel hcancel, ?_, hc.noted⟩
  intro hheard
  refine hord.said_after_cancel hcancel (hclosed ?_)
  rw [heardReplies_append]
  intro hnil
  exact hheard (List.append_eq_nil_iff.1 hnil).1

/-- A server that accepts everything, while the scan is cancelled as the first line goes out. -/
def cancelsAtOnce : Script where
  send n := { value := .ok (), cancels := n = 0 }
  read _ := { value := .ok { code := 250, text := "" } }

/-- Against that server a check reads the reply to `HELO` and takes its leave. -/
theorem quit_after_cancelled_helo :
    let s : Settings := { rules := [{ helo := "a", mailFrom := "b", rcptTo := "c" }] }
    let x : Address := { a := 192, b := 0, c := 2, d := 1 }
    let reply : Entry := ⟨.heard s.readTimeout (.ok { code := 250, text := "" }), true⟩
    ∃ pre, s.logOf cancelsAtOnce.peer 0 x false =
        pre ++ [⟨.sent "HELO a" (.ok ()), true⟩] ++ [reply, ⟨.sent "QUIT" (.ok ()), true⟩, reply] ∧
      Disciplined s (s.recordOf cancelsAtOnce.peer 0 x false) pre ⟨.sent "HELO a" (.ok ()), true⟩
        [reply, ⟨.sent "QUIT" (.ok ()), true⟩, reply] := by
  intro s x reply
  have hlog : s.logOf cancelsAtOnce.peer 0 x false =
      [⟨.connected x 25 s.connectTimeout s.readTimeout (.ok ()), false⟩,
        ⟨.heard s.readTimeout (.ok { code := 250, text := "" }), false⟩] ++
      [⟨.sent "HELO a" (.ok ()), true⟩] ++ [reply, ⟨.sent "QUIT" (.ok ()), true⟩, reply] := rfl
  obtain ⟨-, hall⟩ := cancellation_discipline s cancelsAtOnce.peer 0 x
  exact ⟨_, hlog, hall _ _ _ hlog rfl⟩

end OpenRelay
