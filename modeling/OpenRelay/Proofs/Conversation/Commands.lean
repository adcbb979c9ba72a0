import OpenRelay.Proofs.Conversation.Sequence

/-!
# Commands in order

* `commands_in_order`: in every check each line is due when it is sent; nothing follows a failure;
  after the reply that decides an attempt comes `RSET`, or `QUIT` if the scan was cancelled; and
  `QUIT` is the last line.
-/

namespace OpenRelay

variable {s : Settings} {rules : List (Rule × Nat)} {address : Address} {past : List Entry}

/-! ## What may come next -/

/-- Nothing is due before the banner. -/
theorem Due.heard {line : String} (hdue : Due s rules address past line) :
    heardReplies past ≠ [] := by
  have hgreeted : Greeted past → heardReplies past ≠ [] := by
    rintro ⟨-, before, t, r, d, rfl⟩
    simp [heardReplies, Entry.reply?]
  have hanswered : ∀ {line r}, Answered past line r → heardReplies past ≠ [] := by
    rintro line r ⟨before, t, d, d', rfl⟩
    simp [heardReplies, Entry.reply?]
  have hdictated : ∀ {text}, Dictated past text → heardReplies past ≠ [] := by
    rintro text ⟨before, r, ⟨before', t, d, d', rfl⟩, -, rfl⟩
    simp [heardReplies, Entry.reply?]
  unfold Due at hdue
  split at hdue
  · obtain ⟨_, -, -, hg | ⟨r, hans⟩⟩ := hdue
    · exact hgreeted hg
    · exact hanswered hans
  · obtain ⟨_, _, _, -, -, hans, -⟩ := hdue
    exact hanswered hans
  · obtain ⟨_, _, _, -, -, hans, -⟩ := hdue
    exact hanswered hans
  · obtain ⟨-, _, _, _, -, hans, -⟩ := hdue
    exact hanswered hans
  · obtain ⟨-, _, _, _, -, -, hd⟩ := hdue
    exact hdictated hd
  · obtain ⟨-, _, _, -, hd⟩ := hdue
    exact hdictated hd
  · obtain ⟨_, _, _, _, -, -, hans⟩ := hdue
    exact hanswered hans
  · obtain ⟨hg | ⟨line, r, hans⟩, -⟩ := hdue
    · exact hgreeted hg
    · exact hanswered hans
  all_goals exact hdue.elim

/-- **After the reply that decides an attempt** only `RSET` is due, or `QUIT` if the scan was
cancelled. -/
theorem Decided.next {line : String} (hd : Decided s rules past)
    (hdue : Due s rules address past line) :
    line = "RSET" ∨ (line = "QUIT" ∧ past.any (·.cancelled) = true) := by
  unfold Due at hdue
  split at hdue
  · obtain ⟨_, -, -, hg | ⟨r, hans⟩⟩ := hdue
    · exact absurd hg hd.not_greeted
    · exact absurd hans hd.not_reset
  -- after a command that was accepted the attempt goes on, unless it was the last
  · obtain ⟨rule, _, r, -, -, hans, hr⟩ := hdue
    have hlast := (hd.of_answered hans (ofLine?_heloCommand rule)).last hr
    split at hlast <;> cases hlast
  · obtain ⟨rule, _, r, -, -, hans, hr⟩ := hdue
    have hlast := (hd.of_answered hans (ofLine?_mailFromCommand rule)).last hr
    split at hlast <;> cases hlast
  · obtain ⟨hs, rule, _, r, -, hans, hr⟩ := hdue
    have hlast := (hd.of_answered hans (ofLine?_rcptToCommand rule)).last hr
    rw [if_pos hs] at hlast
    cases hlast
  · obtain ⟨-, _, _, _, -, -, htext⟩ := hdue
    exact absurd htext hd.not_dictated
  · obtain ⟨-, _, _, -, htext⟩ := hdue
    exact absurd htext hd.not_dictated
  · have hmem : ("RSET", Stage.rset) ∈ commandWords := by decide
    exact Or.inl (eq_word_of_ofLine? hmem ‹_›)
  · obtain ⟨-, -, hcancelled | ⟨-, hg | ⟨r, hans⟩⟩⟩ := hdue
    · have hmem : ("QUIT", Stage.quit) ∈ commandWords := by decide
      exact Or.inr ⟨eq_word_of_ofLine? hmem ‹_›, hcancelled⟩
    · exact absurd hg hd.not_greeted
    · exact absurd hans hd.not_reset
  all_goals exact hdue.elim

/-- Nothing is said after `QUIT`. -/
theorem Orderly.quit_last {pre post : List Entry} {e : Entry}
    (hord : Orderly s rules address [] (pre ++ e :: post)) (he : e.line? = some "QUIT") :
    sentLines post = [] := by
  refine sentLines_eq_nil.2 fun x hx => ?_
  obtain ⟨before, after, rfl⟩ := List.append_of_mem hx
  rw [← List.cons_append, ← List.append_assoc] at hord
  cases hline : x.line? with
  | none => rfl
  | some line =>
    refine absurd ?_ (hord.allowed.unquit line hline)
    rw [sentLines_append]
    exact List.mem_append_right _ (mem_sentLines.2 ⟨e, List.mem_cons_self, he⟩)

/-- **The lines of a check are in order.** In every check nothing follows a send or a read that
failed. A line is sent only after the banner, and only if it is due; after the reply that decides
an attempt it is `RSET`, or `QUIT` if the scan was cancelled; and after `QUIT` there is none. -/
theorem commands_in_order (s : Settings) (p : Peer) (index : Nat) (address : Address)
    (cancelled : Bool) {pre post : List Entry} {e : Entry}
    (hlog : s.logOf p index address cancelled = pre ++ e :: post) :
    let rules := s.rulesFor (s.recordOf p index address cancelled)
    (∀ x ∈ pre, x.failed = false) ∧ ∀ line, e.line? = some line →
      heardReplies pre ≠ [] ∧ Due s rules address pre line ∧
      (Decided s rules pre →
        line = "RSET" ∨ (line = "QUIT" ∧ pre.any (·.cancelled) = true)) ∧
      (line = "QUIT" → sentLines post = []) := by
  intro rules
  obtain ⟨c', hc⟩ := s.checks p index address cancelled
  have hord := hc.orderly.1
  rw [hlog] at hord
  have hallowed := hord.allowed
  refine ⟨hallowed.unbroken, fun line hline => ?_⟩
  have hdue := hallowed.due line hline
  refine ⟨hdue.heard, hdue, fun hd => hd.next hdue, ?_⟩
  rintro rfl
  exact hord.quit_last hline

/-- A server that refuses the sender, and accepts everything else. -/
def refusesSender : Script where
  send _ := { value := .ok () }
  read n := { value := .ok { code := if n = 2 then 550 else 250, text := "" } }

/-- In a check of one rule against that server `RSET` is sent, and is due. -/
theorem reset_due_after_refusal :
    let s : Settings := { rules := [{ helo := "a", mailFrom := "b", rcptTo := "c" }] }
    let x : Address := { a := 192, b := 0, c := 2, d := 1 }
    ∃ pre post, s.logOf refusesSender.peer 0 x false =
        pre ++ ⟨.sent "RSET" (.ok ()), false⟩ :: post ∧
      (∀ y ∈ pre, y.failed = false) ∧
      Due s (s.rulesFor (s.recordOf refusesSender.peer 0 x false)) x pre "RSET" := by
  intro s x
  have hlog : s.logOf refusesSender.peer 0 x false =
      [⟨.connected x 25 s.connectTimeout s.readTimeout (.ok ()), false⟩,
        ⟨.heard s.readTimeout (.ok ⟨250, ""⟩), false⟩,
        ⟨.sent "HELO a" (.ok ()), false⟩, ⟨.heard s.readTimeout (.ok ⟨250, ""⟩), false⟩,
        ⟨.sent "MAIL FROM:<b>" (.ok ()), false⟩, ⟨.heard s.readTimeout (.ok ⟨550, ""⟩), false⟩] ++
      ⟨.sent "RSET" (.ok ()), false⟩ ::
      [⟨.heard s.readTimeout (.ok ⟨250, ""⟩), false⟩,
        ⟨.sent "QUIT" (.ok ()), false⟩, ⟨.heard s.readTimeout (.ok ⟨250, ""⟩), false⟩] := rfl
  obtain ⟨hunbroken, hline⟩ := commands_in_order s refusesSender.peer 0 x false hlog
  exact ⟨_, _, hlog, hunbroken, (hline "RSET" rfl).2.1⟩

end OpenRelay
