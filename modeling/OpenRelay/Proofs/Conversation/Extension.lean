import OpenRelay.Proofs.Conversation.Decided

/-!
# Checks with further rules

Two checks of one host, against the same peer, where the second has the rules of the first and more
behind them. They go the same way until the first has no rule left: there it says `QUIT`, and the
second goes on with `HELO`. So what the first finds out with its rules, the second does as well.

* `run_tryRules_append`: both conversations, by induction on the rules of the first.
* `verdicts_extend`: both checks.
-/

namespace OpenRelay

variable {s : Settings} {h : HostRecord} {p : Peer} {w : World}

/-- Which rules the settings hold does not matter for the rules that are tried. -/
theorem tryRules_setRules (s : Settings) (rs : Rules) (rules : List (Rule × Nat)) :
    ∀ h, tryRules { s with rules := rs } rules h = tryRules s rules h := by
  induction rules with
  | nil => intro h; rfl
  | cons x rest ih =>
    intro h
    simp only [tryRules, ih]
    rfl

theorem attempts_run_closeEarly (timeout : Duration) (h : HostRecord) (halt : Halt) (p : Peer)
    (w : World) : ((closeEarly timeout h halt).run p w).1.attempts = h.attempts := by
  obtain ⟨es, -, hc⟩ := closeEarly_follows timeout h halt p w
  exact hc.attempts_eq

theorem attempts_run_tryRules (s : Settings) (rules : List (Rule × Nat)) (h : HostRecord) (p : Peer)
    (w : World) : ∃ new, ((tryRules s rules h).run p w).1.attempts = h.attempts ++ new := by
  obtain ⟨es, -, ht⟩ := tryRules_follows s rules h p w
  obtain ⟨-, new, hnew, -⟩ := ht.attempted
  exact ⟨new, hnew⟩

theorem banner_run_tryRules (s : Settings) (rules : List (Rule × Nat)) (h : HostRecord) (p : Peer)
    (w : World) : ((tryRules s rules h).run p w).1.banner = h.banner := by
  obtain ⟨es, -, ht⟩ := tryRules_follows s rules h p w
  exact ht.sameHost.2.2

/-- **A conversation, and one with further rules.** Either both stop within the rules of the first,
with the same record, or the first makes an attempt with each of its rules, and the second keeps
these attempts. -/
theorem run_tryRules_append (s : Settings) (p : Peer) (later rules : List (Rule × Nat)) :
    ∀ (h : HostRecord) (w : World), ∃ new,
      ((tryRules s rules h).run p w).1.attempts = h.attempts ++ new ∧
      ((new.length ≤ rules.length ∧
          ((tryRules s (rules ++ later) h).run p w).1 = ((tryRules s rules h).run p w).1) ∨
        (new.length = rules.length ∧ ∃ more,
          ((tryRules s (rules ++ later) h).run p w).1.attempts = h.attempts ++ new ++ more)) := by
  induction rules with
  | nil =>
    -- here the first says `QUIT`, and the second goes on
    intro h w
    obtain ⟨more, hmore⟩ := attempts_run_tryRules s later h p w
    refine ⟨[], by simp [tryRules], Or.inr ⟨rfl, more, ?_⟩⟩
    rw [List.nil_append, List.append_nil, hmore]
  | cons x rest ih =>
    intro h w
    obtain ⟨rule, index⟩ := x
    simp only [List.cons_append, tryRules, Dialogue.run_bind, Dialogue.run_isCancelled]
    cases w.cancelled with
    | true =>
      refine ⟨[], ?_, Or.inl ⟨Nat.zero_le _, rfl⟩⟩
      rw [List.append_nil]
      exact attempts_run_closeEarly ..
    | false =>
      simp only [Dialogue.run_bind]
      generalize (tryRule _ _ _).run p w = tried
      obtain ⟨⟨a, halt⟩, w'⟩ := tried
      cases halt with
      | some halt =>
        refine ⟨[a.cutOff halt], attempts_run_closeEarly .., Or.inl ⟨?_, rfl⟩⟩
        simp
      | none =>
        obtain ⟨new, hnew, hends⟩ := ih { h with attempts := h.attempts ++ [a] } w'
        have hassoc : ∀ tail, h.attempts ++ [a] ++ tail = h.attempts ++ a :: tail :=
          fun tail => (List.append_cons h.attempts a tail).symm
        refine ⟨a :: new, hnew.trans (hassoc new), ?_⟩
        rcases hends with ⟨hlength, hsame⟩ | ⟨hlength, more, hmore⟩
        · exact Or.inl ⟨Nat.succ_le_succ hlength, hsame⟩
        · refine Or.inr ⟨congrArg Nat.succ hlength, more, ?_⟩
          rw [hmore, hassoc new]

/-- The rules of a scan with further ones begin with those of the first. -/
theorem rulesFor_append (s : Settings) (rs rs' : Rules) (h : HostRecord) :
    ∃ later, ({ s with rules := rs ++ rs' } : Settings).rulesFor h =
      ({ s with rules := rs } : Settings).rulesFor h ++ later := by
  unfold Settings.rulesFor
  rw [List.map_append, List.zipIdx_append]
  exact ⟨_, rfl⟩

/-- What a record says of its `n` rules, another one says as well. -/
structure HostRecord.Extends (n : Nat) (h h' : HostRecord) : Prop where
  banner : h'.banner = h.banner
  attempts : h.attempts = h'.attempts.take n

theorem HostRecord.Extends.of_length_le {n : Nat} {h : HostRecord} (hlength : h.attempts.length ≤ n) :
    h.Extends n h :=
  ⟨rfl, (List.take_of_length_le hlength).symm⟩

theorem tryRules_extends (s : Settings) (p : Peer) (later rules : List (Rule × Nat))
    {h : HostRecord} (hnone : h.attempts = []) (w : World) :
    ((tryRules s rules h).run p w).1.Extends rules.length
      ((tryRules s (rules ++ later) h).run p w).1 := by
  obtain ⟨new, hnew, hends⟩ := run_tryRules_append s p later rules h w
  rw [hnone, List.nil_append] at hnew hends
  rcases hends with ⟨hlength, hsame⟩ | ⟨hlength, more, hmore⟩
  · rw [hsame]
    apply HostRecord.Extends.of_length_le
    rw [hnew]
    exact hlength
  · refine ⟨by rw [banner_run_tryRules, banner_run_tryRules], ?_⟩
    rw [hnew, hmore, List.take_left' hlength]

theorem converse_extends (s : Settings) (rs rs' : Rules) {h : HostRecord} (hnone : h.attempts = [])
    (p : Peer) (w : World) :
    ((converse { s with rules := rs } h).run p w).1.Extends rs.length
      ((converse { s with rules := rs ++ rs' } h).run p w).1 := by
  have hclosed : ∀ halt w', ((closeEarly s.readTimeout h halt).run p w').1.Extends rs.length
      ((closeEarly s.readTimeout h halt).run p w').1 := by
    intro halt w'
    apply HostRecord.Extends.of_length_le
    rw [attempts_run_closeEarly, hnone]
    exact Nat.zero_le _
  simp only [converse, Dialogue.run_bind, Dialogue.run_isCancelled]
  cases w.cancelled with
  | true => exact hclosed ..
  | false =>
    simp only [Dialogue.run_bind]
    generalize (hear .banner s.readTimeout).run p w = heard
    obtain ⟨out, w'⟩ := heard
    cases out with
    | error halt => exact hclosed ..
    | ok r =>
      obtain ⟨later, hlater⟩ := rulesFor_append s rs rs' h
      have hlength : (({ s with rules := rs } : Settings).rulesFor h).length = rs.length := by
        simp [Settings.rulesFor]
      have hgreeted : ({ h with banner := some r } : HostRecord).attempts = [] := hnone
      simp only [tryRules_setRules, hlater]
      rw [← hlength]
      exact tryRules_extends s p later _ hgreeted w'

theorem contact_extends (s : Settings) (rs rs' : Rules) {h : HostRecord} (hnone : h.attempts = [])
    (p : Peer) (w : World) :
    ((contact { s with rules := rs } h).run p w).1.Extends rs.length
      ((contact { s with rules := rs ++ rs' } h).run p w).1 := by
  simp only [contact, Dialogue.run_bind]
  generalize (Dialogue.connectTo h.address s.port s.connectTimeout s.readTimeout).run p w = opened
  obtain ⟨out, w'⟩ := opened
  cases out with
  | error e =>
    apply HostRecord.Extends.of_length_le
    simp [hnone]
  | ok u =>
    have hopened : ({ h with smtpOpen := true } : HostRecord).attempts = [] := hnone
    exact converse_extends s rs rs' hopened p w'

/-- **Verdicts do not depend on later rules.** Whatever the peer does, and whenever it cancels the
scan, a check with further rules reads the same banner, and its first attempts are those of the
check without them: as many as there are rules, unless that check could not connect, broke, or was
cut short. -/
theorem verdicts_extend (s : Settings) (rs rs' : Rules) (p : Peer) (index : Nat) (address : Address)
    (cancelled : Bool) :
    let h := ({ s with rules := rs } : Settings).recordOf p index address cancelled
    let h' := ({ s with rules := rs ++ rs' } : Settings).recordOf p index address cancelled
    h'.banner = h.banner ∧ h.attempts <+: h'.attempts ∧
      h.attempts = h'.attempts.take rs.length ∧
      (h.smtpOpen = true → h.fatal = false → h.cancelled = false →
        h.attempts.length = rs.length) := by
  intro h h'
  have hextends : h.Extends rs.length h' := by
    show HostRecord.Extends rs.length ((checkHost _ index address).run p _).1
      ((checkHost _ index address).run p _).1
    simp only [checkHost, Dialogue.run_bind, Dialogue.run_isCancelled]
    cases cancelled with
    | true => exact .of_length_le (Nat.zero_le _)
    | false =>
      simp only [Dialogue.run_bind]
      obtain ⟨es, -, hi⟩ := identify_follows s { index, address } p { cancelled := false }
      exact contact_extends s rs rs' hi.attempts_eq p _
  refine ⟨hextends.banner, ?_, hextends.attempts, fun hopen hfatal hcancelled => ?_⟩
  · rw [hextends.attempts]
    exact List.take_prefix _ _
  · obtain ⟨c', hc⟩ := ({ s with rules := rs } : Settings).checks p index address cancelled
    have hrules := congrArg List.length (hc.completed hopen hfatal hcancelled).rules
    rw [List.length_map] at hrules
    rw [hrules]
    simp [Settings.rulesFor]

end OpenRelay
