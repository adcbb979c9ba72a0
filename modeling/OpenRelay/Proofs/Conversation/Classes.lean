import OpenRelay.Proofs.Conversation.Failures

/-!
# The classes of hosts

Several fields of a record say how the check went. They are set on different ways out of it, some of
them in the middle of the rules, but only five combinations come out.

* `HostClass`: the five ways in which a check can leave a host.
* `HostRecord.InClass`: what the record says for each of them.
* `HostRecord.Regular`: what the record says in any case.
* `host_classified`: a check leaves the host in exactly one of these ways.
-/

namespace OpenRelay

/-- The ways in which a check can leave a host. -/
inductive HostClass where
  /-- The scan was cancelled before anything was done. -/
  | skipped
  /-- No connection could be opened. -/
  | unreachable
  /-- The connection broke. -/
  | fatal
  /-- The scan was cancelled on an open connection. -/
  | interrupted
  /-- All rules were tried. -/
  | complete
deriving DecidableEq

variable {s : Settings} {address : Address} {index : Nat} {c c' : Bool} {es log : List Entry}
  {h h' : HostRecord} {k k' : HostClass} {timeout : Duration} {halt : Halt}
  {rules : List (Rule × Nat)}

/-- What a record says of a host that a check leaves in this way. The log tells why a connection
could not be opened. -/
inductive HostRecord.InClass (s : Settings) (log : List Entry) (h : HostRecord) :
    HostClass → Prop where
  | skipped (hcancelled : h.cancelled = true) (hclosed : h.smtpOpen = false) :
      h.InClass s log .skipped
  | unreachable {e : String} {flag : Bool} (hclosed : h.smtpOpen = false)
      (hcancelled : h.cancelled = false)
      (hlog : ⟨.connected h.address s.port s.connectTimeout s.readTimeout (.error e), flag⟩ ∈ log)
      (herror : h.error = some (Stage.connect.label ++ ": " ++ e)) : h.InClass s log .unreachable
  | fatal {stage : Stage} {e : String} (hopen : h.smtpOpen = true) (hfatal : h.fatal = true)
      (herror : h.error = some (toString (Failure.io stage e))) (hcancelled : h.cancelled = false)
      (hquit : h.quit = none) : h.InClass s log .fatal
  | interrupted (hopen : h.smtpOpen = true) (hcancelled : h.cancelled = true)
      (hfatal : h.fatal = false) (herror : h.error = none) : h.InClass s log .interrupted
  | complete (hopen : h.smtpOpen = true) (hfatal : h.fatal = false)
      (hcancelled : h.cancelled = false) (herror : h.error = none) (hbanner : h.banner.isSome = true)
      (hlength : h.attempts.length = s.rules.length)
      (hreset : ∀ a ∈ h.attempts, a.rset.isSome = true) : h.InClass s log .complete

theorem HostRecord.InClass.unique (hk : h.InClass s log k) (hk' : h.InClass s log k') : k = k' := by
  cases hk <;> cases hk' <;> simp_all

/-! ## Classes -/

/-- A record of a conversation that nothing has stopped. -/
structure HostRecord.Plain (h : HostRecord) : Prop where
  smtpOpen : h.smtpOpen = true
  fatal : h.fatal = false
  cancelled : h.cancelled = false
  error : h.error = none

/-- What stops a conversation: the connection breaks, or the scan is cancelled. -/
theorem Closes.classified {stage : Stage} (hc : Closes timeout h halt c es h' c')
    (hplain : h.Plain) (hquit : h.quit = none) (hat : halt.At stage) :
    h'.InClass s log .fatal ∨ h'.InClass s log .interrupted := by
  obtain ⟨hopen, hfatal, hcancelled, herror⟩ := hplain
  cases hc with
  | silently _ => exact Or.inr (.interrupted hopen rfl hfatal herror)
  | politely _ _ _ => exact Or.inr (.interrupted hopen rfl hfatal herror)
  | broken =>
    obtain h | ⟨e, h⟩ := hat
    · cases h
    · cases h
      exact Or.inl (.fatal hopen rfl rfl hcancelled hquit)

theorem Tries.halt_at {rule : Rule} {banner : Option Reply} {a : Attempt}
    (ht : Tries (s.stepsOf address index rule) s.resetStep { ruleIndex := index, rule, banner } c es
      (a, some halt) c') : ∃ stage, halt.At stage := by
  cases ht with
  | halted hp =>
    obtain ⟨-, stage, -, hat⟩ := hp.pursued.halted halt rfl
    exact ⟨stage, hat⟩
  | unreset _ hr => exact ⟨_, hr.halt_at⟩

theorem Hears.halt_at {stage : Stage} (hr : Hears stage timeout c es (.error halt) c') :
    halt.At stage := by
  cases hr
  exact Or.inr ⟨_, rfl⟩

/-- **The rules of a host** are tried to the end, or something stops the conversation. -/
theorem TriesAll.classified (ht : TriesAll s rules h c es h' c') (hplain : h.Plain)
    (hquit : h.quit = none) :
    h'.Plain ∨ h'.InClass s log .fatal ∨ h'.InClass s log .interrupted := by
  induction ht with
  | finished _ => exact Or.inl ⟨hplain.smtpOpen, hplain.fatal, hplain.cancelled, hplain.error⟩
  | cancelled hq => exact Or.inr (hq.classified hplain hquit (Or.inl rfl))
  | halted ht hq =>
    -- the attempt that was cut off is noted before the flags are set
    obtain ⟨stage, hat⟩ := ht.halt_at
    refine Or.inr (hq.classified ?_ hquit hat)
    exact ⟨hplain.smtpOpen, hplain.fatal, hplain.cancelled, hplain.error⟩
  | next _ _ ih =>
    exact ih ⟨hplain.smtpOpen, hplain.fatal, hplain.cancelled, hplain.error⟩ hquit

theorem Converses.classified (hc : Converses s h c es h' c') (hplain : h.Plain)
    (hquit : h.quit = none) :
    (h'.Plain ∧ h'.banner.isSome = true) ∨
      h'.InClass s log .fatal ∨ h'.InClass s log .interrupted := by
  cases hc with
  | cancelled hq => exact Or.inr (hq.classified hplain hquit (Or.inl rfl))
  | unheard hr hq => exact Or.inr (hq.classified hplain hquit hr.halt_at)
  | greeted hr ht =>
    have hbanner := ht.sameHost.2.2
    refine (ht.classified ?_ hquit).imp_left fun h => ⟨h, by rw [hbanner]; rfl⟩
    exact ⟨hplain.smtpOpen, hplain.fatal, hplain.cancelled, hplain.error⟩

/-- What is known of a host that was looked up. -/
theorem Identifies.plain (hi : Identifies s { index, address } c es h c') :
    { h with smtpOpen := true }.Plain ∧ h.quit = none ∧ h.smtpOpen = false ∧
      h.cancelled = false := by
  cases hi <;> exact ⟨⟨rfl, rfl, rfl, rfl⟩, rfl, rfl, rfl⟩

/-- **A check leaves the host in one of the classes.** -/
theorem Checks.classified (hc : Checks s index address c es h c') : ∃ k, h.InClass s es k := by
  have hcompleted := hc.completed
  cases hc with
  | skipped => exact ⟨_, .skipped rfl rfl⟩
  | unreachable hi _ =>
    obtain ⟨-, -, hclosed, hcancelled⟩ := hi.plain
    exact ⟨_, .unreachable hclosed hcancelled
      (List.mem_append_right _ (List.mem_singleton_self _)) rfl⟩
  | reached hi _ hconv =>
    obtain ⟨hplain, hquit, -⟩ := hi.plain
    rcases hconv.classified hplain hquit with ⟨hplain', hbanner⟩ | hfatal | hinterrupted
    · obtain ⟨hopen, hfatal, hcancelled, herror⟩ := hplain'
      obtain ⟨hrules, -, hreset⟩ := hcompleted hopen hfatal hcancelled
      have hlength := congrArg List.length hrules
      rw [List.length_map] at hlength
      refine ⟨_, .complete hopen hfatal hcancelled herror hbanner ?_ fun a ha => ?_⟩
      · simpa [Settings.rulesFor] using hlength
      · obtain ⟨r, hr⟩ := hreset a ha
        rw [hr]
        rfl
    · exact ⟨_, hfatal⟩
    · exact ⟨_, hinterrupted⟩

/-! ## What all classes have in common -/

/-- What a conversation keeps of a record. -/
structure HostRecord.Kept (h : HostRecord) : Prop where
  fatalError : h.fatalError = false
  visited : h.visited = false
  unheard : h.banner = none → h.attempts = []
  reset : ∀ a ∈ h.attempts.dropLast, a.rset.isSome = true

theorem HostRecord.Kept.of_attempts_eq_nil (hfatal : h.fatalError = false)
    (hvisited : h.visited = false) (hnone : h.attempts = []) : h.Kept where
  fatalError := hfatal
  visited := hvisited
  unheard _ := hnone
  reset := by simp [hnone]

theorem Closes.kept (hc : Closes timeout h halt c es h' c') (hk : h.Kept) : h'.Kept := by
  cases hc <;> exact ⟨hk.fatalError, hk.visited, hk.unheard, hk.reset⟩

/-- **Each rule keeps the record**, and only behind the last attempt `RSET` can be unanswered. -/
theorem TriesAll.kept (ht : TriesAll s rules h c es h' c') (hk : h.Kept) (hbanner : h.banner ≠ none)
    (hreset : ∀ a ∈ h.attempts, a.rset.isSome = true) : h'.Kept := by
  induction ht with
  | finished _ => exact ⟨hk.fatalError, hk.visited, hk.unheard, hk.reset⟩
  | cancelled hq => exact hq.kept hk
  | halted _ hq =>
    -- the attempt that was cut off is the last, and only the others have to be reset
    refine hq.kept ⟨hk.fatalError, hk.visited, fun hnone => absurd hnone hbanner, ?_⟩
    rwa [List.dropLast_concat]
  | next ht _ ih =>
    obtain ⟨-, r, hr⟩ := ht.decided rfl
    refine ih ⟨hk.fatalError, hk.visited, fun hnone => absurd hnone hbanner, ?_⟩ hbanner ?_
    · rwa [List.dropLast_concat]
    · refine List.forall_mem_append.2 ⟨hreset, List.forall_mem_singleton.2 ?_⟩
      rw [hr]
      rfl

theorem Converses.kept (hc : Converses s h c es h' c') (hk : h.Kept) (hnone : h.attempts = []) :
    h'.Kept := by
  cases hc with
  | cancelled hq => exact hq.kept hk
  | unheard _ hq => exact hq.kept hk
  | greeted _ ht =>
    refine ht.kept ⟨hk.fatalError, hk.visited, nofun, hk.reset⟩ nofun ?_
    simp [hnone]

theorem Checks.kept (hc : Checks s index address c es h c') : h.Kept := by
  cases hc with
  | skipped => exact .of_attempts_eq_nil rfl rfl rfl
  | unreachable hi _ => cases hi <;> exact .of_attempts_eq_nil rfl rfl rfl
  | reached hi _ hconv =>
    refine hconv.kept ?_ hi.attempts_eq
    cases hi <;> exact .of_attempts_eq_nil rfl rfl rfl

/-- Steps leave the replies of other stages as they are. -/
theorem Pursues.reply?_eq {steps : List Step} {a : Attempt} {out : Attempt × Option Halt}
    {stage : Stage} (hp : Pursues steps a c es out c')
    (hdeciding : ∀ x ∈ steps, x.stage ∈ Stage.deciding) (hother : stage ∉ Stage.deciding) :
    out.1.reply? stage = a.reply? stage := by
  have hne : ∀ {x}, x ∈ Stage.deciding → stage ≠ x := by
    rintro x hx rfl
    exact hother hx
  induction hp with
  | through => exact Attempt.reply?_setVerdict ..
  | halted _ => exact Attempt.reply?_noteRequest ..
  | refused _ _ =>
    have hst := hdeciding _ List.mem_cons_self
    rw [Attempt.reply?_setFailure, Attempt.reply?_answered _ hst, if_neg (hne hst)]
  | accepted _ _ _ ih =>
    have hst := hdeciding _ List.mem_cons_self
    rw [ih fun x hx => hdeciding x (List.mem_cons_of_mem _ hx), Attempt.reply?_answered _ hst,
      if_neg (hne hst)]

/-- Every attempt knows the banner of its host. -/
theorem Attempted.banner_eq {banner : Option Reply} {a : Attempt}
    (h : Attempted s address banner a es) : a.banner = banner := by
  obtain ⟨b, halt, c', ht, ha⟩ := h
  have hpursues : ∀ {out : Attempt × Option Halt} {c es c'},
      Pursues (s.stepsOf address a.ruleIndex a.rule)
        { ruleIndex := a.ruleIndex, rule := a.rule, banner } c es out c' →
      out.1.reply? .banner = banner := fun hp =>
    hp.reply?_eq (fun _ hx => stages_subset s (stage_mem_stages hx)) (by decide)
  have hbanner : b.reply? .banner = banner := by
    cases ht with
    | halted hp => exact hpursues hp
    | unreset hp _ => exact hpursues hp
    | reset hp _ => exact hpursues hp
  rw [ha]
  exact (Attempt.reply?_ended b halt .banner).trans hbanner

/-- What is true of the record of a check of any class. -/
structure HostRecord.Regular (s : Settings) (address : Address) (h : HostRecord) : Prop
    extends h.Kept where
  length_le : h.attempts.length ≤ s.rules.length
  /-- The attempts are made with the rules of the scan, expanded for the host, in their order. -/
  attempts : ∀ (i : Nat) (a : Attempt), h.attempts[i]? = some a →
    a.ruleIndex = i ∧ a.banner = h.banner ∧ ∃ rule : Rule, s.rules[i]? = some rule ∧
      a.rule = rule.expand { address, hostname := h.hostname, mailbox := s.mailbox }

theorem Checks.regular (hc : Checks s index address c es h c') : h.Regular s address := by
  obtain ⟨hall, hrules⟩ := hc.attempted
  have haddress : h.address = address := congrArg Prod.snd hc.place_eq
  have hbanner : ∀ a ∈ h.attempts, a.banner = h.banner :=
    ((List.forall₂_and_left _ _).1 (hall.imp fun _ _ ha => ⟨ha.banner_eq, ha⟩)).1
  refine ⟨hc.kept, ?_, fun i a ha => ?_⟩
  · simpa [Settings.rulesFor] using hrules.length_le
  · obtain ⟨hi, rfl⟩ := List.getElem?_eq_some_iff.1 ha
    have hrule := List.prefix_iff_getElem?.1 hrules i (by rwa [List.length_map])
    rw [List.getElem_map, Settings.rulesFor, List.getElem?_zipIdx, List.getElem?_map, haddress]
      at hrule
    cases hget : s.rules[i]? with
    | none => simp [hget] at hrule
    | some rule =>
      obtain ⟨hexpand, hindex⟩ : _ ∧ i = h.attempts[i].ruleIndex := by simpa [hget] using hrule
      exact ⟨hindex.symm, hbanner _ (List.getElem_mem hi), rule, rfl, hexpand.symm⟩

/-- **The classes of hosts.** Whatever the peer does, and whenever it cancels the scan, a check
leaves the host in exactly one of the classes. -/
theorem host_classified (s : Settings) (p : Peer) (index : Nat) (address : Address)
    (cancelled : Bool) :
    (∃! k, (s.recordOf p index address cancelled).InClass s (s.logOf p index address cancelled) k) ∧
      (s.recordOf p index address cancelled).Regular s address := by
  obtain ⟨c', h⟩ := s.checks p index address cancelled
  obtain ⟨k, hk⟩ := h.classified
  exact ⟨⟨k, hk, fun _ hk' => hk'.unique hk⟩, h.regular⟩

end OpenRelay
