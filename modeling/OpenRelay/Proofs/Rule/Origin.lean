import OpenRelay.Command.Configure
import OpenRelay.Proofs.Conversation.Injection

/-!
# Where rules come from

Rules are listed, read from a file, or built in. Those that are listed or read are looked at one by
one. The built-in ones are put together around a domain, and nothing looks at that: neither the
set itself, nor the settings that hold it.

* `RuleOrigin.faultless_iff`: the rules of an origin can all be sent, unless they are built around
  a domain with a line break.
* `Arguments.oneLine_iff`: so it is with the settings that a command line asks for.
* `accepted_oneLine_iff`: so it is with accepted settings, wherever they come from.
* `line_break_accepted`: a command line whose domain has a line break is accepted.
-/

namespace OpenRelay

variable {r : Rule} {rs : Rules} {n d : String}

/-! ## Rules that are looked at -/

/-- A rule that was read can be sent. -/
theorem Rule.fault?_of_read {cs : List Char} (h : Rule.read cs = .ok r) : r.fault? = none := by
  unfold Rule.read at h
  split at h
  · dsimp only at h
    split at h
    · cases h
    · rename_i hfault
      cases h
      exact hfault
  · cases h

namespace Rules

theorem faultFrom?_eq_none_iff {number : Nat} :
    rs.faultFrom? number = none ↔ ∀ r ∈ rs, r.fault? = none := by
  induction rs generalizing number with
  | nil => simp [faultFrom?]
  | cons r rs ih =>
    rw [faultFrom?, List.forall_mem_cons]
    cases hr : r.fault? with
    | none => simpa using ih
    | some e => simp

/-- Rules that were listed can be sent. -/
theorem fault?_of_ofList {rs' : List Rule} (h : Rules.ofList rs' = .ok rs) :
    ∀ r ∈ rs, r.fault? = none := by
  unfold Rules.ofList at h
  split at h
  · cases h
  · rename_i hfault
    cases h
    exact faultFrom?_eq_none_iff.1 hfault

theorem fault?_of_readLines {lines : List (List Char)} {number : Nat}
    (h : Rules.readLines number lines = .ok rs) : ∀ r ∈ rs, r.fault? = none := by
  induction lines generalizing number rs with
  | nil => cases h; simp
  | cons line lines ih =>
    rw [readLines] at h
    split at h
    · exact ih h
    · split at h
      · rename_i r hread
        cases hrest : readLines (number + 1) lines with
        | error e => rw [hrest] at h; cases h
        | ok rest =>
          rw [hrest] at h
          cases h
          exact List.forall_mem_cons.2 ⟨Rule.fault?_of_read hread, ih hrest⟩
      · cases h

/-- The rules of a file can be sent. -/
theorem fault?_of_read {text : String} (h : Rules.read text = .ok rs) :
    ∀ r ∈ rs, r.fault? = none := by
  unfold Rules.read at h
  split at h
  · cases h
  · exact fault?_of_readLines h

end Rules

/-! ## Rules that are built in -/

theorem Rule.isBlank_append (s s' : String) :
    Rule.isBlank (s ++ s') = (Rule.isBlank s && Rule.isBlank s') := by
  simp [Rule.isBlank]

theorem Rule.oneLine_mk {helo mailFrom rcptTo : String} : (Rule.mk helo mailFrom rcptTo).OneLine ↔
    OpenRelay.OneLine helo ∧ OpenRelay.OneLine mailFrom ∧ OpenRelay.OneLine rcptTo :=
  ⟨fun h => ⟨h.helo, h.mailFrom, h.rcptTo⟩, fun h => ⟨h.1, h.2.1, h.2.2⟩⟩

/-- **The classic attempts can be sent exactly if their domain has no line break.** -/
theorem Rules.classic_faultless_iff (hn : OneLine n) :
    (∀ r ∈ Rules.classic n d, r.fault? = none) ↔ OneLine d := by
  -- what stands around the name and the domain breaks no line, and is not blank
  have hplain : ∀ word ∈ ["relaytest.invalid", "\x7bhost\x7d", "", "probe@", "postmaster", "@", "%",
      "!", "\"", "@\x7bip_literal\x7d"], OneLine word := by decide
  have hblank : ∀ word ∈ ["relaytest.invalid", "\x7bhost\x7d", "@", "@\x7bip_literal\x7d"],
      Rule.isBlank word = false := by decide
  simp only [List.forall_mem_cons] at hplain hblank
  simp only [Rules.classic, List.forall_mem_cons, Rule.fault?_eq_none_iff, Rule.oneLine_mk,
    oneLine_append, Rule.isBlank_append, hplain, hblank, hn]
  simp

/-! ## Origins -/

/-- The ways in which a set of rules comes about. -/
inductive RuleOrigin where
  | listed (rules : List Rule)
  | file (text : String)
  /-- The classic attempts against a domain. -/
  | standard (domain : String)
  /-- The classic attempts addressed to the mailbox of the scan. -/
  | standardMailbox

/-- The rules, unless they are refused. -/
def RuleOrigin.rules : RuleOrigin → Except RuleError Rules
  | .listed rs => Rules.ofList rs
  | .file text => Rules.read text
  | .standard domain => .ok (Rules.standard domain)
  | .standardMailbox => .ok Rules.standardMailbox

/-- Whether the text that nothing looks at, if there is one, has no line break. -/
def RuleOrigin.OneLine : RuleOrigin → Prop
  | .standard domain => OpenRelay.OneLine domain
  | _ => True

/-- **The rules of an origin can all be sent**, unless they are built around a domain with a line
break. -/
theorem RuleOrigin.faultless_iff {o : RuleOrigin} (h : o.rules = .ok rs) :
    (∀ r ∈ rs, r.fault? = none) ↔ o.OneLine := by
  cases o with
  | listed rs' => exact iff_true_intro (Rules.fault?_of_ofList h)
  | file text => exact iff_true_intro (Rules.fault?_of_read h)
  | standard domain =>
    cases h
    exact Rules.classic_faultless_iff (by decide)
  | standardMailbox =>
    cases h
    exact iff_true_intro ((Rules.classic_faultless_iff (by decide)).2 (by decide))

/-! ## Command lines -/

namespace Arguments

variable {a : Arguments} {files : Files} {s : Settings}

/-- Where the rules of a command line come from. -/
theorem exists_origin (h : a.rules files = .ok rs) : ∃ o : RuleOrigin, o.rules = .ok rs ∧
    (o.OneLine ↔ (a.rulesFile = none → a.relayAddress = none → OneLine a.externalDomain)) := by
  unfold rules at h
  split at h
  · rename_i path hfile
    cases htext : readText files "rules" path with
    | error e => rw [htext] at h; cases h
    | ok text =>
      rw [htext] at h
      refine ⟨.file text, ?_, by simp [RuleOrigin.OneLine, hfile]⟩
      show Rules.read text = .ok rs
      cases hread : Rules.read text with
      | error e => simp [bind, Except.bind, hread] at h
      | ok rs' => simpa [bind, Except.bind, hread] using h
  · rename_i hfile
    cases haddress : a.relayAddress with
    | some text =>
      simp only [haddress, Option.isSome_some, if_true] at h
      cases h
      exact ⟨.standardMailbox, rfl, by simp [RuleOrigin.OneLine]⟩
    | none =>
      simp only [haddress, Option.isSome_none, Bool.false_eq_true, if_false] at h
      cases h
      exact ⟨.standard a.externalDomain, rfl, by simp [RuleOrigin.OneLine, hfile]⟩

/-- What the settings of a command line are made of. -/
theorem of_settings (h : a.settings files = .ok s) : a.rules files = .ok s.rules ∧
    a.mailbox = .ok s.mailbox ∧ OneLine s.subject ∧ s.fault? = none := by
  unfold settings at h
  cases ht : a.targets files with
  | error e => rw [ht] at h; cases h
  | ok t =>
    cases hr : a.rules files with
    | error e => rw [ht, hr] at h; cases h
    | ok rs =>
      cases hm : a.mailbox with
      | error e => rw [ht, hr, hm] at h; cases h
      | ok m =>
        rw [ht, hr, hm] at h
        simp only [bind, Except.bind] at h
        split at h
        · cases h
        · rename_i hfault
          cases h
          exact ⟨rfl, rfl, (by decide : OneLine ({} : Settings).subject), hfault⟩

/-- A mailbox that a command line gives has no line breaks. -/
theorem oneLine_mailbox {given : Option Mailbox} (h : a.mailbox = .ok given) :
    ∀ m ∈ given, OneLine m.name ∧ OneLine m.domain := by
  unfold mailbox at h
  split at h
  · cases h
    simp
  · split at h
    · rename_i m hread
      cases h
      rintro _ ⟨⟩
      exact (Mailbox.usable_of_read? hread).oneLine
    · cases h

/-- **The settings of a command line put no line break into a line**, unless the classic attempts
are made against a domain with a line break. -/
theorem oneLine_iff (h : a.settings files = .ok s) :
    s.OneLine ↔ (a.rulesFile = none → a.relayAddress = none → OneLine a.externalDomain) := by
  obtain ⟨hrules, hmailbox, hsubject, -⟩ := of_settings h
  obtain ⟨o, ho, hdomain⟩ := exists_origin hrules
  rw [← hdomain, ← RuleOrigin.faultless_iff ho]
  exact ⟨fun hs => hs.rules, fun hs => ⟨hs, hsubject, oneLine_mailbox hmailbox⟩⟩

end Arguments

/-! ## Accepted settings -/

/-- The ways in which settings come about. -/
inductive Entrance where
  /-- They are put together around a set of rules. -/
  | library (rules : RuleOrigin)
  | commandLine (a : Arguments) (files : Files)

/-- Whether settings come in by an entrance and are accepted. -/
def Entrance.Accepts (s : Settings) : Entrance → Prop
  | .library o => o.rules = .ok s.rules ∧ s.fault? = none
  | .commandLine a files => a.settings files = .ok s

/-- Whether the texts that nothing looks at have no line break. A command line has no subject. -/
def Entrance.OneLine (subject : String) : Entrance → Prop
  | .library o => o.OneLine ∧ OpenRelay.OneLine subject
  | .commandLine a _ =>
    a.rulesFile = none → a.relayAddress = none → OpenRelay.OneLine a.externalDomain

/-- **Which accepted settings are free of line breaks**: those whose domain, if they have the
classic attempts against one, and whose subject have none. Everything else is looked at. -/
theorem accepted_oneLine_iff {s : Settings} {e : Entrance} (h : e.Accepts s) :
    ((∀ r ∈ s.rules, r.fault? = none) ∧ OneLine s.subject) ↔ e.OneLine s.subject := by
  cases e with
  | library o => exact and_congr_left' (RuleOrigin.faultless_iff h.1)
  | commandLine a files =>
    have hiff := Arguments.oneLine_iff h
    obtain ⟨-, hmailbox, -⟩ := Arguments.of_settings h
    exact ⟨fun ⟨hrules, hsubject⟩ => hiff.1 ⟨hrules, hsubject, Arguments.oneLine_mailbox hmailbox⟩,
      fun hdomain => ⟨(hiff.2 hdomain).rules, (hiff.2 hdomain).subject⟩⟩

/-- Rules of a file, for a mailbox: the domain does not matter. -/
theorem oneLine_from_file :
    let a : Arguments :=
      { targetsFile := some "targets", rulesFile := some "rules"
        relayAddress := some "n@example.org", externalDomain := "example.net\r\nRSET" }
    let files : Files := fun path =>
      .ok (Text.Utf8.encode (if path = "rules" then "a||\x7bname\x7d@b" else "192.0.2.1").toList)
    let s : Settings :=
      { targets := .list [⟨192, 0, 2, 1⟩], rules := [⟨"a", "", "\x7bname\x7d@b"⟩]
        mailbox := some ⟨"n", "example.org"⟩, sendData := true }
    a.settings files = .ok s ∧ (∀ r ∈ s.rules, r.fault? = none) ∧ OneLine s.subject := by
  intro a files s
  have hs : (Entrance.commandLine a files).Accepts s := by rfl
  exact ⟨hs, (accepted_oneLine_iff hs).2 nofun⟩

/-- **A line break is let through.** -/
theorem line_break_accepted :
    let a : Arguments := { range := some "192.0.2.1", externalDomain := "example.net\r\nRSET" }
    ∃ s, a.settings (fun _ => .error "") = .ok s ∧ s.fault? = none ∧
      ∃ r ∈ s.rules, r.fault? = some (.lineBreak .mailFrom) :=
  ⟨_, rfl, by decide +kernel, _, .head _, by decide +kernel⟩

end OpenRelay
