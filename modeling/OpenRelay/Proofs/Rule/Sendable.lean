import OpenRelay.Proofs.Conversation.Envelope
import OpenRelay.Proofs.Rule.Placeholder
import OpenRelay.Proofs.Text.Blank
import OpenRelay.Smtp.Hostname

/-!
# When an expanded rule can be sent

A rule is looked at before its macros are replaced. What becomes of it for a host can be sent as
well, with one exception: a name that is blank, as that of the root of all names is without its
dot, leaves nothing of a field that says nothing but the name of the host.

* `HostOnly`: the templates with nothing but blanks and macros for the host name.
* `Bindings.isBlank_apply_iff`: these turn blank for a host with a blank name, and no others do.
* `expanded_sendable_iff`: so it is with rules, and with the commands that are sent.
* `blank_helo_sent`: a rule that was accepted, and a `HELO` that names nobody.
-/

namespace OpenRelay

/-! ## Blanks and macros for the host -/

namespace Text

variable {pattern value cs : List Char}

/-- Replacing what can be seen by what can be seen leaves a text blank or not. -/
theorem allBlank_replaceAll_iff (hpattern : ¬ AllBlank pattern) (hvalue : ¬ AllBlank value) :
    AllBlank (replaceAll pattern value cs) ↔ AllBlank cs := by
  have hne : pattern ≠ [] := by
    rintro rfl
    exact hpattern fun c hc => absurd hc List.not_mem_nil
  exact replaceAll_iff hne (fun _ h hocc => hpattern (h.part hocc))
    fun _ h hocc => hvalue (h.part hocc)

end Text

open Text (AllBlank)

theorem Rule.isBlank_iff {s : String} : Rule.isBlank s = true ↔ AllBlank s.toList :=
  List.all_eq_true

/-- A text of blanks and macros for the host name. -/
inductive HostOnly : List Char → Prop where
  | nil : HostOnly []
  | blank {c : Char} {cs : List Char} (hc : Text.isBlank c = true) (h : HostOnly cs) :
      HostOnly (c :: cs)
  | host {cs : List Char} (h : HostOnly cs) : HostOnly (Placeholder.host.spelling.toList ++ cs)

namespace HostOnly

variable {pattern value cs : List Char}

theorem of_mem {c : Char} (h : HostOnly cs) (hc : c ∈ cs) :
    Text.isBlank c = true ∨ c ∈ Placeholder.host.spelling.toList := by
  induction h with
  | nil => exact absurd hc List.not_mem_nil
  | blank hblank _ ih =>
    rcases List.mem_cons.1 hc with rfl | hc
    · exact .inl hblank
    · exact ih hc
  | host _ ih =>
    rcases List.mem_append.1 hc with hc | hc
    · exact .inr hc
    · exact ih hc

/-- A character that is not blank and not of the macro does not stand in such a text. -/
theorem not_mem {c : Char} (hseen : Text.isBlank c = false)
    (hother : c ∉ Placeholder.host.spelling.toList) (h : HostOnly cs) : c ∉ cs := by
  intro hc
  rcases h.of_mem hc with hblank | hhost
  · rw [hseen] at hblank
    cases hblank
  · exact hother hhost

/-- The macros of the address do not stand in such a text, nor does what they stand for: one has a
letter `p`, and the other a dot. -/
theorem replaceAll_iff (hpattern : 'p' ∈ pattern) (hvalue : '.' ∈ value) :
    HostOnly (Text.replaceAll pattern value cs) ↔ HostOnly cs := by
  refine Text.replaceAll_iff (List.ne_nil_of_mem hpattern) ?_ ?_
  · exact fun cs h hocc => h.not_mem (by decide) (by decide) (hocc.subset hpattern)
  · exact fun cs h hocc => h.not_mem (by decide) (by decide) (hocc.subset hvalue)

/-- **Such a text is one that a blank name makes blank.** -/
theorem iff_replaceAll_blank (hvalue : AllBlank value) :
    HostOnly cs ↔ AllBlank (Text.replaceAll Placeholder.host.spelling.toList value cs) := by
  have hne := Placeholder.spelling_ne_nil .host
  constructor
  · intro h
    induction h with
    | nil => exact fun c hc => absurd hc List.not_mem_nil
    | @blank c cs hc _ ih =>
      -- a macro does not open with a blank
      have hpre : ¬ Placeholder.host.spelling.toList <+: c :: cs := by
        intro hpre
        obtain ⟨rfl, -⟩ := List.cons_prefix_cons.1 hpre
        exact absurd hc (by decide)
      rw [Text.replaceAll_copied hpre]
      exact List.forall_mem_cons.2 ⟨hc, ih⟩
    | host _ ih =>
      rw [Text.replaceAll_found hne]
      exact List.forall_mem_append.2 ⟨hvalue, ih⟩
  · intro h
    induction cs using Text.scan_induction hne with
    | nil => exact .nil
    | found rest ih =>
      rw [Text.replaceAll_found hne] at h
      exact .host (ih (List.forall_mem_append.1 h).2)
    | copied c cs hpre ih =>
      rw [Text.replaceAll_copied hpre] at h
      obtain ⟨hc, hcs⟩ := List.forall_mem_cons.1 h
      exact .blank hc (ih hcs)

end HostOnly

/-! ## Templates -/

theorem Placeholder.not_allBlank (m : Placeholder) : ¬ AllBlank m.spelling.toList := by
  cases m <;> decide

theorem Text.AllBlank.not_dot {cs : List Char} (h : AllBlank cs) : '.' ∉ cs :=
  h.not_mem (by decide)

/-- An address and its literal have a dot. -/
theorem Address.dot_mem (x : Address) : '.' ∈ x.toString.toList ∧ '.' ∈ x.literal.toList := by
  have hdot := (Tame.address_chars x).1
  refine ⟨hdot, ?_⟩
  simp only [Address.literal, String.toList_append, List.mem_append]
  exact .inl (.inr hdot)

/-- The halves of a mailbox can be seen: what is blank is foreign. -/
theorem Mailbox.Usable.not_allBlank {m : Mailbox} (hm : m.Usable) :
    ¬ AllBlank m.name.toList ∧ ¬ AllBlank m.domain.toList := by
  have hseen : ∀ cs : List Char, cs ≠ [] → (∀ c ∈ cs, isForeign c = false) → ¬ AllBlank cs := by
    intro cs hne hplain hblank
    obtain ⟨c, hc⟩ := List.exists_mem_of_ne_nil cs hne
    have hforeign := hplain c hc
    rw [isForeign, hblank c hc] at hforeign
    cases hforeign
  exact ⟨hseen _ hm.name_ne_nil hm.name_plain, hseen _ hm.domain_ne_nil hm.domain_plain⟩

namespace Bindings

variable {b : Bindings} {cs : List Char} {template : String}

/-- What stands for the mailbox leaves a text blank or not. -/
theorem allBlank_mailboxSubstitutions (hm : ∀ m ∈ b.mailbox, m.Usable) :
    AllBlank (b.mailboxSubstitutions.foldl
      (fun cs (spelling, value) => Text.replaceAll spelling.toList value.toList cs) cs) ↔
      AllBlank cs := by
  cases hmailbox : b.mailbox with
  | none =>
    rw [mailboxSubstitutions, hmailbox]
    rfl
  | some m =>
    obtain ⟨hname, hdomain⟩ := (hm m hmailbox).not_allBlank
    rw [mailboxSubstitutions_some hmailbox,
      Text.allBlank_replaceAll_iff (Placeholder.not_allBlank .dashedDomain) hdomain,
      Text.allBlank_replaceAll_iff (Placeholder.not_allBlank .domain) hdomain,
      Text.allBlank_replaceAll_iff (Placeholder.not_allBlank .dashedName) hname,
      Text.allBlank_replaceAll_iff (Placeholder.not_allBlank .name) hname]

/-- **When an expanded template is blank**, if the template is not: the host has a blank name, and
the template says nothing but that. -/
theorem isBlank_apply_iff (hm : ∀ m ∈ b.mailbox, m.Usable)
    (htemplate : Rule.isBlank template = false) : Rule.isBlank (b.apply template) = true ↔
      (∃ name ∈ b.hostname, Rule.isBlank name = true) ∧ HostOnly template.toList := by
  obtain ⟨haddress, hliteral⟩ := b.address.dot_mem
  rw [Rule.isBlank_iff, toList_apply, applyAll_eq_host, allBlank_mailboxSubstitutions hm]
  by_cases hhost : AllBlank b.host.toList
  · -- the literal of a host without a name has a dot, so the blank is a name
    have hname : ∃ name ∈ b.hostname, Rule.isBlank name = true := by
      cases hname : b.hostname with
      | none =>
        rw [host, hname] at hhost
        exact absurd hliteral hhost.not_dot
      | some name =>
        rw [host, hname] at hhost
        exact ⟨name, rfl, Rule.isBlank_iff.2 hhost⟩
    rw [← HostOnly.iff_replaceAll_blank hhost, and_iff_right hname,
      HostOnly.replaceAll_iff (by decide) haddress, HostOnly.replaceAll_iff (by decide) hliteral]
  · -- every value can be seen, and so can the template
    refine iff_of_false ?_ ?_
    · rw [Text.allBlank_replaceAll_iff (Placeholder.not_allBlank .host) hhost,
        Text.allBlank_replaceAll_iff (Placeholder.not_allBlank .address)
          fun h => h.not_dot haddress,
        Text.allBlank_replaceAll_iff (Placeholder.not_allBlank .literal)
          fun h => h.not_dot hliteral,
        ← Rule.isBlank_iff, htemplate]
      exact Bool.false_ne_true
    · rintro ⟨⟨name, hname, hblank⟩, -⟩
      rw [host, hname] at hhost
      exact hhost (Rule.isBlank_iff.1 hblank)

end Bindings

/-! ## Rules -/

/-- A rule that announces or addresses nothing but the name of the host. -/
def Rule.NamesOnlyHost (r : Rule) : Prop :=
  ∃ f ∈ [Field.helo, .rcptTo], HostOnly (r.get f).toList

/-- **When an expanded rule can be sent**, if the rule could. -/
theorem Rule.fault?_expand_iff {r : Rule} {b : Bindings} (hr : r.fault? = none) (hb : b.OneLine)
    (hm : ∀ m ∈ b.mailbox, m.Usable) : (r.expand b).fault? = none ↔
      ¬ ((∃ name ∈ b.hostname, isBlank name = true) ∧ r.NamesOnlyHost) := by
  obtain ⟨hline, hhelo, hrcptTo⟩ := fault?_eq_none_iff.1 hr
  rw [fault?_eq_none_iff, iff_true_intro (oneLine_expand hline hb), true_and,
    ← Bool.not_eq_true, ← Bool.not_eq_true, ← not_or, not_iff_not]
  simp only [NamesOnlyHost, List.exists_mem_cons_iff, List.not_mem_nil, false_and, exists_false,
    or_false]
  rw [and_or_left]
  exact or_congr (Bindings.isBlank_apply_iff hm hhelo) (Bindings.isBlank_apply_iff hm hrcptTo)

/-- Small letters and no final dots bring no line break in. -/
theorem Hostname.oneLine_normalize {name : String} (h : OneLine name) :
    OneLine (Hostname.normalize name) := by
  rw [oneLine_iff] at h ⊢
  have hlower : ∀ c : Char, c ≠ '\r' ∧ c ≠ '\n' → c.toLower ≠ '\r' ∧ c.toLower ≠ '\n' := by
    intro c hc
    unfold Char.toLower
    split
    · rename_i hupper
      -- small letters stand far behind the line breaks
      have hle : c.toNat ≤ 90 := UInt32.le_iff_toNat_le.1 hupper.2
      have hge : 65 ≤ c.toNat := UInt32.le_iff_toNat_le.1 hupper.1
      constructor
      · intro heq
        have hnat := congrArg Char.toNat heq
        simp at hnat
        omega
      · intro heq
        have hnat := congrArg Char.toNat heq
        simp at hnat
        omega
    · exact hc
  intro c hc
  rw [normalize, String.toList_ofList] at hc
  obtain ⟨d, hd, rfl⟩ := List.mem_map.1 hc
  have hmem := (List.dropWhile_sublist _).subset (List.mem_reverse.1 hd)
  exact hlower d (h d (List.mem_reverse.1 hmem))

/-- **Expanded rules can be sent, unless the name of the host is blank** and the rule announces or
addresses nothing but that name; otherwise no command announces or addresses a blank. Names come
from reverse look-ups, and mailboxes are read. -/
theorem expanded_sendable_iff {ptr : Option String} {mailbox : Option Mailbox}
    (hptr : ∀ name ∈ ptr, OneLine name)
    (hmailbox : ∀ m ∈ mailbox, ∃ text, Mailbox.read? text = .ok m) (address : Address) :
    let b : Bindings := { address, hostname := ptr.map Hostname.normalize, mailbox }
    (∀ r : Rule, r.fault? = none → ((r.expand b).fault? = none ↔
      ¬ ((∃ name ∈ b.hostname, Rule.isBlank name = true) ∧ r.NamesOnlyHost))) ∧
    ∀ (s : Settings) (p : Peer) (index : Nat) (cancelled : Bool),
      (∀ r ∈ s.rules, r.fault? = none) → s.mailbox = mailbox →
      (s.recordOf p index address cancelled).hostname = b.hostname →
      ∀ line ∈ sentLines (s.logOf p index address cancelled), ∀ f ∈ [Field.helo, .rcptTo],
        Stage.ofLine? line = some f.stage →
        ∃ r ∈ s.rules, line = (r.expand b).line f.stage ∧
          (Rule.isBlank ((r.expand b).get f) = true ↔
            (∃ name ∈ b.hostname, Rule.isBlank name = true) ∧ HostOnly (r.get f).toList) := by
  intro b
  have husable : ∀ m ∈ b.mailbox, m.Usable := by
    intro m hm
    obtain ⟨text, hread⟩ := hmailbox m hm
    exact Mailbox.usable_of_read? hread
  have hb : b.OneLine := by
    refine ⟨?_, fun m hm => (husable m hm).oneLine⟩
    intro name hname
    obtain ⟨found, hfound, rfl⟩ := Option.map_eq_some_iff.1 hname
    exact Hostname.oneLine_normalize (hptr found hfound)
  refine ⟨fun r hr => Rule.fault?_expand_iff hr hb husable, ?_⟩
  intro s p index cancelled hrules hsame hname line hmem f hf hline
  obtain ⟨r, hr, heq⟩ := sent_field hmem hline
  rw [hname, hsame] at heq
  refine ⟨r, hr, heq, ?_⟩
  obtain ⟨-, hhelo, hrcptTo⟩ := Rule.fault?_eq_none_iff.1 (hrules r hr)
  have hfield : Rule.isBlank (r.get f) = false := by
    simp only [List.mem_cons, List.not_mem_nil, or_false] at hf
    rcases hf with rfl | rfl
    · exact hhelo
    · exact hrcptTo
  rw [Rule.get_expand]
  exact Bindings.isBlank_apply_iff husable hfield

/-- A server that has a name and accepts every command. -/
def acceptsAs (name : String) : Script :=
  { acceptsAll with lookUp := { value := .named (Hostname.normalize name) } }

/-- A server whose name is not blank, by a rule with a field that is nothing but the name. -/
theorem expanded_sendable_named :
    let b : Bindings :=
      { address := ⟨192, 0, 2, 1⟩, hostname := some "mx.example"
        mailbox := some ⟨"n", "example.org"⟩ }
    let r : Rule := { helo := "\x7bhost\x7d", mailFrom := "", rcptTo := "\x7bname\x7d@\x7bip\x7d" }
    let s : Settings := { rules := [r], resolveHostnames := true, mailbox := b.mailbox }
    (r.expand b).fault? = none ∧
      "HELO mx.example" ∈ sentLines (s.logOf (acceptsAs "MX.example.").peer 0 b.address false) ∧
      Rule.isBlank ((r.expand b).get .helo) = false := by
  intro b r s
  have hptr : ∀ name ∈ some "MX.example.", OneLine name := by
    rintro _ ⟨⟩
    decide
  have hmailbox : ∀ m ∈ b.mailbox, ∃ text, Mailbox.read? text = .ok m := by
    rintro _ ⟨⟩
    exact ⟨"n@example.org", by rfl⟩
  have hname : (some "MX.example.").map Hostname.normalize = b.hostname := by decide +kernel
  have hseen : ¬ ∃ name ∈ b.hostname, Rule.isBlank name = true := by
    rintro ⟨_, ⟨⟩, hblank⟩
    revert hblank
    decide
  have hr : r.fault? = none := by decide
  obtain ⟨hrule, hsent⟩ := expanded_sendable_iff hptr hmailbox b.address
  rw [hname] at hrule hsent
  have hmem : "HELO mx.example" ∈
      sentLines (s.logOf (acceptsAs "MX.example.").peer 0 b.address false) := by decide +kernel
  obtain ⟨r', hr', -, hblank⟩ := hsent s _ 0 false (List.forall_mem_singleton.2 hr) rfl
    (by decide +kernel) _ hmem .helo (.head _) (by decide)
  obtain rfl := List.mem_singleton.1 hr'
  exact ⟨(hrule r hr).2 fun h => hseen h.1, hmem,
    Bool.eq_false_iff.2 fun h => hseen (hblank.1 h).1⟩

/-- **A name that is blank** without its dot: the rule was accepted, and `HELO` names nobody. -/
theorem blank_helo_sent :
    let r : Rule := { helo := "\x7bhost\x7d", mailFrom := "", rcptTo := "c@d.test" }
    let s : Settings := { rules := [r], resolveHostnames := true }
    let x : Address := ⟨192, 0, 2, 1⟩
    r.fault? = none ∧
      (r.expand { address := x, hostname := some (Hostname.normalize ".") }).fault? =
        some (.blankField .helo) ∧
      "HELO " ∈ sentLines (s.logOf (acceptsAs ".").peer 0 x false) := by
  refine ⟨by decide +kernel, by decide +kernel, by decide +kernel⟩

end OpenRelay
