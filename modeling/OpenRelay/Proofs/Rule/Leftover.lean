import OpenRelay.Proofs.Conversation.Envelope
import OpenRelay.Proofs.Rule.Fenced
import OpenRelay.Proofs.Rule.Trace

/-!
# What is left of the macros for the mailbox

The halves of a mailbox are put in as they are, and they are accepted with braces and dashes. So an
expanded rule can name the mailbox still: a half may hold a macro, or complete one together with the
text around it. Nothing else leaves a macro.

* `Mailbox.Clear`: the mailboxes whose halves no macro reaches into, in any rule.
* `Bindings.usesMailbox_clear`: with such a mailbox no macro for it is left.
* `mailbox_expanded`: what is left in rules, and in the commands that are sent.
* `mailbox_left`: a mailbox that is accepted, and leaves a macro.
-/

namespace OpenRelay

open Placeholder (ofMailbox)

/-! ## Mailboxes that no macro reaches into -/

/-- No occurrence of a macro for the mailbox reaches into what is put in, at the time when the macro
is replaced or later. -/
structure Mailbox.Clear (m : Mailbox) : Prop where
  name : ∀ p ∈ [Placeholder.name, .dashedName], Text.Inert p.spelling.toList m.name.toList
  domain : ∀ p ∈ ofMailbox, Text.Inert p.spelling.toList m.domain.toList

theorem Mailbox.Clear.of_tame {m : Mailbox} (hname : Tame m.name) (hdomain : Tame m.domain) :
    m.Clear :=
  ⟨fun p _ => hname.inert p, fun p _ => hdomain.inert p⟩

/-- **With such a mailbox no macro for it is left**, in any rule. -/
theorem Bindings.usesMailbox_clear {b : Bindings} {m : Mailbox} {template : String}
    (h : b.mailbox = some m) (hm : m.Clear) : Template.usesMailbox (b.apply template) = false := by
  rw [Template.usesMailbox_eq_false_iff, toList_apply, applyAll_eq_host,
    mailboxSubstitutions_some h]
  have hne := Placeholder.spelling_ne_nil
  have hdomain := hm.domain
  simp only [ofMailbox, List.forall_mem_cons] at hdomain ⊢
  obtain ⟨hname, hdomain, hdashedName, hdashedDomain, -⟩ := hdomain
  -- a macro is gone when it is replaced, and what is put in later does not bring it back
  refine ⟨?_, ?_, ?_, ?_, fun p hp => absurd hp List.not_mem_nil⟩
  · have hfirst := hm.name .name (.head _)
    refine hname.not_infix_replaceAll (hne _) (hname.not_infix_replaceAll (hne _) ?_)
    exact hfirst.not_infix_replaceAll (hne _) (hfirst.not_infix_replaced (hne _))
  · exact hdomain.not_infix_replaceAll (hne _) (hdomain.not_infix_replaced (hne _))
  · have hfirst := hm.name .dashedName (.tail _ (.head _))
    refine hdashedName.not_infix_replaceAll (hne _) (hdashedName.not_infix_replaceAll (hne _) ?_)
    exact hfirst.not_infix_replaced (hne _)
  · exact hdashedDomain.not_infix_replaced (hne _)

/-! ## Commands -/

/-- What stands around a field in its command completes no macro. -/
theorem Rule.usesMailbox_line (r : Rule) (f : Field) :
    Template.usesMailbox (r.line f.stage) = Template.usesMailbox (r.get f) := by
  have hopening : Tame f.opening := by
    cases f <;> decide +kernel
  have hclosing : f.closing.toList = [] ∨ f.closing.toList = ['>'] := by
    cases f <;> decide
  have hfence : Placeholder.isFence '>' = true := by decide +kernel
  have key : ∀ p : Placeholder, p.spelling.toList <:+: (r.line f.stage).toList ↔
      p.spelling.toList <:+: (r.get f).toList := by
    intro p
    rw [line_stage, String.toList_append, String.toList_append, List.append_assoc]
    constructor
    · intro hocc
      have hrest := (hopening.inert p).infix_of_append hocc
      rcases hclosing with hnil | hcons
      · rwa [hnil, List.append_nil] at hrest
      · rw [hcons, Text.infix_append_cons_iff (Placeholder.not_mem_of_isFence hfence p)] at hrest
        exact hrest.resolve_right fun h => p.spelling_ne_nil (List.infix_nil.1 h)
    · exact fun hocc => hocc.trans ((List.prefix_append _ _).isInfix.trans
        (List.suffix_append _ _).isInfix)
  rw [Bool.eq_iff_iff, ← not_iff_not, Bool.not_eq_true, Bool.not_eq_true,
    Template.usesMailbox_eq_false_iff, Template.usesMailbox_eq_false_iff]
  exact forall₂_congr fun p _ => not_congr (key p)

/-- A rule names the mailbox if a field does. -/
theorem Rule.usesMailbox_eq_false_iff {r : Rule} :
    r.usesMailbox = false ↔ ∀ f, Template.usesMailbox (r.get f) = false := by
  simp only [usesMailbox, List.any_cons, List.any_nil, Bool.or_false, Bool.or_eq_false_iff]
  constructor
  · rintro ⟨hhelo, hmailFrom, hrcptTo⟩ f
    cases f <;> assumption
  · exact fun h => ⟨h .helo, h .mailFrom, h .rcptTo⟩

/-! ## Rules -/

/-- What is left of the macros for a mailbox in an expanded rule. -/
structure Leftover (m : Mailbox) (r : Rule) (b : Bindings) : Prop where
  /-- Traced fields are the expanded ones. Every macro that is left in one holds a character that
  was put in. -/
  traced : ∀ f, (b.traced (r.get f).toList).map Glyph.char = ((r.expand b).get f).toList ∧
    ∀ p ∈ ofMailbox, ∀ shown, shown <:+: b.traced (r.get f).toList →
      shown.map Glyph.char = p.spelling.toList → ∃ g ∈ shown, g.isPut = true
  /-- None is left if no macro reaches into the mailbox, nor if the rule keeps its macros apart and
  no value holds one. -/
  none_left : m.Clear ∨ r.Fenced ∧ b.Unspoken → (r.expand b).usesMailbox = false

theorem Mailbox.Usable.leftover {m : Mailbox} {b : Bindings} (hm : m.Usable)
    (hb : b.mailbox = some m) (r : Rule) : Leftover m r b where
  traced f := by
    rw [Rule.get_expand]
    exact ⟨b.map_char_traced _, fun p hp shown => Bindings.put_of_traced hb hm hp⟩
  none_left h := by
    rw [Rule.usesMailbox_eq_false_iff]
    intro f
    rw [Rule.get_expand]
    rcases h with hclear | ⟨hfenced, hvalues⟩
    · exact Bindings.usesMailbox_clear hb hclear
    · exact hvalues.usesMailbox_fenced hb (hfenced f (by cases f <;> decide))

/-- **No macro for the mailbox is left as it was written**, in any rule expanded with a mailbox that
was accepted: what is left was put in with the mailbox, or completed by it. A command with an
argument is that of an expanded rule, and holds no macro beyond those of its argument. -/
theorem mailbox_expanded {text : String} {m : Mailbox} (hm : Mailbox.read? text = .ok m) :
    (∀ (r : Rule) (address : Address) (hostname : Option String),
      Leftover m r { address, hostname, mailbox := some m }) ∧
    ∀ (s : Settings) (p : Peer) (index : Nat) (address : Address) (cancelled : Bool),
      s.mailbox = some m →
      let b : Bindings :=
        { address, hostname := (s.recordOf p index address cancelled).hostname, mailbox := some m }
      ∀ line ∈ sentLines (s.logOf p index address cancelled), ∀ f : Field,
        Stage.ofLine? line = some f.stage → ∃ r ∈ s.rules, line = (r.expand b).line f.stage ∧
          Template.usesMailbox line = Template.usesMailbox ((r.expand b).get f) ∧
          (m.Clear ∨ r.Fenced ∧ b.Unspoken → Template.usesMailbox line = false) := by
  have husable := Mailbox.usable_of_read? hm
  refine ⟨fun r address hostname => husable.leftover rfl r, ?_⟩
  intro s p index address cancelled hmailbox b line hmem f hline
  obtain ⟨r, hr, rfl⟩ := sent_field hmem hline
  rw [hmailbox]
  have hfield := (r.expand b).usesMailbox_line f
  refine ⟨r, hr, rfl, hfield, fun h => ?_⟩
  rw [hfield]
  exact Rule.usesMailbox_eq_false_iff.1 ((husable.leftover rfl r).none_left h) f

/-- A mailbox whose name is a part of a macro, in a rule that keeps its macros apart; and one that no
macro reaches into, in a rule with a macro within another. -/
theorem mailbox_expanded_apart :
    let r : Rule :=
      { helo := "probe.test", mailFrom := "", rcptTo := "\x7bname\x7d%\x7bdomain\x7d@\x7bip\x7d" }
    let nested : Rule := { helo := "\x7bna\x7bname\x7dme\x7d", mailFrom := "", rcptTo := "c@d.test" }
    let m : Mailbox := ⟨"me", "example.net"⟩
    let alice : Mailbox := ⟨"alice", "example.net"⟩
    let s : Settings := { rules := [r], mailbox := some m }
    let x : Address := ⟨192, 0, 2, 1⟩
    let line := "RCPT TO:<me%example.net@192.0.2.1>"
    (r.expand { address := x, mailbox := some m }).usesMailbox = false ∧
      line ∈ sentLines (s.logOf acceptsAll.peer 0 x false) ∧ Template.usesMailbox line = false ∧
      (nested.expand { address := x, mailbox := some alice }).usesMailbox = false := by
  intro r nested m alice s x line
  have hm : Mailbox.read? "me@example.net" = .ok m := by rfl
  have halice : Mailbox.read? "alice@example.net" = .ok alice := by rfl
  have hclear : alice.Clear := .of_tame (by decide +kernel) (by decide +kernel)
  have hfenced : r.Fenced := by decide +kernel
  have hvalues : ({ address := x, mailbox := some m } : Bindings).Unspoken := by
    constructor
    · exact fun _ => nofun
    · rintro _ ⟨⟩
      decide
  have hmem : line ∈ sentLines (s.logOf acceptsAll.peer 0 x false) := by decide +kernel
  have hname : (s.recordOf acceptsAll.peer 0 x false).hostname = none := by decide +kernel
  obtain ⟨hrule, hsent⟩ := mailbox_expanded hm
  obtain ⟨r', hr', -, -, hgone⟩ :=
    hsent s acceptsAll.peer 0 x false rfl line hmem .rcptTo (by decide)
  rw [hname] at hgone
  obtain rfl := List.mem_singleton.1 hr'
  exact ⟨(hrule r x none).none_left (.inr ⟨hfenced, hvalues⟩), hmem,
    hgone (.inr ⟨hfenced, hvalues⟩),
    ((mailbox_expanded halice).1 nested x none).none_left (.inl hclear)⟩

/-- **A mailbox that holds a macro** is accepted, and leaves it in a command. -/
theorem mailbox_left :
    let r : Rule := { helo := "\x7bname\x7d", mailFrom := "", rcptTo := "c@d.test" }
    let m : Mailbox := ⟨"\x7bname\x7d", "example.net"⟩
    let x : Address := ⟨192, 0, 2, 1⟩
    let s : Settings := { targets := .list [x], rules := [r], mailbox := some m }
    Mailbox.read? "\x7bname\x7d@example.net" = .ok m ∧ s.fault? = none ∧
      (r.expand { address := x, mailbox := some m }).usesMailbox = true ∧
      "HELO \x7bname\x7d" ∈ sentLines (s.logOf acceptsAll.peer 0 x false) := by
  refine ⟨by rfl, by decide +kernel, by decide +kernel, by decide +kernel⟩

end OpenRelay
