import OpenRelay.Proofs.Rule.OneLine
import OpenRelay.Proofs.Text.Replace

/-!
# Templates are expanded at once

The macros of a template are replaced one after the other, each throughout what the earlier
replacements have made of the template. Read as a template language, every macro stands for its
value, wherever it is written. The two readings agree if the values are `Tame` and no two macros
overlap in the template.

* `Placeholder`: the macros, with what they stand for.
* `Bindings.applyOnce`: one pass over the template, which puts the values in.
* `Tame.inert`: no macro reaches into a tame value.
* `Bindings.apply_eq_applyOnce`: the replacements are that pass.
* `Bindings.apply_setHostname`: a template that does not name the host is expanded without its name.
-/

namespace OpenRelay

/-- The macros of a template. -/
inductive Placeholder where
  | literal
  | address
  | host
  | name
  /-- The older spelling of `name`. -/
  | dashedName
  | domain
  /-- The older spelling of `domain`. -/
  | dashedDomain
deriving DecidableEq

namespace Placeholder

def all : List Placeholder := [literal, address, host, name, dashedName, domain, dashedDomain]

/-- The macros for the mailbox. -/
def ofMailbox : List Placeholder := [name, domain, dashedName, dashedDomain]

theorem mem_all (m : Placeholder) : m ∈ all := by
  cases m <;> decide

/-- How a macro is written. -/
def spelling : Placeholder → String
  | literal => "\x7bip_literal\x7d"
  | address => "\x7bip\x7d"
  | host => "\x7bhost\x7d"
  | name => "\x7bname\x7d"
  | dashedName => "--NAME--"
  | domain => "\x7bdomain\x7d"
  | dashedDomain => "--DOMAIN--"

/-- What a macro stands for, if it stands for something. -/
def value? (b : Bindings) : Placeholder → Option String
  | literal => some b.address.literal
  | address => some b.address.toString
  | host => some (b.hostname.getD b.address.literal)
  | name | dashedName => b.mailbox.map Mailbox.name
  | domain | dashedDomain => b.mailbox.map Mailbox.domain

theorem spelling_ne_nil (m : Placeholder) : m.spelling.toList ≠ [] := by
  cases m <;> decide

/-- What a macro opens with. -/
def opening : Placeholder → List Char
  | dashedName | dashedDomain => ['-', '-']
  | _ => ['\x7b']

/-- What a macro closes with. -/
def closing : Placeholder → List Char
  | dashedName | dashedDomain => ['-', '-']
  | _ => ['\x7d']

theorem opening_prefix (m : Placeholder) : m.opening <+: m.spelling.toList := by
  cases m <;> decide

theorem closing_suffix (m : Placeholder) : m.closing <:+ m.spelling.toList := by
  cases m <;> decide

/-- A macro is written at a position of a text. -/
def At (m : Placeholder) (cs : List Char) (i : Nat) : Prop := m.spelling.toList <+: cs.drop i

instance (m : Placeholder) (cs : List Char) (i : Nat) : Decidable (m.At cs i) :=
  inferInstanceAs (Decidable (_ <+: _))

theorem At.lt_length {m : Placeholder} {cs : List Char} {i : Nat} (h : m.At cs i) :
    i < cs.length := by
  by_contra hge
  unfold At at h
  rw [List.drop_eq_nil_of_le (Nat.le_of_not_lt hge)] at h
  exact m.spelling_ne_nil (List.prefix_nil.1 h)

/-- Two macros, written at two positions, are one and the same, or one ends before the other. -/
def Clear (m m' : Placeholder) (i j : Nat) : Prop :=
  (m = m' ∧ i = j) ∨ i + m.spelling.toList.length ≤ j ∨ j + m'.spelling.toList.length ≤ i

instance (m m' : Placeholder) (i j : Nat) : Decidable (Clear m m' i j) :=
  inferInstanceAs (Decidable (_ ∨ _))

/-- No two macros overlap in a text. -/
def Apart (cs : List Char) : Prop :=
  ∀ m m' i j, At m cs i → At m' cs j → Clear m m' i j

theorem apart_iff {cs : List Char} : Apart cs ↔
    ∀ i < cs.length, ∀ m ∈ all, m.At cs i →
      ∀ j < cs.length, ∀ m' ∈ all, m'.At cs j → Clear m m' i j := by
  constructor
  · intro h i _ m _ hi j _ m' _ hj
    exact h m m' i j hi hj
  · intro h m m' i j hi hj
    exact h i hi.lt_length m m.mem_all hi j hj.lt_length m' m'.mem_all hj

instance (cs : List Char) : Decidable (Apart cs) := decidable_of_iff _ apart_iff.symm

end Placeholder

open Placeholder

/-! ## Tame values -/

/-- A value that macros cannot reach into. -/
structure Tame (value : String) : Prop where
  nonempty : value.toList ≠ []
  no_brace : '\x7b' ∉ value.toList ∧ '\x7d' ∉ value.toList
  no_dashes : ¬ ['-', '-'] <:+: value.toList
  /-- It does not begin with a dash. -/
  head : ¬ ['-'] <+: value.toList
  /-- It does not end with a dash. -/
  last : ¬ ['-'] <:+ value.toList
  not_part : ∀ m : Placeholder, ¬ value.toList <:+: m.spelling.toList

namespace Tame

variable {value : String}

theorem iff_forall_all : Tame value ↔ value.toList ≠ [] ∧
    ('\x7b' ∉ value.toList ∧ '\x7d' ∉ value.toList) ∧ ¬ ['-', '-'] <:+: value.toList ∧
    ¬ ['-'] <+: value.toList ∧ ¬ ['-'] <:+ value.toList ∧
    ∀ m ∈ Placeholder.all, ¬ value.toList <:+: m.spelling.toList :=
  ⟨fun h => ⟨h.nonempty, h.no_brace, h.no_dashes, h.head, h.last, fun m _ => h.not_part m⟩,
    fun ⟨h, hbrace, hdashes, hhead, hlast, hpart⟩ =>
      ⟨h, hbrace, hdashes, hhead, hlast, fun m => hpart m m.mem_all⟩⟩

instance (value : String) : Decidable (Tame value) := decidable_of_iff _ iff_forall_all.symm

theorem inert_dashes (h : Tame value) : Text.Inert ['-', '-'] value.toList := by
  -- a part of the two dashes begins and ends with a dash
  have hends : ∀ u, u ≠ [] → u <:+: ['-', '-'] → ['-'] <+: u ∧ ['-'] <:+ u := by
    intro u hne hu
    have hdash : ∀ c ∈ u, c = '-' := by
      intro c hc
      simpa using hu.subset hc
    constructor
    · refine ⟨u.tail, ?_⟩
      rw [← hdash (u.head hne) (List.head_mem hne)]
      exact List.cons_head_tail hne
    · refine ⟨u.dropLast, ?_⟩
      rw [← hdash (u.getLast hne) (List.getLast_mem hne)]
      exact List.dropLast_append_getLast hne
  refine {
    not_part := fun hpart => h.head (hends _ h.nonempty hpart).1
    not_whole := h.no_dashes
    not_begun := ?_
    not_ended := ?_ }
  · intro u hne hvalue hpre
    exact h.last ((hends u hne hpre.isInfix).2.trans hvalue)
  · intro u hne hvalue hsuf
    exact h.head ((hends u hne hsuf.isInfix).1.trans hvalue)

/-- **No macro reaches into a tame value.** -/
theorem inert (h : Tame value) (m : Placeholder) : Text.Inert m.spelling.toList value.toList := by
  have hopen : Text.Inert ['\x7b'] value.toList := .of_not_mem h.nonempty h.no_brace.1
  have hclose : Text.Inert ['\x7d'] value.toList := .of_not_mem h.nonempty h.no_brace.2
  have hdashes := h.inert_dashes
  have hopening : Text.Inert m.opening value.toList := by
    cases m <;> assumption
  have hclosing : Text.Inert m.closing value.toList := by
    cases m <;> assumption
  exact .of_ends hopening hclosing m.opening_prefix m.closing_suffix (h.not_part m)

/-- A value with a dot, and without braces and dashes, is tame. -/
theorem of_dot (hdot : '.' ∈ value.toList)
    (h : ∀ c ∈ value.toList, c ≠ '\x7b' ∧ c ≠ '\x7d' ∧ c ≠ '-') : Tame value := by
  have hdash : '-' ∉ value.toList := fun hc => (h '-' hc).2.2 rfl
  exact {
    nonempty := List.ne_nil_of_mem hdot
    no_brace := ⟨fun hc => (h _ hc).1 rfl, fun hc => (h _ hc).2.1 rfl⟩
    no_dashes := fun hpart => hdash (hpart.subset List.mem_cons_self)
    head := fun hpre => hdash (hpre.subset List.mem_cons_self)
    last := fun hsuf => hdash (hsuf.subset List.mem_cons_self)
    not_part := by
      -- no spelling has a dot
      intro m hpart
      have hm := hpart.subset hdot
      revert hm
      cases m <;> decide }

/-- An address has a dot, and neither braces nor dashes. -/
theorem address_chars (x : Address) : '.' ∈ x.toString.toList ∧
    ∀ c ∈ x.toString.toList, c ≠ '\x7b' ∧ c ≠ '\x7d' ∧ c ≠ '-' := by
  constructor
  · have htext : x.toString = toString x.a.toNat ++ "." ++ toString x.b.toNat ++ "." ++
        toString x.c.toNat ++ "." ++ toString x.d.toNat := rfl
    have hdot : '.' ∈ (".").toList := by decide
    simp only [htext, String.toList_append, List.mem_append, hdot, or_true, true_or]
  · intro c hc
    rcases Address.isDigit_or_dot hc with hdigit | rfl
    · refine ⟨?_, ?_, ?_⟩ <;> rintro rfl <;> cases hdigit
    · decide

theorem address (x : Address) : Tame x.toString :=
  of_dot (address_chars x).1 (address_chars x).2

theorem literal (x : Address) : Tame x.literal := by
  obtain ⟨hdot, hplain⟩ := address_chars x
  have hbrackets : ("[").toList = ['['] ∧ ("]").toList = [']'] := by decide
  have hmem : ∀ c, c ∈ x.literal.toList ↔ (c = '[' ∨ c ∈ x.toString.toList) ∨ c = ']' := by
    intro c
    simp only [Address.literal, String.toList_append, hbrackets, List.mem_append,
      List.mem_singleton]
  refine of_dot ((hmem '.').2 (.inl (.inr hdot))) ?_
  intro c hc
  rcases (hmem c).1 hc with (rfl | hc) | rfl
  · decide
  · exact hplain c hc
  · decide

end Tame

/-! ## Templates -/

/-- Whether a template names the host. -/
def Template.usesHost (template : String) : Bool :=
  Text.contains Placeholder.host.spelling.toList template.toList

/-- Whether a field of a rule names the host. -/
def Rule.usesHost (r : Rule) : Bool := [r.helo, r.mailFrom, r.rcptTo].any Template.usesHost

theorem Template.usesMailbox_eq_false_iff {template : String} : usesMailbox template = false ↔
    ∀ m ∈ ofMailbox, ¬ m.spelling.toList <:+: template.toList := by
  have hmacros : mailboxMacros = ofMailbox.map spelling := rfl
  rw [usesMailbox, hmacros, List.any_map, List.any_eq_false]
  simp only [Function.comp_apply, Text.contains_iff]

namespace Bindings

variable {b : Bindings} {cs : List Char} {template : String}

/-- Values that macros cannot reach into. -/
structure Tame (b : Bindings) : Prop where
  hostname : ∀ name ∈ b.hostname, OpenRelay.Tame name
  mailbox : ∀ m ∈ b.mailbox, OpenRelay.Tame m.name ∧ OpenRelay.Tame m.domain

/-- The macros that stand for something, with what they stand for. -/
def meanings (b : Bindings) : Text.Table :=
  Placeholder.all.filterMap fun m => (m.value? b).map fun v => (m.spelling.toList, v.toList)

/-- A template in which every macro that stands for something is replaced, in one pass. -/
def applyOnce (b : Bindings) (template : String) : String :=
  String.ofList (Text.replaceEach b.meanings template.toList)

theorem mem_meanings {x : List Char × List Char} (hx : x ∈ b.meanings) :
    ∃ m : Placeholder, ∃ v, m.value? b = some v ∧ x = (m.spelling.toList, v.toList) := by
  obtain ⟨m, -, hm⟩ := List.mem_filterMap.1 hx
  obtain ⟨v, hv, rfl⟩ := Option.map_eq_some_iff.1 hm
  exact ⟨m, v, hv, rfl⟩

/-- The replacements are the meanings of the macros, in the order in which these are listed. -/
theorem applyAll_eq (b : Bindings) (cs : List Char) : b.applyAll cs =
    b.meanings.foldl (fun cs (pattern, value) => Text.replaceAll pattern value cs) cs := by
  obtain ⟨address, hostname, mailbox⟩ := b
  cases mailbox <;> rfl

/-- What a macro stands for has a property if the address, the host name and the halves of the
mailbox have it. -/
theorem forall_value {P : String → Prop} (hliteral : P b.address.literal)
    (haddress : P b.address.toString) (hhost : ∀ name ∈ b.hostname, P name)
    (hmailbox : ∀ m ∈ b.mailbox, P m.name ∧ P m.domain) {m : Placeholder} {v : String}
    (hv : m.value? b = some v) : P v := by
  cases m with
  | literal =>
    cases hv
    exact hliteral
  | address =>
    cases hv
    exact haddress
  | host =>
    cases hv
    cases hname : b.hostname with
    | none => exact hliteral
    | some name => exact hhost name hname
  | name | dashedName =>
    obtain ⟨m, hm, rfl⟩ := Option.map_eq_some_iff.1 hv
    exact (hmailbox m hm).1
  | domain | dashedDomain =>
    obtain ⟨m, hm, rfl⟩ := Option.map_eq_some_iff.1 hv
    exact (hmailbox m hm).2

/-- What a macro stands for is tame. -/
theorem Tame.value (hb : b.Tame) {m : Placeholder} {v : String} (hv : m.value? b = some v) :
    OpenRelay.Tame v :=
  forall_value (.literal b.address) (.address b.address) hb.hostname hb.mailbox hv

theorem meanings_ne_nil : ∀ x ∈ b.meanings, x.1 ≠ [] := by
  intro x hx
  obtain ⟨m, v, -, rfl⟩ := mem_meanings hx
  exact m.spelling_ne_nil

theorem Tame.inert (hb : b.Tame) (m : Placeholder) :
    ∀ x ∈ b.meanings, Text.Inert m.spelling.toList x.2 := by
  intro x hx
  obtain ⟨m', v, hv, rfl⟩ := mem_meanings hx
  exact (hb.value hv).inert m

/-- Macros that do not overlap do not begin within each other. -/
theorem separate (h : Apart cs) : Text.Separate b.meanings cs := by
  intro x hx y hy i j hi hpos hlt hj
  obtain ⟨m, v, -, rfl⟩ := mem_meanings hx
  obtain ⟨m', v', -, rfl⟩ := mem_meanings hy
  have hlength : 0 < m'.spelling.toList.length := List.length_pos_iff.2 m'.spelling_ne_nil
  rcases h m m' i (i + j) hi hj with ⟨-, hsame⟩ | hbefore | hbehind
  · omega
  · dsimp only at hlt
    omega
  · omega

/-- **The replacements are one pass** over a template whose macros do not overlap. -/
theorem applyAll_eq_replaceEach (hb : b.Tame) (h : Apart cs) :
    b.applyAll cs = Text.replaceEach b.meanings cs := by
  rw [applyAll_eq]
  refine Text.foldl_replaceAll meanings_ne_nil ?_ (separate h)
  intro x hx y hy
  obtain ⟨m, v, -, rfl⟩ := mem_meanings hx
  exact hb.inert m y hy

/-- A text without braces and double dashes has no macro. -/
theorem not_infix_of_plain (hbrace : ¬ ['\x7b'] <:+: cs) (hdashes : ¬ ['-', '-'] <:+: cs) :
    ∀ x ∈ b.meanings, ¬ x.1 <:+: cs := by
  intro x hx hocc
  obtain ⟨m, v, -, rfl⟩ := mem_meanings hx
  have hopening : m.opening <:+: cs := m.opening_prefix.isInfix.trans hocc
  cases m with
  | literal | address | host | name | domain => exact hbrace hopening
  | dashedName | dashedDomain => exact hdashes hopening

theorem replaceEach_eq_self (hbrace : ¬ ['\x7b'] <:+: cs) (hdashes : ¬ ['-', '-'] <:+: cs) :
    Text.replaceEach b.meanings cs = cs :=
  Text.replaceEach_eq_self (not_infix_of_plain hbrace hdashes)

/-- Text that stays as it is because it has no opening would not be changed by the replacements. -/
theorem toList_apply (b : Bindings) (template : String) :
    (b.apply template).toList = b.applyAll template.toList := by
  unfold apply
  split
  · rename_i hplain
    simp only [Bool.and_eq_true, Bool.not_eq_true', Bool.eq_false_iff, ne_eq,
      Text.contains_iff] at hplain
    rw [applyAll_eq, Text.foldl_replaceAll_eq_self (not_infix_of_plain hplain.1 hplain.2)]
  · exact String.toList_ofList

/-- **No macro that stands for something is left.** -/
theorem Tame.not_infix_replaceEach (hb : b.Tame) {m : Placeholder} {v : String}
    (hv : m.value? b = some v) :
    ¬ m.spelling.toList <:+: Text.replaceEach b.meanings cs := by
  intro hocc
  -- it would be one of the template, and the pass would have replaced it
  obtain ⟨j, hj, hnone⟩ := Text.infix_of_replaceEach meanings_ne_nil (hb.inert m) hocc
  have hlength : 0 < m.spelling.toList.length := List.length_pos_iff.2 m.spelling_ne_nil
  have hmem : (m.spelling.toList, v.toList) ∈ b.meanings := by
    refine List.mem_filterMap.2 ⟨m, m.mem_all, ?_⟩
    rw [hv]
    rfl
  exact Text.opening?_eq_none_iff.1 (hnone 0 hlength) _ hmem hj

/-- **A template is expanded at once**: with tame values, and macros that do not overlap, the
replacements one after the other are one pass over the template. With a mailbox, no macro for it
is left. -/
theorem apply_eq_applyOnce (hb : b.Tame) (h : Apart template.toList) :
    b.apply template = b.applyOnce template ∧
      (b.mailbox.isSome = true → Template.usesMailbox (b.apply template) = false) := by
  have hone : b.apply template = b.applyOnce template := by
    unfold apply applyOnce
    split
    · rename_i hplain
      simp only [Bool.and_eq_true, Bool.not_eq_true', Bool.eq_false_iff, ne_eq,
        Text.contains_iff] at hplain
      rw [replaceEach_eq_self hplain.1 hplain.2, String.ofList_toList]
    · rw [applyAll_eq_replaceEach hb h]
  refine ⟨hone, ?_⟩
  intro hmailbox
  obtain ⟨mailbox, hmailbox⟩ := Option.isSome_iff_exists.1 hmailbox
  rw [hone, Template.usesMailbox_eq_false_iff]
  intro m hm
  rw [applyOnce, String.toList_ofList]
  have hvalue : ∃ v, m.value? b = some v := by
    simp only [ofMailbox, List.mem_cons, List.not_mem_nil, or_false] at hm
    rcases hm with rfl | rfl | rfl | rfl <;> exact ⟨_, by rw [value?, hmailbox]; rfl⟩
  obtain ⟨v, hv⟩ := hvalue
  exact hb.not_infix_replaceEach hv

/-- A recipient at an address, with both halves of a mailbox. -/
theorem apply_eq_applyOnce_recipient :
    let b : Bindings :=
      { address := ⟨192, 0, 2, 7⟩, hostname := some "mx.example.org"
        mailbox := some ⟨"alice", "relay-check.example"⟩ }
    b.apply "\x7bname\x7d%--DOMAIN--@\x7bip\x7d" = "alice%relay-check.example@192.0.2.7" ∧
      Template.usesMailbox (b.apply "\x7bname\x7d%--DOMAIN--@\x7bip\x7d") = false := by
  intro b
  have hb : b.Tame := by
    constructor
    · rintro _ ⟨⟩
      decide +kernel
    · rintro _ ⟨⟩
      decide +kernel
  have hapart : Apart "\x7bname\x7d%--DOMAIN--@\x7bip\x7d".toList := by decide +kernel
  obtain ⟨happly, hleft⟩ := apply_eq_applyOnce hb hapart
  refine ⟨?_, hleft rfl⟩
  rw [happly]
  decide +kernel

/-! ## The host name -/

/-- The replacements of the host name and of what stands for the mailbox come behind those of the
address. -/
theorem applyAll_eq_host (b : Bindings) (cs : List Char) : b.applyAll cs =
    b.mailboxSubstitutions.foldl
      (fun cs (spelling, value) => Text.replaceAll spelling.toList value.toList cs)
      (Text.replaceAll Placeholder.host.spelling.toList b.host.toList
        (Text.replaceAll Placeholder.address.spelling.toList b.address.toString.toList
          (Text.replaceAll Placeholder.literal.spelling.toList b.address.literal.toList cs))) :=
  List.foldl_append

/-- The replacements for a mailbox, in their order. -/
theorem mailboxSubstitutions_some {m : Mailbox} (h : b.mailbox = some m) (cs : List Char) :
    b.mailboxSubstitutions.foldl
      (fun cs (spelling, value) => Text.replaceAll spelling.toList value.toList cs) cs =
    Text.replaceAll Placeholder.dashedDomain.spelling.toList m.domain.toList
      (Text.replaceAll Placeholder.domain.spelling.toList m.domain.toList
        (Text.replaceAll Placeholder.dashedName.spelling.toList m.name.toList
          (Text.replaceAll Placeholder.name.spelling.toList m.name.toList cs))) := by
  rw [mailboxSubstitutions, h]
  rfl

/-- Where the host name is not written, its replacement does nothing: the replacements before it
do not write it. Those behind it may, through the mailbox, but then it stays as it is. -/
theorem applyAll_of_not_host (h : ¬ Placeholder.host.spelling.toList <:+: cs) :
    b.applyAll cs = b.mailboxSubstitutions.foldl
      (fun cs (spelling, value) => Text.replaceAll spelling.toList value.toList cs)
      (Text.replaceAll Placeholder.address.spelling.toList b.address.toString.toList
        (Text.replaceAll Placeholder.literal.spelling.toList b.address.literal.toList cs)) := by
  have hliteral := ((OpenRelay.Tame.literal b.address).inert .host).not_infix_replaceAll
    Placeholder.literal.spelling_ne_nil h
  have haddress := ((OpenRelay.Tame.address b.address).inert .host).not_infix_replaceAll
    Placeholder.address.spelling_ne_nil hliteral
  rw [applyAll_eq_host, Text.replaceAll_eq_self haddress]

/-- **A template that does not name the host** is expanded without the host name. -/
theorem apply_setHostname (b : Bindings) (name : Option String)
    (h : Template.usesHost template = false) :
    ({ b with hostname := name } : Bindings).apply template = b.apply template := by
  rw [Template.usesHost, Bool.eq_false_iff, ne_eq, Text.contains_iff] at h
  unfold apply
  rw [applyAll_of_not_host h, applyAll_of_not_host h]
  rfl

end Bindings

/-- So is a rule none of whose fields names the host. -/
theorem Rule.expand_setHostname {r : Rule} (b : Bindings) (name : Option String)
    (h : r.usesHost = false) : r.expand { b with hostname := name } = r.expand b := by
  simp only [Rule.usesHost, List.any_cons, List.any_nil, Bool.or_false, Bool.or_eq_false_iff] at h
  obtain ⟨hhelo, hmailFrom, hrcptTo⟩ := h
  unfold Rule.expand
  rw [b.apply_setHostname name hhelo, b.apply_setHostname name hmailFrom,
    b.apply_setHostname name hrcptTo]

end OpenRelay
