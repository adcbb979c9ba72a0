import OpenRelay.Proofs.Conversation.Commands
import OpenRelay.Proofs.Rule.Placeholder

/-!
# Checks that do not need the host name

The name of a host is text that somebody else has chosen. It goes into the record and into the
macros of the rules. If no rule names the host, it goes nowhere else: two checks that come by
different names, or by none, make the same calls and differ in nothing but the name.

* `Dialogue.Alike`: dialogues that make the same calls, none of which looks up a name.
* `Dialogue.Alike.run`: their runs, with whatever look-ups before them.
* `contact_alike`: what follows the look-up is alike for all names.
* `name_without_influence`: both checks.
-/

namespace OpenRelay

/-! ## Logs without look-ups -/

/-- Whether an event is a look-up. -/
def Event.isLookUp : Event → Bool
  | .lookedUp .. => true
  | _ => false

/-- The calls on the host itself. -/
def transported (log : List Entry) : List Entry := log.filter fun e => !e.event.isLookUp

/-- The outside of `p`, where a look-up has a given result, does not cancel the scan, and does not
change the answers of the host. -/
def Peer.finding (p : Peer) (found : Lookup) : Peer where
  lookUp _ := { value := found }
  connect log := p.connect (transported log)
  send log line := p.send (transported log) line
  read log timeout := p.read (transported log) timeout

/-- Worlds that differ in look-ups only. -/
structure World.Alike (w w' : World) : Prop where
  log : transported w.log = transported w'.log
  cancelled : w.cancelled = w'.cancelled

namespace World

variable {w w' : World}

theorem Alike.after (h : w.Alike w') (event : Event) (cancels : Bool) :
    (w.after event cancels).Alike (w'.after event cancels) := by
  constructor
  · unfold World.after transported
    rw [List.filter_append, List.filter_append, h.cancelled]
    exact congrArg (· ++ _) h.log
  · unfold World.after
    rw [h.cancelled]

theorem alike_lookedUp (w : World) (x : Address) (found : Lookup) :
    (w.after (.lookedUp x found) false).Alike w := by
  constructor
  · unfold World.after transported
    rw [List.filter_append]
    exact List.append_nil _
  · exact Bool.or_false _

end World

/-! ## Dialogues that make the same calls -/

namespace Dialogue

/-- Two dialogues that make the same calls, as long as these are answered alike, and end with
related results. They look up no name. -/
inductive Alike {α β : Type} (R : α → β → Prop) : Dialogue α → Dialogue β → Prop where
  | done {a b} (h : R a b) : Alike R (.done a) (.done b)
  | poll {next next'} (h : ∀ c, Alike R (next c) (next' c)) : Alike R (.poll next) (.poll next')
  | connect {next next'} (x : Address) (port : Nat) (c t : Duration)
      (h : ∀ out, Alike R (next out) (next' out)) :
      Alike R (.connect x port c t next) (.connect x port c t next')
  | send {next next'} (line : String) (h : ∀ out, Alike R (next out) (next' out)) :
      Alike R (.send line next) (.send line next')
  | read {next next'} (t : Duration) (h : ∀ out, Alike R (next out) (next' out)) :
      Alike R (.read t next) (.read t next')

namespace Alike

variable {α β α' β' : Type} {R : α → β → Prop} {S : α' → β' → Prop}

/-- Dialogues that are alike, with continuations that are alike for related results. -/
theorem bind {d : Dialogue α} {d' : Dialogue β} {k : α → Dialogue α'} {k' : β → Dialogue β'}
    (hd : Alike R d d') (hk : ∀ a b, R a b → Alike S (k a) (k' b)) :
    Alike S (d >>= k) (d' >>= k') := by
  show Alike S (d.bind k) (d'.bind k')
  induction hd with
  | done h => exact hk _ _ h
  | poll _ ih => exact .poll ih
  | connect x port c t _ ih => exact .connect x port c t ih
  | send line _ ih => exact .send line ih
  | read t _ ih => exact .read t ih

/-- The same dialogue, with continuations that are alike. -/
theorem bind_self {d : Dialogue α} {k : α → Dialogue α'} {k' : α → Dialogue β'}
    (hd : Alike Eq d d) (hk : ∀ a, Alike S (k a) (k' a)) : Alike S (d >>= k) (d >>= k') :=
  hd.bind fun a _ hab => hab ▸ hk a

/-- **Runs of dialogues that are alike**, from worlds that differ in look-ups only: related results,
and worlds that again differ in look-ups only. -/
theorem run {d : Dialogue α} {d' : Dialogue β} (hd : Alike R d d') (p : Peer)
    (found found' : Lookup) {w w' : World} (hw : w.Alike w') :
    R (d.run (p.finding found) w).1 (d'.run (p.finding found') w').1 ∧
      (d.run (p.finding found) w).2.Alike (d'.run (p.finding found') w').2 := by
  induction hd generalizing w w' with
  | done h => exact ⟨h, hw⟩
  | poll _ ih =>
    simp only [Dialogue.run]
    rw [hw.cancelled]
    exact ih _ hw
  | connect x port c t _ ih =>
    simp only [Dialogue.run, Peer.finding]
    rw [hw.log]
    exact ih _ (hw.after _ _)
  | send line _ ih =>
    simp only [Dialogue.run, Peer.finding]
    rw [hw.log]
    exact ih _ (hw.after _ _)
  | read t _ ih =>
    simp only [Dialogue.run, Peer.finding]
    rw [hw.log]
    exact ih _ (hw.after _ _)

end Alike

end Dialogue

open Dialogue (Alike)

theorem alike_isCancelled : Alike Eq Dialogue.isCancelled Dialogue.isCancelled :=
  .poll fun _ => .done rfl

theorem alike_connectTo (x : Address) (port : Nat) (c t : Duration) :
    Alike Eq (Dialogue.connectTo x port c t) (Dialogue.connectTo x port c t) :=
  .connect x port c t fun _ => .done rfl

theorem alike_sendLine (line : String) : Alike Eq (Dialogue.sendLine line) (Dialogue.sendLine line) :=
  .send line fun _ => .done rfl

theorem alike_readReply (t : Duration) : Alike Eq (Dialogue.readReply t) (Dialogue.readReply t) :=
  .read t fun _ => .done rfl

/-! ## Attempts look up no name -/

theorem alike_transmit (stage : Stage) (lines : List String) :
    Alike Eq (transmit stage lines) (transmit stage lines) := by
  induction lines with
  | nil => exact .done rfl
  | cons line rest ih =>
    refine alike_isCancelled.bind_self fun c => ?_
    cases c with
    | true => exact .done rfl
    | false =>
      refine (alike_sendLine line).bind_self fun out => ?_
      cases out with
      | error e => exact .done rfl
      | ok u => exact ih

theorem alike_hear (stage : Stage) (t : Duration) : Alike Eq (hear stage t) (hear stage t) := by
  refine (alike_readReply t).bind_self fun out => ?_
  cases out with
  | error e => exact .done rfl
  | ok r => exact .done rfl

theorem alike_take (st : Step) : Alike Eq st.take st.take := by
  refine (alike_transmit _ _).bind_self fun out => ?_
  cases out with
  | error halt => exact .done rfl
  | ok u => exact alike_hear _ _

theorem alike_pursue (steps : List Step) (a : Attempt) :
    Alike Eq (pursue steps a) (pursue steps a) := by
  induction steps generalizing a with
  | nil => exact .done rfl
  | cons st rest ih =>
    refine (alike_take st).bind_self fun out => ?_
    cases out with
    | error halt => exact .done rfl
    | ok r =>
      dsimp only
      split
      · exact ih _
      · exact .done rfl

theorem alike_conclude (reset : Step) (a : Attempt) :
    Alike Eq (conclude reset a) (conclude reset a) := by
  refine (alike_take reset).bind_self fun out => ?_
  cases out with
  | error halt => exact .done rfl
  | ok r => exact .done rfl

theorem alike_tryRule (steps : List Step) (reset : Step) (a : Attempt) :
    Alike Eq (tryRule steps reset a) (tryRule steps reset a) := by
  refine (alike_pursue steps a).bind_self fun out => ?_
  obtain ⟨a, halt⟩ := out
  cases halt with
  | some halt => exact .done rfl
  | none => exact alike_conclude reset a

theorem alike_sayQuit (t : Duration) : Alike Eq (sayQuit t) (sayQuit t) := by
  refine (alike_sendLine "QUIT").bind_self fun out => ?_
  cases out with
  | error e => exact .done rfl
  | ok u =>
    refine (alike_readReply t).bind_self fun out => ?_
    cases out with
    | error e => exact .done rfl
    | ok r => exact .done rfl

/-! ## Records that differ in the name -/

/-- Records of a host that differ in its name at most. -/
def HostRecord.SameButName (h h' : HostRecord) : Prop :=
  h' = { h with hostname := h'.hostname, resolved := h'.resolved }

/-- A record with another name. -/
def HostRecord.named (h : HostRecord) (name : Option String) (resolved : Bool) : HostRecord :=
  { h with hostname := name, resolved }

section Conversation

open HostRecord (SameButName)

variable {s : Settings} (asks : Bool) (h : HostRecord) (name : Option String) (resolved : Bool)

theorem alike_closeEarly (t : Duration) (halt : Halt) :
    Alike SameButName (closeEarly t h halt) (closeEarly t (h.named name resolved) halt) := by
  cases halt with
  | broken failure => exact .done rfl
  | cancelled stage =>
    have hquit : Alike SameButName
        (sayQuit t >>= fun quit => pure { h with cancelled := true, quit })
        (sayQuit t >>= fun quit => pure { h.named name resolved with cancelled := true, quit }) :=
      (alike_sayQuit t).bind_self fun _ => .done rfl
    cases stage with
    | banner | dataEnd => exact .done rfl
    | resolve | connect | helo | mailFrom | rcptTo | dataStart | rset | quit => exact hquit

theorem alike_tryRules (rules : List (Rule × Nat)) : ∀ h : HostRecord, Alike SameButName
    (tryRules s rules h)
    (tryRules { s with resolveHostnames := asks } rules (h.named name resolved)) := by
  induction rules with
  | nil => exact fun h => (alike_sayQuit s.readTimeout).bind_self fun _ => .done rfl
  | cons x rest ih =>
    intro h
    refine alike_isCancelled.bind_self fun c => ?_
    cases c with
    | true => exact alike_closeEarly h name resolved s.readTimeout _
    | false =>
      -- the address and the banner of both records are the same, so the attempts are
      refine (alike_tryRule _ _ _).bind_self fun out => ?_
      obtain ⟨a, halt⟩ := out
      cases halt with
      | none => exact ih { h with attempts := h.attempts ++ [a] }
      | some halt =>
        exact alike_closeEarly { h with attempts := h.attempts ++ [a.cutOff halt] } name resolved
          s.readTimeout halt

/-- The rules of a scan that names no host are expanded alike for every name. -/
theorem rulesFor_named (hrules : ∀ r ∈ s.rules, r.usesHost = false) :
    ({ s with resolveHostnames := asks } : Settings).rulesFor (h.named name resolved) =
      s.rulesFor h := by
  unfold Settings.rulesFor
  congr 1
  refine List.map_congr_left fun r hr => ?_
  exact Rule.expand_setHostname { address := h.address, hostname := h.hostname, mailbox := s.mailbox }
    name (hrules r hr)

theorem alike_converse (hrules : ∀ r ∈ s.rules, r.usesHost = false) : Alike SameButName
    (converse s h) (converse { s with resolveHostnames := asks } (h.named name resolved)) := by
  refine alike_isCancelled.bind_self fun c => ?_
  cases c with
  | true => exact alike_closeEarly h name resolved s.readTimeout _
  | false =>
    refine (alike_hear .banner s.readTimeout).bind_self fun out => ?_
    cases out with
    | error halt => exact alike_closeEarly h name resolved s.readTimeout halt
    | ok r =>
      have htried := alike_tryRules (s := s) asks name resolved (s.rulesFor h)
        { h with banner := some r }
      rw [← rulesFor_named asks h name resolved hrules] at htried ⊢
      exact htried

/-- **What follows the look-up is alike for all names**, if no rule names the host. -/
theorem alike_contact (hrules : ∀ r ∈ s.rules, r.usesHost = false) : Alike SameButName
    (contact s h) (contact { s with resolveHostnames := asks } (h.named name resolved)) := by
  refine (alike_connectTo _ _ _ _).bind_self fun out => ?_
  cases out with
  | error e => exact .done rfl
  | ok u => exact alike_converse asks { h with smtpOpen := true } name resolved hrules

end Conversation

/-! ## Checks -/

/-- How a check comes by the name of its host. -/
inductive Naming where
  /-- Nothing is looked up: the settings do not ask for a name, or there is nobody to ask. -/
  | unasked
  | asked (found : Lookup)

namespace Naming

/-- The settings under which a check comes by the name in this way. -/
def settings (n : Naming) (s : Settings) : Settings :=
  { s with resolveHostnames := n matches .asked _ }

/-- What a look-up finds, if there is one. -/
def found : Naming → Lookup
  | unasked => .unnamed
  | asked found => found

/-- The record of a check that comes by the name in this way. -/
def recordOf (n : Naming) (s : Settings) (p : Peer) (index : Nat) (address : Address)
    (cancelled : Bool) : HostRecord :=
  (n.settings s).recordOf (p.finding n.found) index address cancelled

/-- The log of such a check. -/
def logOf (n : Naming) (s : Settings) (p : Peer) (index : Nat) (address : Address)
    (cancelled : Bool) : List Entry :=
  (n.settings s).logOf (p.finding n.found) index address cancelled

/-- A look-up changes the name of the record, and nothing but the look-up is logged. -/
theorem run_identify (n : Naming) (s : Settings) (p : Peer) (h : HostRecord) (w : World) :
    ∃ name resolved w', (identify (n.settings s) h).run (p.finding n.found) w =
      (h.named name resolved, w') ∧ w'.Alike w := by
  cases n with
  | unasked => exact ⟨h.hostname, h.resolved, w, rfl, rfl, rfl⟩
  | asked found =>
    have hlogged := w.alike_lookedUp h.address found
    cases found with
    | named name => exact ⟨some name, true, _, rfl, hlogged⟩
    | unnamed | failed => exact ⟨h.hostname, h.resolved, _, rfl, hlogged⟩

end Naming

/-- **The name has no influence** on a scan whose rules do not name the host. Whatever a look-up
finds, and also without one, a check makes the same calls on the host, with the same answers, and
its record is the same but for the name. -/
theorem name_without_influence {s : Settings} (hrules : ∀ r ∈ s.rules, r.usesHost = false)
    (p : Peer) (n n' : Naming) (index : Nat) (address : Address) (cancelled : Bool) :
    transported (n'.logOf s p index address cancelled) =
        transported (n.logOf s p index address cancelled) ∧
      (n.recordOf s p index address cancelled).SameButName
        (n'.recordOf s p index address cancelled) := by
  unfold Naming.logOf Naming.recordOf Settings.logOf Settings.recordOf
  simp only [checkHost, Dialogue.run_bind, Dialogue.run_isCancelled]
  cases cancelled with
  | true => exact ⟨rfl, rfl⟩
  | false =>
    simp only [Dialogue.run_bind]
    -- the checks differ up to the look-up, and go on alike
    obtain ⟨name, resolved, w, hrun, hw⟩ :=
      n.run_identify s p { index, address } { cancelled := false }
    obtain ⟨name', resolved', w', hrun', hw'⟩ :=
      n'.run_identify s p { index, address } { cancelled := false }
    rw [hrun, hrun']
    have hworlds : w.Alike w' := ⟨hw.log.trans hw'.log.symm, hw.cancelled.trans hw'.cancelled.symm⟩
    have halike := alike_contact (s := n.settings s) (n'.settings s).resolveHostnames
      (HostRecord.named { index, address } name resolved) name' resolved' hrules
    obtain ⟨hrecord, hlog⟩ := halike.run p n.found n'.found hworlds
    exact ⟨hlog.log.symm, hrecord⟩

/-- A name that reads like a macro. -/
theorem name_without_influence_macro :
    let s : Settings := { rules := [⟨"a", "b@\x7bip\x7d", "c"⟩] }
    let x : Address := { a := 192, b := 0, c := 2, d := 1 }
    let n : Naming := .asked (.named "\x7bip\x7d")
    let h := Naming.unasked.recordOf s refusesSender.peer 0 x false
    transported (n.logOf s refusesSender.peer 0 x false) =
        transported (Naming.unasked.logOf s refusesSender.peer 0 x false) ∧
      n.recordOf s refusesSender.peer 0 x false =
        { h with hostname := some "\x7bip\x7d", resolved := true } := by
  intro s x n h
  have hrules : ∀ r ∈ s.rules, r.usesHost = false := by decide +kernel
  obtain ⟨hlog, hrecord⟩ :=
    name_without_influence hrules refusesSender.peer .unasked n 0 x false
  have hname : (n.recordOf s refusesSender.peer 0 x false).hostname = some "\x7bip\x7d" ∧
      (n.recordOf s refusesSender.peer 0 x false).resolved = true := by decide +kernel
  refine ⟨hlog, hrecord.trans ?_⟩
  rw [hname.1, hname.2]

end OpenRelay
