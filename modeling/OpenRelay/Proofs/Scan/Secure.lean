import OpenRelay.Output.Human
import OpenRelay.Proofs.Conversation.Decided
import OpenRelay.Proofs.Scan.Network

/-!
# What a report calls secure

* `HostRecord.starts_mark_iff`: with what the line of a host begins.
* `HostRecord.tag_eq_iff`: which host is in which state.
* `secure_is_tested`: a host with this tag refused every rule, each time with a reply.
-/

namespace OpenRelay

/-- The beginning of a line about a host in a state. -/
def Tag.mark : Tag → String
  | .relay => "[RELAY]"
  | .fatal => "[FATAL]"
  | .skipped => "[SKIPPED]"
  | .closed => "[CLOSED]"
  | .secure => "[SECURE]"

namespace HostRecord

/-- The line of a host begins with a mark exactly if the host is in that state. -/
theorem starts_mark_iff (h : HostRecord) (t : Tag) :
    t.mark.toList <+: h.line.toList ↔ h.tag = t := by
  have hline : h.line.toList = h.tag.label.toList ++ (h.title ++ h.remark).toList := by
    simp [line, String.toList_append, List.append_assoc]
  rw [hline]
  cases h.tag <;> cases t <;> simp [Tag.mark, Tag.label, List.cons_prefix_cons]

/-- When a host is called so: the conditions of all states before are not met. -/
def Fits (h : HostRecord) : Tag → Prop
  | .relay => h.isVulnerable = true
  | .fatal => h.isVulnerable = false ∧ h.isFatal = true
  | .skipped => h.isVulnerable = false ∧ h.isFatal = false ∧ h.cancelled = true
  | .closed => h.isVulnerable = false ∧ h.isFatal = false ∧ h.cancelled = false ∧
      h.smtpOpen = false
  | .secure => h.isVulnerable = false ∧ h.isFatal = false ∧ h.cancelled = false ∧
      h.smtpOpen = true

theorem tag_eq_iff (h : HostRecord) (t : Tag) : h.tag = t ↔ h.Fits t := by
  unfold tag
  cases t <;> unfold Fits <;> cases h.isVulnerable <;> cases h.isFatal <;> cases h.cancelled <;>
    cases h.smtpOpen <;> simp

/-- A host that was tested with every rule of the scan and refused each of them. -/
structure Refused (s : Settings) (h : HostRecord) : Prop where
  /-- Its task ran to its end, and the conversation with it was neither broken nor cut short. -/
  visited : h.visited = true
  connected : h.smtpOpen = true
  unbroken : h.isFatal = false
  uncut : h.cancelled = false
  /-- There is one attempt for each rule, in the order of the rules. -/
  rules : h.attempts.map (fun a => (a.rule, a.ruleIndex)) = s.rulesFor h
  /-- Each attempt failed at a stage with a noted reply that the stage does not accept. -/
  rejected : ∀ a ∈ h.attempts, a.RejectedAt s.stages
  reset : ∀ a ∈ h.attempts, ∃ r, a.rset = some r

end HostRecord

variable {t : Targets} {x : Execution t} {s : Settings} {net : Network}

/-- Of a host with which the conversation came to its end no attempt went through, unless the host
is vulnerable. -/
theorem HostRecord.Completed.rejected {h : HostRecord} (hc : h.Completed s)
    (hsafe : h.isVulnerable = false) : ∀ a ∈ h.attempts, a.RejectedAt s.stages := by
  intro a ha
  refine (hc.decided a ha).resolve_left fun hrelayed => ?_
  have hpassed := List.any_eq_false.1 hsafe a ha
  simp [Attempt.passed, hrelayed] at hpassed

/-- A check that came to its end refused every rule, if its host is called secure. -/
theorem Checks.refused {index : Nat} {address : Address} {c c' : Bool} {es : List Entry}
    {h : HostRecord} (hc : Checks s index address c es h c')
    (htag : (h.placed index address).tag = .secure) : (h.placed index address).Refused s := by
  obtain ⟨hsafe, hfatal, hcancelled, hopen⟩ := (HostRecord.tag_eq_iff _ .secure).1 htag
  obtain ⟨hunbroken, -⟩ := Bool.or_eq_false_iff.1 hfatal
  have hcompleted := hc.completed hopen hunbroken hcancelled
  obtain ⟨rfl, rfl⟩ := Prod.mk.inj hc.place_eq
  exact ⟨rfl, hopen, hfatal, hcancelled, hcompleted.rules, hcompleted.rejected hsafe,
    hcompleted.reset⟩

/-- **A host that is called secure was tested.** Whatever the network does, and during whichever calls
the scan is cancelled, a host whose line begins with this tag refused every rule with a reply. -/
theorem secure_is_tested (hx : x.On s net) :
    ∀ h ∈ x.report.hosts, Tag.secure.mark.toList <+: h.line.toList → h.Refused s := by
  intro h hmem hmark
  have htag := (h.starts_mark_iff .secure).1 hmark
  obtain ⟨-, -, -, hopen⟩ := (h.tag_eq_iff .secure).1 htag
  cases hx.source hmem with
  | checked hchecks => exact hchecks.refused htag
  | vanished => cases hopen
  | unstarted abandoned index address =>
    -- a host without a task is called fatal or skipped
    obtain ⟨-, hclosed, -⟩ := Dispatch.untried_unstarted abandoned index address
    rw [hclosed] at hopen
    cases hopen

/-- A server that refuses the recipient, and what the report says of it. -/
theorem refusal_is_secure :
    let a : Address := ⟨192, 0, 2, 1⟩
    let s : Settings := { rules := [{ helo := "a", mailFrom := "b", rcptTo := "c" }] }
    let refuses : Script :=
      { send := fun _ => { value := .ok () }
        read := fun n => { value := .ok { code := if n = 3 then 550 else 250, text := "" } } }
    let outcome : Outcome := .reported (s.recordOf refuses.peer 0 a false)
    ∃ x : Execution (.list [a]), x.moves = [.ask, .launched, .finish 0 outcome, .release 0] ∧
      ∃ h ∈ x.report.hosts, h.line = "[SECURE]  192.0.2.1 :: 1 rule(s) refused" ∧ h.Refused s := by
  intro a s refuses outcome
  let net : Network := { peer := fun _ => refuses.peer }
  let moves : List Dispatch.Move := [.ask, .launched, .finish 0 outcome, .release 0]
  let x : Execution (.list [a]) :=
    { retries := 0, limit := 1, moves, last := _, run := rfl, done := rfl }
  have hends : net.Ends s 0 a outcome false :=
    net.ends_of_calm (fun _ => rfl) (by decide +kernel)
  have hx : x.On s net := Execution.on_of_ends (List.forall_mem_singleton.2 ⟨a, rfl, hends⟩)
  have hline : (outcome.settled 0 a).line = "[SECURE]  192.0.2.1 :: 1 rule(s) refused" := by
    decide +kernel
  have hmem : outcome.settled 0 a ∈ x.report.hosts :=
    List.mem_of_getElem? (x.getElem?_hosts_of_ended rfl (List.mem_singleton.2 rfl))
  exact ⟨x, rfl, _, hmem, hline, secure_is_tested hx _ hmem (by rw [hline]; decide +kernel)⟩

end OpenRelay
