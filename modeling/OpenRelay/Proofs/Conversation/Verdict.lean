import Mathlib.Data.List.Nodup
import OpenRelay.Proofs.Conversation.Round

/-!
# The verdict of an attempt

* `relayed_iff_accepted`: an attempt went through if and only if the replies of its round accepted
  its sender and recipient and, if the scan sends mail, the message too. What comes after the last
  of these replies does not count: `RSET` and the rules that follow may be refused, may break, or
  may be cut off.
-/

namespace OpenRelay

variable {s : Settings} {address : Address} {index : Nat} {rule : Rule} {banner : Option Reply}
  {steps : List Step} {reset : Step} {a : Attempt} {c c' : Bool} {es : List Entry}

/-- The replies of a round accept the whole attempt of a rule. -/
def AcceptedIn (s : Settings) (rule : Rule) (round : List Entry) : Prop :=
  (∃ r, (rule.heloCommand, r) ∈ exchanges round ∧ 200 ≤ r.code ∧ r.code ≤ 299) ∧
  (∃ r, (rule.mailFromCommand, r) ∈ exchanges round ∧ 200 ≤ r.code ∧ r.code ≤ 299) ∧
  (∃ r, (rule.rcptToCommand, r) ∈ exchanges round ∧ 200 ≤ r.code ∧ r.code ≤ 299) ∧
  (s.sendData = true →
    (∃ r, ("DATA", r) ∈ exchanges round ∧ 300 ≤ r.code ∧ r.code ≤ 399) ∧
    ∃ r, (".", r) ∈ exchanges round ∧ 200 ≤ r.code ∧ r.code ≤ 299)

theorem isCompletion_iff (r : Reply) : r.isCompletion = true ↔ 200 ≤ r.code ∧ r.code ≤ 299 := by
  simp [Reply.isCompletion, Nat.lt_succ_iff]

theorem isIntermediate_iff (r : Reply) :
    r.isIntermediate = true ↔ 300 ≤ r.code ∧ r.code ≤ 399 := by
  simp [Reply.isIntermediate, Nat.lt_succ_iff]

/-- Stage by stage, an attempt is accepted if each stage has a reply that lets the next follow. -/
theorem acceptedIn_iff (round : List Entry) : AcceptedIn s rule round ↔
    ∀ st ∈ s.stages, ∃ r, (rule.line st, r) ∈ exchanges round ∧ st.accepts r = true := by
  unfold AcceptedIn Settings.stages
  simp only [← isCompletion_iff, ← isIntermediate_iff]
  by_cases hs : s.sendData = true
  · simp [hs, Rule.line, Stage.accepts]
  · simp [hs, Rule.line, Stage.accepts]

/-- **Steps come out as accepted if and only if each of them was.** -/
theorem Pursues.relayed_iff {out : Attempt × Option Halt} (h : Pursues steps a c es out c')
    (ha : a.verdict = .refused) (hne : (steps.map (·.command)).Nodup) :
    out.1.verdict = .relayed ↔
      ∀ st ∈ steps, ∃ r, (st.command, r) ∈ exchanges es ∧ st.stage.accepts r = true := by
  obtain ⟨taken, rest, rfl, hacc, h⟩ := h.course
  -- the reply to a step that was not accepted is not among those before it
  have hnot : ∀ {st rest' r}, rest = st :: rest' → (st.command, r) ∉ exchanged taken := by
    rintro st rest' r rfl hmem
    obtain ⟨x, hx, heq⟩ := List.mem_map.1 hmem
    rw [List.map_append, List.nodup_append] at hne
    exact hne.2.2 x.1.command (by simpa using ⟨x.1, ⟨x.2, hx⟩, rfl⟩) st.command (by simp)
      (congrArg Prod.fst heq)
  rcases h with ⟨rfl, -, hv, hx, -⟩ | ⟨st, r, rest', hrest, hr, -, hv, hx, -⟩ |
    ⟨st, halt, rest', cut, hrest, -, hv, -, hx, -⟩
  · refine ⟨fun _ st hst => ?_, fun _ => hv⟩
    rw [List.append_nil] at hst
    obtain ⟨x, hmem, rfl⟩ := List.mem_map.1 hst
    exact ⟨x.2, hx ▸ List.mem_map_of_mem hmem, hacc x hmem⟩
  · rw [hv, ha]
    refine ⟨fun h => Verdict.noConfusion h, fun h => ?_⟩
    obtain ⟨r', hmem, hr'⟩ := h st (by simp [hrest])
    rw [hx, List.mem_append, List.mem_singleton] at hmem
    rcases hmem with hmem | hmem
    · exact absurd hmem (hnot hrest)
    · obtain rfl : r' = r := congrArg Prod.snd hmem
      rw [hr] at hr'; cases hr'
  · rw [hv, ha]
    refine ⟨fun h => Verdict.noConfusion h, fun h => ?_⟩
    obtain ⟨r', hmem, -⟩ := h st (by simp [hrest])
    rw [hx] at hmem
    exact absurd hmem (hnot hrest)

/-- `RSET` adds nothing to the replies of the steps before it. -/
theorem Tries.pursues {out : Attempt × Option Halt} (h : Tries steps reset a c es out c') :
    ∃ es₁ b halt c₁, Pursues steps a c es₁ (b, halt) c₁ ∧ out.1.verdict = b.verdict ∧
      ∀ line r, line ≠ reset.command →
        ((line, r) ∈ exchanges es ↔ (line, r) ∈ exchanges es₁) := by
  cases h with
  | halted h => exact ⟨_, _, _, _, h, rfl, fun _ _ _ => Iff.rfl⟩
  | unreset h h' =>
    refine ⟨_, _, _, _, h, rfl, fun line r _ => ?_⟩
    rw [exchanges_append h'.speaks, exchanges_eq_nil h'.halted.1, List.append_nil]
  | reset h h' =>
    refine ⟨_, _, _, _, h, by simp, fun line r hline => ?_⟩
    rw [exchanges_append h'.speaks, h'.exchanges_answered]
    simp [hline]

theorem nodup_commands (s : Settings) (address : Address) (index : Nat) (rule : Rule) :
    ((s.stepsOf address index rule).map (·.command)).Nodup := by
  have hstages : ((s.stepsOf address index rule).map (·.stage)).Nodup := by
    rw [map_stage_stepsOf]
    unfold Settings.stages
    split <;> decide
  refine List.Nodup.of_map Stage.ofLine? ?_
  rw [List.map_map, show (s.stepsOf address index rule).map (Stage.ofLine? ∘ (·.command)) =
    ((s.stepsOf address index rule).map (·.stage)).map some by
      rw [List.map_map]; exact List.map_congr_left fun st hst => ofLine?_command hst]
  exact hstages.map fun _ _ => Option.some.inj

/-- The verdict of an attempt is what the replies of its round say. -/
theorem Attempted.relayed_iff (h : Attempted s address banner a es) :
    a.verdict = .relayed ↔ AcceptedIn s a.rule es := by
  obtain ⟨b, halt, c', ht, hb⟩ := h
  obtain ⟨es₁, b₁, halt₁, c₁, hp, hv, hx⟩ := ht.pursues
  have hverdict : a.verdict = b₁.verdict := by rw [hb, Attempt.verdict_ended, hv]
  rw [hverdict, acceptedIn_iff, hp.relayed_iff rfl (nodup_commands _ _ _ _),
    ← map_stage_stepsOf s address a.ruleIndex a.rule, List.forall_mem_map]
  refine forall_congr' fun st => forall_congr' fun hst => exists_congr fun r => ?_
  have hne : a.rule.line st.stage ≠ s.resetStep.command := by
    intro heq
    have h1 := ofLine?_command hst
    rw [command_of_mem_stepsOf hst, heq, show s.resetStep.command = "RSET" from rfl,
      ofLine?_rset] at h1
    have h2 := stages_subset s (stage_mem_stages hst)
    rw [← Option.some.inj h1] at h2
    exact absurd h2 (by decide)
  rw [command_of_mem_stepsOf hst, hx _ _ hne]

/-- **The verdicts of a check.** Whatever the peer does, and whenever it cancels the scan, an
attempt went through exactly if the replies of its round accepted all of it. -/
theorem relayed_iff_accepted (s : Settings) (p : Peer) (index : Nat) (address : Address)
    (cancelled : Bool) :
    List.Forall₂ (fun a round => a.verdict = .relayed ↔ AcceptedIn s a.rule round)
        (s.recordOf p index address cancelled).attempts
        (rounds (s.logOf p index address cancelled)) ∧
      (s.recordOf p index address cancelled).attempts.map (fun a => (a.rule, a.ruleIndex)) <+:
        s.rulesFor (s.recordOf p index address cancelled) := by
  obtain ⟨c', h⟩ := s.checks p index address cancelled
  obtain ⟨hall, hrules⟩ := h.attempted
  exact ⟨hall.imp fun a round => Attempted.relayed_iff, hrules⟩

end OpenRelay
