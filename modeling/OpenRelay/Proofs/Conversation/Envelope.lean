import OpenRelay.Proofs.Conversation.Commands

/-!
# The envelope on the wire

The commands with an argument carry the fields of the rules of the scan, filled in for the host,
and nothing else.

* `Field.stage`: the command that carries a field.
* `Rule.line_stage`: the field stands in it between two fixed texts.
* `sent_field`: where the arguments of the commands that were sent come from.
* `acceptsAll`: a server for runs in which every command is sent.
-/

namespace OpenRelay

variable {s : Settings} {rules : List (Rule × Nat)} {address : Address} {past : List Entry}
  {line : String} {f : Field}

namespace Field

/-- The stage whose command carries a field. -/
def stage : Field → Stage
  | helo => .helo
  | mailFrom => .mailFrom
  | rcptTo => .rcptTo

/-- What stands before a field in its command. -/
def opening : Field → String
  | helo => "HELO "
  | mailFrom => "MAIL FROM:<"
  | rcptTo => "RCPT TO:<"

/-- What stands behind it. -/
def closing : Field → String
  | helo => ""
  | mailFrom | rcptTo => ">"

end Field

theorem Rule.line_stage (r : Rule) (f : Field) :
    r.line f.stage = f.opening ++ r.get f ++ f.closing := by
  cases f with
  | helo => exact (String.append_empty).symm
  | mailFrom | rcptTo => rfl

theorem Rule.get_expand (r : Rule) (b : Bindings) (f : Field) :
    (r.expand b).get f = b.apply (r.get f) := by
  cases f <;> rfl

/-- A command with an argument is due only as the command of a rule. -/
theorem Due.eq_line (hdue : Due s rules address past line)
    (hline : Stage.ofLine? line = some f.stage) : ∃ x ∈ rules, line = x.1.line f.stage := by
  unfold Due at hdue
  rw [hline] at hdue
  cases f with
  | helo =>
    obtain ⟨rule, hrule, rfl, -⟩ := hdue
    exact ⟨_, List.mem_of_getElem? hrule, rfl⟩
  | mailFrom | rcptTo =>
    obtain ⟨rule, k, r, ⟨hrule, -⟩, rfl, -⟩ := hdue
    exact ⟨_, List.mem_of_getElem? hrule, rfl⟩

/-- **Where the arguments come from**: a command with an argument that a check sends is that of a
rule of the scan, filled in for the host. -/
theorem sent_field {p : Peer} {index : Nat} {cancelled : Bool}
    (hmem : line ∈ sentLines (s.logOf p index address cancelled))
    (hline : Stage.ofLine? line = some f.stage) :
    ∃ r ∈ s.rules, line = (r.expand
      { address, hostname := (s.recordOf p index address cancelled).hostname
        mailbox := s.mailbox }).line f.stage := by
  obtain ⟨c', hc⟩ := s.checks p index address cancelled
  have haddress := congrArg Prod.snd hc.place_eq
  obtain ⟨e, he, hsent⟩ := mem_sentLines.1 hmem
  obtain ⟨pre, post, hlog⟩ := List.append_of_mem he
  have hord := hc.orderly.1
  rw [hlog] at hord
  obtain ⟨x, hx, rfl⟩ := (hord.allowed.due line hsent).eq_line hline
  obtain ⟨r, hr, heq⟩ := List.mem_map.1 (List.fst_mem_of_mem_zipIdx hx)
  refine ⟨r, hr, ?_⟩
  rw [← heq]
  exact congrArg (fun x => (r.expand { address := x, hostname := _, mailbox := _ }).line f.stage)
    haddress

/-- A server that accepts every command. -/
def acceptsAll : Script where
  send _ := { value := .ok () }
  read _ := { value := .ok { code := 250, text := "" } }

end OpenRelay
