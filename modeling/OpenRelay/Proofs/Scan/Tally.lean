import Mathlib.Algebra.BigOperators.Ring.List
import Mathlib.Algebra.Order.BigOperators.Group.List
import Mathlib.Algebra.Order.Ring.Nat
import OpenRelay.Proofs.Scan.States

/-!
# The counts of a report

The counts are taken apart from each other. That they agree is no matter of how they are taken: it
follows from the states in which hosts come out of a scan.

* `HostRecord.Stands.once`: each host counts in one way.
* `Report.Balanced`: how the counts of a report agree.
* `tally_balanced`: the counts of every report do.
-/

namespace OpenRelay

/-! ## Counts as sums -/

section

variable {α β : Type} {l : List α} {p : α → Bool}

theorem countP_cons_eq_add (p : α → Bool) (a : α) (l : List α) :
    (a :: l).countP p = (p a).toNat + l.countP p := by
  rw [List.countP_cons, Nat.add_comm]
  cases p a <;> rfl

/-- A count is a sum, to which an element adds one or nothing. -/
theorem countP_eq_sum (p : α → Bool) (l : List α) :
    l.countP p = (l.map fun a => (p a).toNat).sum := by
  induction l with
  | nil => rfl
  | cons a l ih => rw [countP_cons_eq_add, ih, List.map_cons, List.sum_cons]

/-- A count is the sum of other counts if each element counts so. -/
theorem countP_eq_sum_countP (ps : List (α → Bool))
    (h : ∀ a ∈ l, (p a).toNat = (ps.map fun q => (q a).toNat).sum) :
    l.countP p = (ps.map l.countP).sum := by
  induction l with
  | nil => simp
  | cons a l ih =>
    obtain ⟨ha, hl⟩ := List.forall_mem_cons.1 h
    have hsum : (ps.map (a :: l).countP).sum =
        (ps.map fun q => (q a).toNat).sum + (ps.map l.countP).sum := by
      rw [← List.sum_map_add]
      simp only [countP_cons_eq_add]
    rw [countP_cons_eq_add, ha, ih hl, hsum]

/-- A list made of pieces, one for each element that counts, each of at most so many entries. -/
theorem length_flatMap_le {f : α → List β} {n : Nat}
    (h : ∀ a ∈ l, (f a).length ≤ (p a).toNat * n) : (l.flatMap f).length ≤ l.countP p * n := by
  rw [List.length_flatMap, countP_eq_sum, ← List.sum_map_mul_right]
  exact List.sum_le_sum h

theorem length_flatMap_eq {f : α → List β} {n : Nat}
    (h : ∀ a ∈ l, (f a).length = (p a).toNat * n) : (l.flatMap f).length = l.countP p * n := by
  rw [List.length_flatMap, countP_eq_sum, ← List.sum_map_mul_right, List.map_congr_left h]

end

/-! ## The counts of a host -/

/-- Whether the scan was cancelled before a connection to the host was opened. -/
def HostRecord.isSkipped (h : HostRecord) : Bool := h.cancelled && !h.smtpOpen

/-- The ways in which a host with these flags can count. -/
def Flags.ways (f : Flags) : List Bool :=
  [f.smtpOpen, !f.smtpOpen && (f.visited && !f.cancelled), f.cancelled && !f.smtpOpen, f.fatalError]

namespace HostRecord

variable {s : Settings} {h : HostRecord}

/-- **A host counts in one way**: it was reached, it could not be reached, it was skipped, or its task
failed. -/
theorem Stands.once (hs : h.Stands s) :
    [h.smtpOpen, h.isUnreachable, h.isSkipped, h.fatalError].count true = 1 := by
  have hall : ∀ f ∈ Flags.known, f.ways.count true = 1 := by decide
  exact hall h.flags hs.flags_mem

/-- The conversation does not break with a host whose task failed. -/
theorem Stands.isFatal_eq (hs : h.Stands s) :
    h.isFatal.toNat = h.fatal.toNat + h.fatalError.toNat := by
  have hall : ∀ f ∈ Flags.known,
      (f.fatal || f.fatalError).toNat = f.fatal.toNat + f.fatalError.toNat := by decide
  exact hall h.flags hs.flags_mem

/-- A host that was not reached was not tried. Any other was tried with some of the rules, and with
all of them if neither the conversation broke nor the scan was cancelled. -/
theorem Stands.attempts (hs : h.Stands s) :
    (h.smtpOpen = false ∧ h.attempts = []) ∨
      (h.smtpOpen = true ∧ h.attempts.length ≤ s.rules.length ∧
        (h.fatal = false → h.cancelled = false → h.attempts.length = s.rules.length)) := by
  show (h.flags.smtpOpen = false ∧ _) ∨ (h.flags.smtpOpen = true ∧ _ ∧
    (h.flags.fatal = false → h.flags.cancelled = false → _))
  cases hs with
  | skipped hflags hnone | unreachable hflags hnone | failed hflags hnone
  | unstarted hflags hnone =>
    rw [hflags]
    exact Or.inl ⟨rfl, hnone⟩
  | broken hflags hlength | interrupted hflags hlength =>
    rw [hflags]
    exact Or.inr ⟨rfl, hlength, by intro _ _; contradiction⟩
  | complete hflags hlength =>
    rw [hflags]
    exact Or.inr ⟨rfl, Nat.le_of_eq hlength, fun _ _ => hlength⟩

/-- Only a host that was reached can relay. -/
theorem Stands.smtpOpen_of_isVulnerable (hs : h.Stands s) (hrelays : h.isVulnerable = true) :
    h.smtpOpen = true := by
  rcases hs.attempts with ⟨-, hnone⟩ | ⟨hopen, -⟩
  · rw [isVulnerable, hnone] at hrelays
    cases hrelays
  · exact hopen

end HostRecord

/-! ## The counts of a report -/

/-- How the counts of a report agree with each other. -/
structure Report.Balanced (s : Settings) (r : Report) : Prop where
  /-- No host counts twice among those that were reached, could not be reached, were skipped, or had
  a task that failed. -/
  once : ∀ h ∈ r.hosts, [h.smtpOpen, h.isUnreachable, h.isSkipped, h.fatalError].count true = 1
  hosts : r.tally.hosts = r.tally.smtpOpen + r.tally.unreachable +
    r.hosts.countP HostRecord.isSkipped + r.hosts.countP (·.fatalError)
  vulnerable : r.tally.vulnerable ≤ r.tally.smtpOpen
  fatal : r.tally.fatal = r.hosts.countP (·.fatal) + r.hosts.countP (·.fatalError)
  attempts_le : r.tally.attempts ≤ r.tally.smtpOpen * s.rules.length
  attempts_eq : (∀ h ∈ r.hosts, h.fatal = false ∧ h.cancelled = false) →
    r.tally.attempts = r.tally.smtpOpen * s.rules.length

/-- The counts agree because the counts of each host do. -/
theorem Report.balanced_of_stands {s : Settings} {r : Report} (h : ∀ h ∈ r.hosts, h.Stands s) :
    r.Balanced s where
  once host hmem := (h host hmem).once
  hosts := by
    have hone := countP_eq_sum_countP (l := r.hosts) (p := fun _ => true)
      [(·.smtpOpen), HostRecord.isUnreachable, HostRecord.isSkipped, (·.fatalError)]
      fun host hmem => by
        have honce := (h host hmem).once
        rw [List.count, countP_eq_sum] at honce
        simpa using honce.symm
    simpa [tally, Nat.add_assoc] using hone
  vulnerable := List.countP_mono_left fun host hmem => (h host hmem).smtpOpen_of_isVulnerable
  fatal := by
    have hsum := countP_eq_sum_countP (l := r.hosts) (p := HostRecord.isFatal)
      [(·.fatal), (·.fatalError)] fun host hmem => by
        simpa using (h host hmem).isFatal_eq
    simpa [tally] using hsum
  attempts_le := by
    refine length_flatMap_le fun host hmem => ?_
    rcases (h host hmem).attempts with ⟨hopen, hnone⟩ | ⟨hopen, hle, -⟩
    · simp [hopen, hnone]
    · simpa [hopen] using hle
  attempts_eq hwhole := by
    refine length_flatMap_eq fun host hmem => ?_
    obtain ⟨hfatal, hcancelled⟩ := hwhole host hmem
    rcases (h host hmem).attempts with ⟨hopen, hnone⟩ | ⟨hopen, -, hall⟩
    · simp [hopen, hnone]
    · simpa [hopen] using hall hfatal hcancelled

/-- **The counts of every report agree**, whatever the hosts answer, whichever tasks fail, and
during whichever calls the scan is cancelled. -/
theorem tally_balanced {t : Targets} {x : Execution t} {s : Settings} {net : Network}
    (hx : x.On s net) : x.report.Balanced s :=
  Report.balanced_of_stands hx.stands

/-- The counts of a scan that finds hosts in different states and is cancelled in the end. -/
theorem mixed_balanced :
    Mixed.execution.On Mixed.settings Mixed.network ∧
      Mixed.execution.report.tally =
        { hosts := 6, smtpOpen := 3, unreachable := 1, vulnerable := 1, fatal := 2, cancelled := 1
          attempts := 3 } ∧
      Mixed.execution.report.Balanced Mixed.settings :=
  ⟨Mixed.execution_on, by decide +kernel, tally_balanced Mixed.execution_on⟩

end OpenRelay
