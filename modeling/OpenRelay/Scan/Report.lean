import OpenRelay.Host.Record

/-!
# Reports

* `Report`: the records of a scan in the order of its targets.
* `Tally`: how many hosts are in which state.
-/

namespace OpenRelay

/-- What a scan found out. -/
structure Report where
  hosts : List HostRecord
  /-- Whether the scan was cancelled. -/
  cancelled : Bool := false
  /-- The most tasks that ran at the same time. -/
  peakActive : Nat := 0
deriving DecidableEq

/-- Counts over the hosts of a report. -/
structure Tally where
  hosts : Nat
  smtpOpen : Nat
  unreachable : Nat
  vulnerable : Nat
  fatal : Nat
  cancelled : Nat
  attempts : Nat
deriving DecidableEq

/-- Whether a host was tried and no connection could be opened. -/
def HostRecord.isUnreachable (h : HostRecord) : Bool := !h.smtpOpen && (h.visited && !h.cancelled)

namespace Report

/-- The hosts that relay. -/
def vulnerable (r : Report) : List HostRecord := r.hosts.filter HostRecord.isVulnerable

/-- The counts. A host may count in several of them. -/
def tally (r : Report) : Tally where
  hosts := r.hosts.length
  smtpOpen := r.hosts.countP (·.smtpOpen)
  unreachable := r.hosts.countP HostRecord.isUnreachable
  vulnerable := r.hosts.countP HostRecord.isVulnerable
  fatal := r.hosts.countP HostRecord.isFatal
  cancelled := r.hosts.countP (·.cancelled)
  attempts := (r.hosts.flatMap (·.attempts)).length

end Report

namespace Tally

/-- The counts in one line. -/
protected def toString (t : Tally) : String :=
  s!"{t.hosts} host(s): {t.smtpOpen} smtp open, {t.unreachable} unreachable, " ++
  s!"{t.vulnerable} open relay(s), {t.fatal} fatal, {t.cancelled} cancelled, " ++
  s!"{t.attempts} check(s)"

instance : ToString Tally := ⟨Tally.toString⟩

end Tally

end OpenRelay
