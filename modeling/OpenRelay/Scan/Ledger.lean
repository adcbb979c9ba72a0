import OpenRelay.Host.Record
import OpenRelay.Target.Targets

/-!
# The ledger of a scan

The ledger holds one record for each target, at the place of the target. A record is pending
until its task reports; each place takes one report.

* `Ledger.complete`: enters a report.
* `Ledger.finalize`: says of the records that are still pending why they are.
-/

namespace OpenRelay

/-- The records of a scan by place. -/
structure Ledger where
  records : Array HostRecord
deriving DecidableEq

/-- Why a report cannot be entered. -/
inductive LedgerError where
  | outOfRange (index size : Nat)
  | alreadyCompleted (index : Nat)
deriving DecidableEq

/-- The text shown to the user. -/
def LedgerError.message : LedgerError → String
  | .outOfRange index size => s!"host index {index} is outside the store (len {size})"
  | .alreadyCompleted index => s!"host index {index} was already completed"

namespace Ledger

/-- A ledger with a pending record for each target. -/
def ofTargets (t : Targets) : Ledger where
  records := (t.toList.zipIdx.map fun (address, index) => { index, address }).toArray

/-- The number of records. -/
def size (l : Ledger) : Nat := l.records.size

/-- The record at a place. -/
def get? (l : Ledger) (index : Nat) : Option HostRecord := l.records[index]?

/-- Enters the report for a place. The place says which host it is about. -/
def complete (l : Ledger) (index : Nat) (record : HostRecord) : Except LedgerError Ledger :=
  match l.get? index with
  | none => .error (.outOfRange index l.size)
  | some pending =>
    if pending.visited then .error (.alreadyCompleted index)
    else
      let record := { record with index, address := pending.address, visited := true }
      .ok { records := l.records.setIfInBounds index record }

/-- Enters a report if its place takes it. -/
def enter (l : Ledger) (index : Nat) (record : HostRecord) : Ledger :=
  match l.complete index record with
  | .ok l => l
  | .error _ => l

/-- A pending record after the scan: its task vanished if there was one. -/
def close (admitted : Nat) (r : HostRecord) : HostRecord :=
  if r.visited then r
  else if r.index < admitted then
    { r with fatalError := true, error := some "scan task ended without reporting" }
  else { r with cancelled := true }

/-- Closes the records that are still pending when tasks were started for the first `admitted`
places. -/
def finalize (l : Ledger) (admitted : Nat) : Ledger := { records := l.records.map (close admitted) }

/-- Says that the task for a place could not be started. -/
def markUnstarted (l : Ledger) (index : Nat) (reason : String) : Ledger where
  records := l.records.modify index fun r =>
    if r.visited then r
    else { r with cancelled := false, fatalError := true, error := some reason }

end Ledger

end OpenRelay
