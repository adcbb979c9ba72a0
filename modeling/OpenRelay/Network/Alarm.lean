import OpenRelay.Duration
import Std.Internal.UV.Timer

/-!
# Alarms

An alarm goes off after a time. A call that may take too long is raced against one.
-/

namespace OpenRelay

open Std.Internal.UV (Timer)

/-- An alarm that was set. -/
structure Alarm where
  timer : Timer
  /-- Ends when the alarm goes off. -/
  ring : Task (Option Unit)

namespace Alarm

/-- The longest time in milliseconds for which an alarm can be set. -/
def longest : Nat := 0x7FFFFFFFFFFFFFFF

/-- Sets an alarm. Times too long for an alarm are cut off. -/
def set (after : Duration) : IO Alarm := do
  let timer ← Timer.mk (min after.millis longest).toUInt64 false
  return { timer, ring := (← timer.next).result? }

/-- What a call gives, or nothing if the alarm goes off first. -/
def race {α : Type} (a : Alarm) (call : IO.Promise α) : IO (Option α) :=
  IO.waitAny [call.result?, a.ring.map fun _ => none]

/-- Turns the alarm off. -/
def cancel (a : Alarm) : IO Unit := a.timer.stop

end Alarm

end OpenRelay
