/-!
# Permits

A scan runs no more tasks at a time than its limit. Each task holds a permit from its start to
its end, however it ends.

* `Permits`: how many permits are out, and how many were out at most.
* `Clients`: permits together with those who hold them.
-/

namespace OpenRelay

/-- A supply of permits. -/
structure Permits where
  limit : Nat
  active : Nat := 0
  peak : Nat := 0
deriving DecidableEq

/-- What comes of asking for a permit. -/
inductive Grant where
  | granted (p : Permits)
  /-- The scan was cancelled. -/
  | denied
  /-- All permits are out. -/
  | waits
deriving DecidableEq

namespace Permits

/-- A supply with at least one permit. -/
def ofLimit (limit : Nat) : Permits := { limit := max limit 1 }

/-- Hands out a permit, if one is left. -/
def tryAcquire (p : Permits) : Option Permits :=
  if p.active < p.limit then
    some { p with active := p.active + 1, peak := max p.peak (p.active + 1) }
  else none

/-- Hands out a permit unless the scan was cancelled. -/
def acquire (p : Permits) (cancelled : Bool) : Grant :=
  if cancelled then .denied
  else
    match p.tryAcquire with
    | some p => .granted p
    | none => .waits

/-- Takes a permit back. -/
def release (p : Permits) : Permits := { p with active := p.active - 1 }

end Permits

/-- A supply of permits, the number of permits that clients hold, and whether the scan was
cancelled. -/
structure Clients where
  permits : Permits
  held : Nat := 0
  cancelled : Bool := false
deriving DecidableEq

/-- What a client asks for. -/
inductive Request where
  | tryAcquire
  | acquire
  /-- Gives back the permit at this place of those held, oldest first. -/
  | drop (place : Nat)
  | cancel
deriving DecidableEq

/-- The answer to a request: done, not done, or not before a permit comes back. -/
inductive Response where
  | yes
  | no
  | waits
deriving DecidableEq

/-- Serves one request. -/
def Clients.serve (c : Clients) : Request → Clients × Response
  | .tryAcquire =>
    match c.permits.tryAcquire with
    | some permits => ({ c with permits, held := c.held + 1 }, .yes)
    | none => (c, .no)
  | .acquire =>
    match c.permits.acquire c.cancelled with
    | .granted permits => ({ c with permits, held := c.held + 1 }, .yes)
    | .denied => (c, .no)
    | .waits => (c, .waits)
  | .drop place =>
    if place < c.held then
      ({ c with permits := c.permits.release, held := c.held - 1 }, .yes)
    else (c, .no)
  | .cancel => ({ c with cancelled := true }, .yes)

end OpenRelay
