import Fleet.Lock.Service

/-!
# Acquisitions

A caller who acquires a lock tries, waits, and tries again until the lock is
granted. With a limit the caller gives up when the limit is over; but whenever
both an attempt and the limit are due, the attempt comes first, so that even a
limit of zero leaves room for one attempt.
-/

namespace Fleet

/-- A caller on the way to a lock. -/
structure Acquisition where
  owner : Nat
  request : LockRequest
  /-- When the caller gives up. -/
  limit : Option Alarm := none
  deriving DecidableEq, Repr

namespace Acquisition

/-- Where a caller stands after a turn. -/
inductive Progress
  | waiting
  /-- The lock was granted under a guard of that number. -/
  | granted (number : Nat)
  /-- The limit is over. -/
  | gaveUp
  deriving DecidableEq, Repr

/-- The acquisition of a caller who gives up after a while. -/
def start (owner : Nat) (r : LockRequest) (limit : Option Duration) (now : Instant) (stamp : Nat) :
    Acquisition :=
  ⟨owner, r, limit.map fun d => Alarm.after now d stamp⟩

/-- Gives up if the limit is over. -/
def checkLimit (a : Acquisition) (σ : LockService) (now : Instant) : LockService × Progress :=
  if a.limit.any fun l => l.rings now then (σ.abandon a.owner, .gaveUp) else (σ, .waiting)

/-- One turn of the caller. -/
def turn (a : Acquisition) (σ : LockService) (now : Instant) (stamp : Nat) :
    LockService × Progress :=
  if σ.mayAttempt a.owner now then
    match σ.attempt a.owner a.request now stamp with
    | (σ, some number) => (σ, .granted number)
    | (σ, none) => a.checkLimit σ now
  else a.checkLimit σ now

end Acquisition

end Fleet
