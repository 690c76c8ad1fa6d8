import Fleet.Lock.Acquisition

/-!
# Locked calls

A locked call enters what it guards only while it holds a lock: it acquires
the lock, goes in, and gives the lock back when it leaves.

* **refusal** — a call whose limit is over before the lock was granted never
  goes in;
* **leaving** — a call leaves when what it guards is over, and also when the
  caller goes away at any point on the way: either way the call stops waiting
  and its guard, if it has one, is dropped.
-/

namespace Fleet

/-- Where a locked call is. -/
inductive LockedPhase
  | waiting
  /-- It is inside, under a guard of that number. -/
  | inside (guard : Nat)
  /-- It gave up waiting. -/
  | refused
  | over
  deriving DecidableEq, Repr

/-- A call that goes in under a lock. -/
structure LockedCall where
  acquisition : Acquisition
  phase : LockedPhase := .waiting
  deriving DecidableEq, Repr

namespace LockedCall

/-- One turn of a call that waits for its lock. -/
def turn (c : LockedCall) (σ : LockService) (now : Instant) (stamp : Nat) :
    LockService × LockedCall :=
  match c.phase with
  | .waiting =>
    match c.acquisition.turn σ now stamp with
    | (σ, .waiting) => (σ, c)
    | (σ, .granted number) => (σ, { c with phase := .inside number })
    | (σ, .gaveUp) => (σ, { c with phase := .refused })
  | _ => (σ, c)

/-- What a call that leaves does to the lock service, and the waiters that are
told of the release. -/
def letGo (c : LockedCall) (σ : LockService) : LockService × List Nat :=
  match c.phase with
  | .waiting => (σ.abandon c.acquisition.owner, [])
  | .inside number => σ.dropGuard number
  | _ => (σ, [])

/-- The call leaves; the waiters that are told of the release. -/
def leave (c : LockedCall) (σ : LockService) : LockService × LockedCall × List Nat :=
  let (σ, told) := c.letGo σ
  (σ, { c with phase := .over }, told)

end LockedCall

end Fleet
