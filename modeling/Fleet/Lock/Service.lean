import Fleet.Lock.Table
import Fleet.Time.Alarm

/-!
# Lock services

A lock service is a lock table with the guards that stand for the locks taken
from it, the keepers that extend their leases, and the callers who wait for a
lock.

* **guards** — taking a lock yields a guard. Dropping the guard stops its
  keeper and ends the lease, if it is still the holder's;
* **keepers** — where extension is on, a guard comes with a keeper, which
  starts the lease again at regular intervals until it is stopped or finds the
  lease lost;
* **waiters** — a caller whose attempt failed waits at the end of the line
  until some lock is released or its retry alarm rings, and then tries again.
  A release notifies all who wait, in the order of the line.
-/

namespace Fleet

/-- The proof that a lock was taken and not given back. -/
structure Guard where
  number : Nat
  request : LockRequest
  deriving DecidableEq, Repr

/-- What extends the lease behind a guard. -/
structure Keeper where
  /-- The number of the guard. -/
  number : Nat
  request : LockRequest
  every : Duration
  /-- The alarm it sleeps by, once it has started. -/
  alarm : Option Alarm := none
  stopped : Bool := false
  deriving DecidableEq, Repr

/-- A caller who waits for a lock. -/
structure Waiter where
  owner : Nat
  request : LockRequest
  retry : Alarm
  notified : Bool := false
  deriving DecidableEq, Repr

/-- Whether a waiter has reason to try again. -/
def Waiter.isDue (w : Waiter) (now : Instant) : Bool := w.notified || w.retry.rings now

/-- A lock service. -/
structure LockService where
  /-- How long a waiter waits for a release before it tries again. -/
  retry : Duration := Duration.ofMillis 100
  /-- How often leases are extended, if they are. -/
  extension : Option Duration := some (Duration.ofSecs 1)
  table : LockTable := {}
  guards : List Guard := []
  keepers : List Keeper := []
  waiters : List Waiter := []
  nextNumber : Nat := 0
  deriving DecidableEq, Repr

namespace LockService

/-- How often leases are extended; an interval of zero means never. -/
def extensionEvery (d : Duration) : Option Duration := if d.nanos = 0 then none else some d

/-- Who holds a lock. -/
def holder? (σ : LockService) (now : Instant) (id : String) : Option String :=
  σ.table.holder? now id

/-- The keeper that a new guard comes with. -/
def newKeepers (σ : LockService) (r : LockRequest) : List Keeper :=
  σ.extension.toList.map fun every => ⟨σ.nextNumber, r, every, none, false⟩

/-- Takes a lock without waiting; the number of its guard. -/
def tryLock (σ : LockService) (now : Instant) (r : LockRequest) :
    LockService × Except LockError Nat :=
  match σ.table.tryLock now r with
  | .error e => (σ, .error e)
  | .ok T =>
    ({ σ with table := T, guards := σ.guards ++ [⟨σ.nextNumber, r⟩],
              keepers := σ.keepers ++ σ.newKeepers r, nextNumber := σ.nextNumber + 1 },
      .ok σ.nextNumber)

/-- The guard of a number. -/
def guard? (σ : LockService) (number : Nat) : Option Guard :=
  σ.guards.find? fun g => g.number == number

/-- Tells every waiter of a release; whom it told. -/
def notifyAll (σ : LockService) : LockService × List Nat :=
  ({ σ with waiters := σ.waiters.map fun w => { w with notified := true } },
    (σ.waiters.filter fun w => !w.notified).map (·.owner))

/-- Drops a guard; the waiters that are told of the release. -/
def dropGuard (σ : LockService) (number : Nat) : LockService × List Nat :=
  match σ.guard? number with
  | none => (σ, [])
  | some g =>
    let (T, freed) := σ.table.release g.request.id g.request.holder
    let σ : LockService :=
      { σ with table := T, guards := σ.guards.filter fun g => g.number ≠ number,
               keepers := σ.keepers.map fun k =>
                 if k.number = number then { k with stopped := true } else k }
    if freed then σ.notifyAll else (σ, [])

/-- The keeper of a guard. -/
def keeper? (σ : LockService) (number : Nat) : Option Keeper :=
  σ.keepers.find? fun k => k.number == number

/-- Takes the keeper of a guard out. -/
def dropKeeper (σ : LockService) (number : Nat) : LockService :=
  { σ with keepers := σ.keepers.filter fun k => k.number ≠ number }

/-- Lets the keeper of a guard sleep until it extends the lease again. -/
def restKeeper (σ : LockService) (k : Keeper) (now : Instant) (stamp : Nat) : LockService :=
  { σ with keepers := σ.keepers.map fun q =>
      if q.number = k.number then { k with alarm := some (Alarm.after now k.every stamp) } else q }

/-- One turn of the keeper of a guard. -/
def keeperTurn (σ : LockService) (number : Nat) (now : Instant) (stamp : Nat) : LockService :=
  match σ.keeper? number with
  | none => σ
  | some k =>
    if k.stopped then σ.dropKeeper number
    else match k.alarm with
      | none => σ.restKeeper k now stamp
      | some a =>
        if a.rings now then
          match σ.table.extend now k.request with
          | (T, true) => { σ with table := T }.restKeeper k now stamp
          | (_, false) => σ.dropKeeper number
        else σ

/-- What a caller waits by. -/
def waiter? (σ : LockService) (owner : Nat) : Option Waiter :=
  σ.waiters.find? fun w => w.owner == owner

/-- A caller stops waiting. -/
def abandon (σ : LockService) (owner : Nat) : LockService :=
  { σ with waiters := σ.waiters.filter fun w => w.owner ≠ owner }

/-- A caller tries to take a lock; after a conflict it waits, at the end of the
line. The number of the guard if there is one. -/
def attempt (σ : LockService) (owner : Nat) (r : LockRequest) (now : Instant) (stamp : Nat) :
    LockService × Option Nat :=
  match (σ.abandon owner).tryLock now r with
  | (τ, .ok number) => (τ, some number)
  | (τ, .error _) =>
    ({ τ with waiters := τ.waiters ++ [⟨owner, r, Alarm.after now τ.retry stamp, false⟩] }, none)

/-- Whether a caller who wants a lock has reason to try now: it has not tried
yet, or what it waited for has come. -/
def mayAttempt (σ : LockService) (owner : Nat) (now : Instant) : Bool :=
  (σ.waiter? owner).elim true fun w => w.isDue now

end LockService

end Fleet
