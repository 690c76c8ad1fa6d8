import Fleet.Simulation.Guarding
import Fleet.Text.Quoted

/-!
# Steps on locks

Lock services are made, locks taken without waiting, and guards dropped. The
locks that a step names are watched from then on: their holders are reported.
-/

namespace Fleet.Simulation

/-- A step on a lock service or a guard. -/
inductive LockAction
  | create (name : String) (service : LockService)
  /-- Makes a lock service that refuses every acquisition. -/
  | createBroken (name : String) (error : LockError)
  | tryLock (locks guardName id : String) (holder : Option String) (ttl : Duration)
  | dropGuard (guardName : String)
  /-- Makes a guard that stands for no lock. -/
  | rawGuard (guardName id : String)

/-- The holder of a raw guard. -/
def rawHolder : String := "raw"

/-- A guard in words. -/
def guardText (r : LockRequest) : String :=
  "LockGuard \x7b input: LockInput \x7b id: " ++ Text.quoted r.id ++ ", holder: " ++
    Text.quoted r.holder ++ ", ttl: " ++ r.ttl.text ++ " \x7d, .. \x7d"

namespace World

/-- Puts a lock service under a name. -/
def addLocks (σ : World) (name : String) (b : LockBackend) : World :=
  let entry : LocksName := ⟨σ.locks.size, []⟩
  { σ with locks := σ.locks.push b,
           names := { σ.names with locks := σ.names.locks.put name entry } }

/-- Has the holder of a lock reported. -/
def watch (σ : World) (locks id : String) : World :=
  match σ.names.locks.get? locks with
  | none => σ
  | some l =>
    if l.watched.contains id then σ
    else
      let entry := { l with watched := l.watched ++ [id] }
      { σ with names := { σ.names with locks := σ.names.locks.put locks entry } }

/-- Remembers a holder that a step has named. -/
def nameHolder (σ : World) (holder : String) : World :=
  if σ.names.holders.contains holder then σ
  else { σ with names := { σ.names with holders := holder :: σ.names.holders } }

/-- The request for a lock that a step makes, under a holder of its own if it
names none; the lock is watched from now on. -/
def lockRequest (σ : World) (locks id : String) (holder : Option String) (ttl : Duration) :
    World × LockRequest :=
  let σ := σ.watch locks id
  match holder with
  | some h => (σ.nameHolder h, ⟨id, h, ttl⟩)
  | none =>
    let (σ, h) := σ.freshHolder
    (σ, ⟨id, h, ttl⟩)

/-- The number of a named lock service. -/
def locks? (σ : World) (name : String) : Option Nat := (σ.names.locks.get? name).map (·.locks)

/-- Takes a lock without waiting. -/
def tryLock (σ : World) (l : Nat) (r : LockRequest) (guardName : String) : World × Outcome :=
  match σ.lockService? l with
  | none => (σ, .nothing)
  | some L =>
    match L.tryLock σ.now r with
    | (_, .error e) => (σ, .failed (.lock e))
    | (L, .ok number) =>
      (((σ.setLocks l L).wakeKeeper l number).storeGuard guardName (.taken l number), .lease r)

/-- Carries out a step on a lock service or a guard. -/
def performLock (σ : World) : LockAction → World × Outcome
  | .create name service => (σ.addLocks name (.table service), .nothing)
  | .createBroken name error => (σ.addLocks name (.broken error), .nothing)
  | .tryLock locks guardName id holder ttl =>
    let (σ, r) := σ.lockRequest locks id holder ttl
    (σ.locks? locks).elim (σ, .nothing) fun l => σ.tryLock l r guardName
  | .dropGuard guardName =>
    match σ.names.guards.get? guardName with
    | none => (σ, .flag false)
    | some g =>
      let guards := σ.names.guards.erase guardName
      ({ σ with names := { σ.names with guards } }.dropGuard g, .flag true)
  | .rawGuard guardName id =>
    (σ.storeGuard guardName .raw, .text (guardText ⟨id, rawHolder, LockRequest.defaultTtl⟩))

end World

end Fleet.Simulation
