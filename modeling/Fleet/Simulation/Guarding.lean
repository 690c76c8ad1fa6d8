import Fleet.Simulation.World

/-!
# Locks of a world

Guards under names, and the locks of calls. Whenever a guard is dropped its
keeper is woken to find itself stopped, and the waiters that are told of the
release are woken in the order of the line.
-/

namespace Fleet.Simulation.World

/-- The lock service of a number, unless it is broken. -/
def lockService? (σ : World) (l : Nat) : Option LockService :=
  match σ.locks[l]? with
  | some (.table L) => some L
  | _ => none

/-- Replaces the state of a lock service. -/
def setLocks (σ : World) (l : Nat) (L : LockService) : World :=
  { σ with locks := σ.locks.setIfInBounds l (.table L) }

/-- Wakes the keeper of a guard, if it has one. -/
def wakeKeeper (σ : World) (l guardNumber : Nat) : World :=
  match σ.lockService? l with
  | some L => if (L.keeper? guardNumber).isSome then σ.wake (.keeper l guardNumber) else σ
  | none => σ

/-- Stops the keeper of a dropped guard and wakes those who are told of the
release. -/
def afterDrop (σ : World) (l : Nat) (guardNumber : Option Nat) (told : List Nat) : World :=
  let σ := guardNumber.elim σ (σ.wakeKeeper l)
  σ.wakeAll (told.map .call)

/-- Drops a guard. -/
def dropGuard (σ : World) : GuardName → World
  | .raw => { σ with rawReleased := σ.rawReleased + 1 }
  | .taken l guardNumber =>
    match σ.lockService? l with
    | none => σ
    | some L =>
      let (L, told) := L.dropGuard guardNumber
      (σ.setLocks l L).afterDrop l (some guardNumber) told

/-- Keeps a guard under a name; the one that was there is dropped. -/
def storeGuard (σ : World) (name : String) (g : GuardName) : World :=
  let old := σ.names.guards.get? name
  let σ := { σ with names := { σ.names with guards := σ.names.guards.put name g } }
  old.elim σ σ.dropGuard

/-- A locked call leaves. -/
def leaveLock (σ : World) (l : Nat) (c : LockedCall) : World :=
  match σ.lockService? l with
  | none => σ
  | some L =>
    let (L, _, told) := c.leave L
    let guardNumber := match c.phase with
      | .inside number => some number
      | _ => none
    (σ.setLocks l L).afterDrop l guardNumber told

/-- Locked calls leave in order. -/
def leaveAll (σ : World) (held : List (Nat × LockedCall)) : World :=
  held.foldl (fun σ (l, c) => σ.leaveLock l c) σ

end Fleet.Simulation.World
