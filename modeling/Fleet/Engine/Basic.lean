import Fleet.Engine.Ledger
import Fleet.Engine.Reaper

/-!
# Engines

An engine is a ledger, a queue of requests that have been entered and not yet
been taken up, one worker that fulfils them in order, and a reaper.

* **wake-ups** — a worker that found no free host parks until it is woken.
  Being woken is a permit: an operation that may have made a host free, or
  taken the waited-for request away, leaves one, and it is kept until the
  worker uses it. One permit is as good as several;
* **stopping** — a stopped engine takes no new request and leases no more
  hosts; whatever is given back is still taken back.
-/

namespace Fleet

/-- What the worker of an engine is doing. -/
inductive Worker
  /-- It waits for a request. -/
  | idle
  /-- It is about to look for the next free host for a request that has been
  granted `granted` so far; `hinted` if the population has been asked to grow
  since the last grant. -/
  | seeking (request : Request) (granted : Nat) (hinted : Bool)
  /-- No host was free; it waits for a permit. -/
  | parked (request : Request) (granted : Nat)
  | gone
  deriving DecidableEq

/-- An engine. -/
structure Engine where
  ledger : Ledger
  /-- How long a request may keep its hosts. -/
  term : Duration
  reaper : Option Reaper
  queue : List Request := []
  worker : Worker := .idle
  permit : Bool := false
  stopped : Bool := false
  deriving DecidableEq

namespace Engine

/-- How long a request may keep its hosts unless told otherwise. -/
def defaultTerm : Duration := Duration.ofSecs 3600

/-- How often a reaper looks unless told otherwise. -/
def defaultReapInterval : Duration := Duration.ofSecs 1

/-- Enters a request, or finds it entered already. -/
def submit (σ : Engine) (now : Instant) (r : Request) : Engine × Except ProvisionError Snapshot :=
  match σ.ledger.describe? r.id with
  | some s => (σ, .ok s)
  | none =>
    if σ.stopped ∨ σ.worker = .gone then (σ, .error (.queueClosed r.id))
    else
      ({ σ with ledger := σ.ledger.submit r.id (Instant.deadline now σ.term),
                queue := σ.queue ++ [r] }, .ok (Snapshot.requested r.id))

/-- The snapshot of a request. -/
def describe (σ : Engine) (id : String) : Except ProvisionError Snapshot :=
  match σ.ledger.describe? id with
  | some s => .ok s
  | none => .error (.notFound id)

/-- The host of a reservation. -/
def exchange (σ : Engine) (r : Reservation) : Except ReservationError Host :=
  match σ.ledger.exchange? r.deviceId with
  | some h => .ok h
  | none => .error (.hostNotFound r.deviceId)

/-- Leaves a permit for the worker. -/
def wake (σ : Engine) (needed : Bool) : Engine := { σ with permit := σ.permit || needed }

/-- Gives a whole request back; how many devices came free. -/
def release (σ : Engine) (id : String) : Engine × Nat :=
  let (L, n) := σ.ledger.release id
  ({ σ with ledger := L }.wake true, n)

/-- Gives one device back; whether it came free. -/
def releaseDevice (σ : Engine) (deviceId : String) : Engine × Bool :=
  let (L, freed) := σ.ledger.releaseDevice deviceId
  ({ σ with ledger := L }.wake freed, freed)

/-- Gives the requests back whose deadline lies before an instant; how many. -/
def releaseExpired (σ : Engine) (now : Instant) : Engine × Nat :=
  let (L, n) := σ.ledger.releaseExpired now
  ({ σ with ledger := L }.wake (0 < n), n)

/-- Moves a request's deadline one term further; whether the request is there,
or `none` when the clock cannot show the new deadline. -/
def extend? (σ : Engine) (id : String) : Option (Engine × Bool) :=
  (σ.ledger.extend? id σ.term).map fun (L, found) => ({ σ with ledger := L }, found)

/-- Follows a change of the population. -/
def applyChange (σ : Engine) (c : Change) : Engine :=
  let (L, freed) := σ.ledger.applyChange c
  { σ with ledger := L }.wake freed

/-- Stops the engine. -/
def stop (σ : Engine) : Engine := { σ with stopped := true }

/-- One turn of the reaper. -/
def reaperTurn (σ : Engine) (now : Instant) (stamp : Nat) : Engine :=
  match σ.reaper with
  | none => σ
  | some r =>
    let (r, looks) := r.turn σ.stopped now stamp
    let σ := { σ with reaper := some r }
    if looks then (σ.releaseExpired now).1 else σ

/-- Whether the worker and the reaper have both ended. -/
def isOver (σ : Engine) : Bool :=
  σ.worker == .gone && (σ.reaper.elim true fun r => r.phase == .gone)

end Engine

end Fleet
