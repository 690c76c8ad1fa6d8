import Fleet.Population.Membership
import Fleet.Registry
import Fleet.Snapshot
import Fleet.Time.Instant

/-!
# The ledger of an engine

What an engine knows about its hosts and requests: the *directory* of hosts by
device identifier, the *free* hosts in the order in which they will be leased,
and the *entries* of the requests with their snapshots and deadlines.

* **leases** — `grant?` takes the host at the head of the free list and appends
  it to a request's reservations;
* **ways back** — a whole request (`release`), the requests whose deadline has
  passed (`releaseExpired`), one device (`releaseDevice`). A device comes back
  as the host that the directory holds for it now, and not at all when it has
  left the directory;
* **changes** — `applyChange` follows the population: a host that joins
  replaces the one the directory holds under its device identifier and is free
  unless that device is leased; a host that leaves is taken out if it is the
  one the directory holds.
-/

namespace Fleet

/-- A request as the ledger keeps it. -/
structure Entry where
  snapshot : Snapshot
  expires : Instant
  deriving DecidableEq, Repr

/-- The hosts and requests of an engine. -/
structure Ledger where
  entries : Registry Entry := []
  free : List Host := []
  directory : Registry Host := []
  deriving DecidableEq, Repr

namespace Ledger

/-- Enters a host at the start: the first host of a device identifier counts. -/
def enrol (L : Ledger) (h : Host) : Ledger :=
  if L.directory.has h.deviceId then L
  else { L with directory := L.directory.put h.deviceId h, free := L.free ++ [h] }

/-- The ledger of an engine that starts with those hosts. -/
def ofHosts (hosts : List Host) : Ledger := hosts.foldl enrol {}

/-- The snapshot of a request. -/
def describe? (L : Ledger) (id : String) : Option Snapshot := (L.entries.get? id).map (·.snapshot)

/-- The host of a device. -/
def exchange? (L : Ledger) (deviceId : String) : Option Host := L.directory.get? deviceId

/-- Makes a device free again, as the host that the directory holds for it;
whether that changed anything. -/
def reclaim (L : Ledger) (deviceId : String) : Ledger × Bool :=
  match L.directory.get? deviceId with
  | none => (L, false)
  | some h => if h ∈ L.free then (L, false) else ({ L with free := L.free ++ [h] }, true)

/-- Makes devices free again in order; how many were. -/
def reclaimAll (L : Ledger) : List String → Ledger × Nat
  | [] => (L, 0)
  | d :: rest =>
    let (L, freed) := L.reclaim d
    let (L, n) := L.reclaimAll rest
    (L, n + if freed then 1 else 0)

/-- Whether some request holds a device. -/
def isLeased (L : Ledger) (deviceId : String) : Bool :=
  L.entries.any fun e => e.2.snapshot.holds deviceId

/-- Replaces the snapshot of a request. -/
def setSnapshot (L : Ledger) (id : String) (s : Snapshot) : Ledger :=
  match L.entries.get? id with
  | none => L
  | some e => { L with entries := L.entries.put id { e with snapshot := s } }

/-- Takes a device out of the reservations of the request that holds it. -/
def detach (L : Ledger) (deviceId : String) : Ledger :=
  match L.entries.find? fun e => e.2.snapshot.holds deviceId with
  | none => L
  | some (id, e) => L.setSnapshot id (e.snapshot.withoutDevice deviceId)

/-- Enters a request that is not there yet. -/
def submit (L : Ledger) (id : String) (expires : Instant) : Ledger :=
  { L with entries := L.entries.put id ⟨Snapshot.requested id, expires⟩ }

/-- Notes that a request is being fulfilled; whether it is there. -/
def markProvisioning (L : Ledger) (id : String) : Ledger × Bool :=
  match L.entries.get? id with
  | none => (L, false)
  | some e => (L.setSnapshot id (e.snapshot.withStatus .provisioning), true)

/-- What became of an attempt to lease a host to a request. -/
inductive Attempt
  /-- The request is not there any more. -/
  | abandoned
  /-- No host is free. -/
  | noHost
  /-- This host was leased. -/
  | granted (host : Host) (ledger : Ledger)

/-- Tries to lease the first free host to a request, as its last one or not. -/
def grant? (L : Ledger) (id : String) (last : Bool) : Attempt :=
  match L.entries.get? id with
  | none => .abandoned
  | some e =>
    match L.free with
    | [] => .noHost
    | h :: rest =>
      let status := if last then Status.succeeded else .provisioning
      let s := e.snapshot.withReservation ⟨h.deviceId, .succeeded⟩ status
      let left : Ledger := { L with free := rest }
      .granted h (left.setSnapshot id s)

/-- Takes a request out and makes its devices free again in the order of its
reservations; how many were, if the request is there. -/
def release? (L : Ledger) (id : String) : Option (Ledger × Nat) :=
  match L.entries.get? id with
  | none => none
  | some e =>
    let rest : Ledger := { L with entries := L.entries.erase id }
    some (rest.reclaimAll (e.snapshot.reservations.map (·.deviceId)))

/-- Takes a request out if it is there; how many devices came free. -/
def release (L : Ledger) (id : String) : Ledger × Nat := (L.release? id).getD (L, 0)

/-- The requests whose deadline lies before an instant. -/
def expiredAt (L : Ledger) (now : Instant) : List String :=
  (L.entries.filter fun e => e.2.expires < now).map (·.1)

/-- Takes several requests out; how many were there. -/
def releaseAll (L : Ledger) : List String → Ledger × Nat
  | [] => (L, 0)
  | id :: rest =>
    match L.release? id with
    | none => L.releaseAll rest
    | some (L, _) =>
      let (L, n) := L.releaseAll rest
      (L, n + 1)

/-- Takes the requests out whose deadline lies before an instant; how many. -/
def releaseExpired (L : Ledger) (now : Instant) : Ledger × Nat := L.releaseAll (L.expiredAt now)

/-- Takes a device from whoever holds it and makes it free again; whether it
came free. -/
def releaseDevice (L : Ledger) (deviceId : String) : Ledger × Bool :=
  (L.detach deviceId).reclaim deviceId

/-- Moves a request's deadline a term further; whether the request is there,
or `none` when the clock cannot show the new deadline. -/
def extend? (L : Ledger) (id : String) (term : Duration) : Option (Ledger × Bool) :=
  match L.entries.get? id with
  | none => some (L, false)
  | some e =>
    (Instant.deadline? e.expires term).map fun t =>
      ({ L with entries := L.entries.put id { e with expires := t } }, true)

/-- Follows a change of the population; whether a host came free. -/
def applyChange (L : Ledger) : Change → Ledger × Bool
  | .added h =>
    if L.directory.get? h.deviceId = some h then (L, false)
    else
      let free := L.free.filter fun q => q.deviceId ≠ h.deviceId
      let leased := L.isLeased h.deviceId
      ({ L with directory := L.directory.put h.deviceId h,
                free := if leased then free else free ++ [h] }, !leased)
  | .removed h =>
    if L.directory.get? h.deviceId = some h then
      ({ L with directory := L.directory.erase h.deviceId, free := L.free.filter (· ≠ h) }, false)
    else (L, false)

end Ledger

end Fleet
