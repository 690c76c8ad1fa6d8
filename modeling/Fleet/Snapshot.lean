import Fleet.Error
import Fleet.Text.Blank
import Fleet.Text.Token

/-!
# Requests, reservations and snapshots

A request asks for a number of hosts under a name. What has been granted to it
so far is told by snapshots: a status and the reservations in the order in
which they were granted. A snapshot is replaced, never changed.

* **requests** — `Request.make` trims the name, refuses a blank one, and only
  then a request for no host; a `Request` therefore always asks for at least
  one;
* **snapshots** — `withStatus`, `withReservation` and `withoutDevice` build the
  next snapshot.
-/

namespace Fleet

/-- One host's binding to a request. -/
structure Reservation where
  deviceId : String
  status : Status
  deriving DecidableEq, Repr, Inhabited

/-- A request for a number of hosts under a name. -/
structure Request where
  id : String
  amount : Nat
  amount_pos : 0 < amount
  deriving DecidableEq, Repr

namespace Request

/-- The request of a name and an amount. -/
def make (id : String) (amount : Nat) : Except ValueError Request :=
  let trimmed := Text.trim id
  if trimmed.isEmpty then .error (.missing "id")
  else if h : 0 < amount then .ok ⟨trimmed, amount, h⟩
  else .error .zeroAmount

/-- A request under a random name. -/
def fresh (seed amount : Nat) : Except ValueError Request := make (Text.token seed) amount

end Request

/-- The progress of a request. -/
structure Snapshot where
  id : String
  status : Status
  reservations : List Reservation
  deriving DecidableEq, Repr, Inhabited

namespace Snapshot

/-- A request that has just been entered. -/
def requested (id : String) : Snapshot := ⟨id, .requested, []⟩

/-- The snapshot with another status. -/
def withStatus (s : Snapshot) (status : Status) : Snapshot := { s with status }

/-- The snapshot with one more reservation and another status. -/
def withReservation (s : Snapshot) (r : Reservation) (status : Status) : Snapshot :=
  { s with status, reservations := s.reservations ++ [r] }

/-- The snapshot without the reservations of a device. -/
def withoutDevice (s : Snapshot) (deviceId : String) : Snapshot :=
  { s with reservations := s.reservations.filter fun r => r.deviceId ≠ deviceId }

/-- Whether the request was fulfilled. -/
def succeeded (s : Snapshot) : Bool := s.status == .succeeded

/-- Whether some reservation is for a device. -/
def holds (s : Snapshot) (deviceId : String) : Bool :=
  s.reservations.any fun r => r.deviceId == deviceId

/-- The status as the reservations tell it. -/
def summary (s : Snapshot) : Status := Status.summarize (s.reservations.map (·.status))

end Snapshot

end Fleet
