import Fleet.Pool.Obtain
import Fleet.Time.Alarm

/-!
# Waiting for a request

A caller who waits for a request lets a poller ask for its status at regular
intervals, the first time at once, until the status is one that a request ends
in or the answer is an error.

* **decision** — the poller's last answer decides if it comes before the limit
  is over. The limit is set before the poller starts, so when both are due
  together the limit wins, and with a limit of zero nobody is asked;
* **conclusion** — a request that succeeded is turned into devices. Any other
  way to end is an error; and before an error is returned the request is given
  back, once, and whether that works changes nothing;
* **abandonment** — when the caller goes away before the wait is over, the
  poller asks no more and the request is given back on the caller's behalf.
-/

namespace Fleet

/-- What asks for the status of a request. -/
inductive Poller
  | starting
  | asleep (alarm : Alarm)
  /-- It asks no more: the request has ended, or asking failed. -/
  | ended (answer : Except ProvisionError Snapshot)

namespace Poller

/-- Whether the poller asks now. -/
def isDue (p : Poller) (now : Instant) : Bool :=
  match p with
  | starting => true
  | asleep a => a.rings now
  | ended _ => false

/-- The alarm that the poller sleeps by. -/
def alarm? : Poller → Option Alarm
  | asleep a => some a
  | _ => none

/-- What the poller makes of an answer: it asks again an interval later unless
the answer is final. -/
def hear (interval : Duration) (now : Instant) (stamp : Nat) :
    Except ProvisionError Snapshot → Poller
  | .error e => ended (.error e)
  | .ok s =>
    if s.status.isTerminal then ended (.ok s) else asleep (Alarm.after now interval stamp)

end Poller

/-- A caller who waits for a request that has been entered. -/
structure Wait where
  /-- The name of the request. -/
  id : String
  interval : Duration
  limit : Alarm
  poller : Poller := .starting

namespace Wait

/-- Begins to wait for a request that was entered as this snapshot says. -/
def start (s : Snapshot) (interval limit : Duration) (now : Instant) (stamp : Nat) : Wait :=
  { id := s.id, interval, limit := Alarm.after now limit stamp }

/-- The poller hears an answer. -/
def hear (w : Wait) (now : Instant) (stamp : Nat) (answer : Except ProvisionError Snapshot) :
    Wait :=
  { w with poller := Poller.hear w.interval now stamp answer }

/-- How the wait ended, if it has. -/
def settled? (w : Wait) (now : Instant) : Option (Except ProvisionError Snapshot) :=
  match w.poller with
  | .ended answer => some answer
  | _ => if w.limit.rings now then some (.error (.timeout w.id)) else none

/-- What the end of a wait comes to: a snapshot counts only if it tells of
success. -/
def verdict (id : String) : Except ProvisionError Snapshot → Except ProvisionError Snapshot
  | .error e => .error e
  | .ok s => if s.succeeded then .ok s else .error (.failed id s.status)

/-- Gives a request back before an error is returned. -/
def giveBack {C T : Type} (id : String) (e : ProvisionError) :
    PoolDialogue C T (Except ProvisionError (List (Device C T))) :=
  .ask (.release id) fun _ => .done (.error e)

/-- What is left to do once it is known how the wait ended. -/
def conclude {C T : Type} (id : String) (settled : Except ProvisionError Snapshot) :
    PoolDialogue C T (Except ProvisionError (List (Device C T))) :=
  match verdict id settled with
  | .error e => giveBack id e
  | .ok s => (PoolDialogue.obtain s).bind fun
    | .ok devices => .done (.ok devices)
    | .error e => giveBack id e

/-- What is done on behalf of a caller who went away before the wait was over. -/
def abandon {C T : Type} (id : String) : PoolDialogue C T Unit :=
  .ask (.release id) fun _ => .done ()

end Wait

end Fleet
