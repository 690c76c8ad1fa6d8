import Fleet.Host
import Fleet.Snapshot

/-!
# Scripted services

A scripted service is a provisioning service that does nothing but write down
how it was called and answer from a script.

* **overlap** — a submission takes a while; the service counts how many are
  under way and remembers the largest number. A submission that is broken off
  stays counted;
* **descriptions** — the answers to `describe` are used up in order, and the
  last one is given again and again; without any, every request is only
  requested.
-/

namespace Fleet.Simulation

/-- An answer to `describe`. -/
inductive Description
  | snapshot (status : Status) (reservations : List Reservation)
  | failure (error : ProvisionError)
  /-- The call breaks down without an answer. -/
  | breakdown

/-- A service that answers from a script. -/
structure ScriptedService where
  descriptions : List Description := []
  hosts : List Host := []
  /-- How long a submission takes. -/
  work : Duration := ⟨0⟩
  provisionError : Option ProvisionError := none
  releaseError : Option ProvisionError := none
  closeError : Option ProvisionError := none
  calls : List String := []
  active : Nat := 0
  peak : Nat := 0

namespace ScriptedService

/-- Writes a call down. -/
def note (σ : ScriptedService) (call : String) : ScriptedService :=
  { σ with calls := σ.calls ++ [call] }

/-- A submission begins. -/
def beginProvision (σ : ScriptedService) (r : Request) : ScriptedService :=
  let σ := σ.note s!"provision {r.id} {r.amount}"
  { σ with active := σ.active + 1, peak := max σ.peak (σ.active + 1) }

/-- The answer of a script to a call that could succeed. -/
def scripted {α : Type} (error : Option ProvisionError) (a : α) : Except ProvisionError α :=
  match error with
  | some e => .error e
  | none => .ok a

/-- A submission ends. -/
def endProvision (σ : ScriptedService) (r : Request) :
    ScriptedService × Except ProvisionError Snapshot :=
  ({ σ with active := σ.active - 1 }, scripted σ.provisionError (Snapshot.requested r.id))

/-- The answer at hand and the script that is left. -/
def nextDescription : List Description → Description × List Description
  | [] => (.snapshot .requested [], [])
  | [d] => (d, [d])
  | d :: rest => (d, rest)

/-- The snapshot of a request; nothing when the call breaks down. -/
def describe (σ : ScriptedService) (id : String) :
    ScriptedService × Option (Except ProvisionError Snapshot) :=
  let (d, rest) := nextDescription σ.descriptions
  ({ σ.note s!"describe {id}" with descriptions := rest },
    match d with
    | .snapshot status reservations => some (.ok ⟨id, status, reservations⟩)
    | .failure e => some (.error e)
    | .breakdown => none)

/-- Gives a request back. -/
def release (σ : ScriptedService) (id : String) : ScriptedService × Except ProvisionError Unit :=
  (σ.note s!"release {id}", scripted σ.releaseError ())

/-- Closes the service. -/
def close (σ : ScriptedService) : ScriptedService × Except ProvisionError Unit :=
  (σ.note "close", scripted σ.closeError ())

/-- The host of a reservation. -/
def exchange (σ : ScriptedService) (r : Reservation) :
    ScriptedService × Except ReservationError Host :=
  (σ.note s!"exchange {r.deviceId}",
    match σ.hosts.find? fun h => h.deviceId == r.deviceId with
    | some h => .ok h
    | none => .error (.directory s!"no {r.deviceId}"))

end ScriptedService

end Fleet.Simulation
