import Fleet.Command
import Fleet.Lock.Table
import Fleet.Population.Expansion
import Fleet.Snapshot

/-!
# Outcomes

What a step of a simulation comes to: an outcome is a value of one of the
kinds that operations return, or a failure of one of the layers.
-/

namespace Fleet.Simulation

/-- A failure of one of the layers. -/
inductive Failure
  | value (error : ValueError)
  | settings (error : SettingsError)
  | population (error : PopulationError)
  | lock (error : LockError)
  | reservation (error : ReservationError)
  | provision (error : ProvisionError)
  | device (error : DeviceError)

/-- What a log has recorded: how many hosts joined and left, and who is there
according to it. -/
structure LogSummary where
  added : Nat
  removed : Nat
  replayed : List Host

/-- What a step comes to. -/
inductive Outcome
  | nothing
  | flag (value : Bool)
  | flags (values : List Bool)
  | count (value : Nat)
  | text (value : String)
  | interval (value : Duration)
  | host (value : Host)
  | snapshot (value : Snapshot)
  | devices (hosts : List Host)
  | lease (request : LockRequest)
  | growth (value : PassSummary)
  | log (value : LogSummary)
  | output (value : CommandOutput)
  | failed (failure : Failure)
  /-- It was waited for too long, and broken off. -/
  | stuck

namespace Outcome

/-- What an operation that returns nothing says when it is done. -/
def done : Outcome := text "ok"

/-- The outcome of an operation that can fail. -/
def ofExcept {ε α : Type} (onError : ε → Failure) (onOk : α → Outcome) : Except ε α → Outcome
  | .ok a => onOk a
  | .error e => failed (onError e)

/-- The outcome of an operation of a provisioning service. -/
def ofProvision {α : Type} (onOk : α → Outcome) : Except ProvisionError α → Outcome :=
  ofExcept .provision onOk

end Outcome

end Fleet.Simulation
