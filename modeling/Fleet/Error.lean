import Fleet.Status
import Fleet.Time.Duration

/-!
# Errors

One inductive type per layer, each constructor a cause, and the wording of all
causes in the functions `message`. An error of a lower layer travels upwards
inside a constructor of the layer above; `ProvisionError.source?` gives back
the wrapped error's own words where the wrapping adds words of its own.
-/

namespace Fleet

/-- Why a value could not be built from its parts. -/
inductive ValueError
  /-- A required field is missing or blank. -/
  | missing (field : String)
  /-- A platform text that is not of the form `os:arch`. -/
  | invalidPlatform (text : String)
  /-- A request for no host at all. -/
  | zeroAmount
  deriving DecidableEq, Repr

namespace ValueError

/-- The wording of the cause. -/
def message : ValueError → String
  | missing field => s!"missing or empty field: {field}"
  | invalidPlatform text => s!"platform format is 'os:arch' but '{text}' was provided"
  | zeroAmount => "provision amount must be at least 1"

end ValueError

/-- Why a reservation could not be exchanged for its host. -/
inductive ReservationError
  | hostNotFound (deviceId : String)
  | directory (reason : String)
  deriving DecidableEq, Repr

namespace ReservationError

/-- The wording of the cause. -/
def message : ReservationError → String
  | hostNotFound deviceId => s!"host {deviceId} not found"
  | directory reason => s!"host directory failed: {reason}"

end ReservationError

/-- What can go wrong with a program that is run to reach a host. -/
inductive RunnerError
  | spawn (program reason : String)
  | timeout (program : String) (limit : Duration)
  | io (program reason : String)
  deriving DecidableEq, Repr

/-- The words for a program that did not start. -/
def spawnMessage (program reason : String) : String := s!"failed to spawn {program}: {reason}"

/-- The words for a program that ran too long. -/
def timeoutMessage (program : String) (limit : Duration) : String :=
  s!"{program} did not finish within {limit.text}"

namespace RunnerError

/-- The wording of the cause. -/
def message : RunnerError → String
  | spawn program reason => spawnMessage program reason
  | timeout program limit => timeoutMessage program limit
  | io program reason => s!"i/o with {program} failed: {reason}"

end RunnerError

/-- Why a command could not be run on a host. -/
inductive ConnectionError
  | spawn (program reason : String)
  | timeout (program : String) (limit : Duration)
  | nonZeroExit (code : Int) (line stderr : String)
  | missingExitCode (program : String)
  | unreachable (host reason : String)
  deriving DecidableEq, Repr

namespace ConnectionError

/-- The wording of the cause. -/
def message : ConnectionError → String
  | spawn program reason => spawnMessage program reason
  | timeout program limit => timeoutMessage program limit
  | nonZeroExit code line stderr => s!"command \x60{line}\x60 exited with status {code}: {stderr}"
  | missingExitCode program => s!"{program} terminated without an exit code"
  | unreachable host reason => s!"host {host} is unreachable: {reason}"

/-- A failed run as the failure of a command: a program that started and then
could not be talked to counts as one that did not start. -/
def ofRunner : RunnerError → ConnectionError
  | .spawn program reason => spawn program reason
  | .io program reason => spawn program reason
  | .timeout program limit => timeout program limit

end ConnectionError

/-- Why a file could not be copied to or from a host. -/
inductive TransferError
  | spawn (program reason : String)
  | timeout (program : String) (limit : Duration)
  | commandFailure (program statusText stderr : String)
  | unsupported (operation : String)
  deriving DecidableEq, Repr

namespace TransferError

/-- The wording of the cause. -/
def message : TransferError → String
  | spawn program reason => spawnMessage program reason
  | timeout program limit => timeoutMessage program limit
  | commandFailure program statusText stderr => s!"{program} failed with {statusText}: {stderr}"
  | unsupported operation => s!"transfer operation not supported: {operation}"

/-- A failed run as the failure of a copy. -/
def ofRunner : RunnerError → TransferError
  | .spawn program reason => spawn program reason
  | .io program reason => spawn program reason
  | .timeout program limit => timeout program limit

end TransferError

/-- Why an operation on a device failed. -/
inductive DeviceError
  | connection (cause : ConnectionError)
  | transfer (cause : TransferError)
  deriving DecidableEq, Repr

namespace DeviceError

/-- The wording of the cause, which is that of the layer below. -/
def message : DeviceError → String
  | connection cause => cause.message
  | transfer cause => cause.message

end DeviceError

/-- Why a lock was not obtained. -/
inductive LockError
  | conflict (id holder : String)
  | interrupted (id : String)
  | timeout (id : String) (limit : Duration)
  | mechanism (reason : String)
  deriving DecidableEq, Repr

namespace LockError

/-- The wording of the cause. -/
def message : LockError → String
  | conflict id holder => s!"lock {id} is held by {holder}"
  | interrupted id => s!"waiting for lock {id} was interrupted"
  | timeout id limit => s!"lock {id} was not acquired within {limit.text}"
  | mechanism reason => s!"lock backend failed: {reason}"

end LockError

/-- Why a population could not be expanded. -/
inductive PopulationError
  | expansion (reason : String)
  | workerStopped
  | runtime (reason : String)
  deriving DecidableEq, Repr

namespace PopulationError

/-- The wording of the cause. -/
def message : PopulationError → String
  | expansion reason => s!"host expansion failed: {reason}"
  | workerStopped => "host expansion worker has stopped"
  | runtime reason => s!"host expansion needs a Tokio runtime: {reason}"

end PopulationError

/-- Why a request for hosts failed. -/
inductive ProvisionError
  | notFound (id : String)
  | queueClosed (id : String)
  | failed (id : String) (status : Status)
  | timeout (id : String)
  | interrupted (id reason : String)
  | emptyHosts
  | runtime (reason : String)
  | locking (id : String) (cause : LockError)
  | value (cause : ValueError)
  | reservation (cause : ReservationError)
  | connection (cause : ConnectionError)
  | transfer (cause : TransferError)
  | settings (reason : String)
  deriving DecidableEq, Repr

namespace ProvisionError

/-- The words for a wait that was broken off. -/
def interruptedHeadline (id : String) : String :=
  s!"waiting on provision request {id} was interrupted"

/-- The wording of the cause. -/
def message : ProvisionError → String
  | notFound id => s!"provision request {id} not found"
  | queueClosed id => s!"provision request {id} could not be queued: fulfillment has stopped"
  | failed id status => s!"provision request {id} finished with status {status.name}"
  | timeout id => s!"provision request {id} did not complete in time"
  | interrupted id reason => s!"{interruptedHeadline id}: {reason}"
  | emptyHosts => "a provisioning engine needs at least one host"
  | runtime reason => s!"background tasks need a Tokio runtime: {reason}"
  | locking id cause => s!"failed to lock provision request {id}: {cause.message}"
  | value cause => cause.message
  | reservation cause => cause.message
  | connection cause => s!"failed to connect to granted host: {cause.message}"
  | transfer cause => s!"failed to open transfer agent for granted host: {cause.message}"
  | settings reason => s!"invalid configuration: {reason}"

/-- The wording of the cause, without what a broken-off wait reports of its
interruption. -/
def headline : ProvisionError → String
  | interrupted id _ => interruptedHeadline id
  | e => e.message

/-- The wrapped error's own words, where the wrapping adds some. -/
def source? : ProvisionError → Option String
  | locking _ cause => some cause.message
  | connection cause => some cause.message
  | transfer cause => some cause.message
  | _ => none

end ProvisionError

/-- Why settings could not be used. -/
inductive SettingsError
  /-- A value that its field cannot hold. -/
  | unreadable (field : String)
  /-- A value that its field can hold and that makes no sense. -/
  | invalid (reason : String)
  deriving DecidableEq, Repr

namespace SettingsError

/-- The wording of the cause. -/
def message : SettingsError → String
  | unreadable field => s!"configuration parsing failed: {field}"
  | invalid reason => reason

end SettingsError

/-- What background work says when no executor is there to run it. -/
def noExecutor : String :=
  "there is no reactor running, must be called from the context of a Tokio 1.x runtime"

end Fleet
