import Fleet.Host
import Fleet.Json.Reader
import Fleet.Settings.Pool
import Fleet.Settings.Ssh
import Fleet.Snapshot

/-!
# Records from JSON

How the value types are read from JSON. A record is an object with its fields
as members, or an array with its fields in order.

* **objects** — members that name no field are skipped, whatever they hold; a
  field given twice is refused; a field left out is refused too unless it is
  optional;
* **arrays** — the length must be right;
* **statuses** — a name, or an object whose only member has that name and the
  value null.
-/

namespace Fleet.Json

/-- The members of an object, when every key is a text. -/
def keyed? : List (Option String × Value) → Option (List (String × Value))
  | [] => some []
  | (some k, v) :: rest => (keyed? rest).map ((k, v) :: ·)
  | (none, _) :: _ => none

/-- The value of a field that must not be given twice; `none` inside when it
is not given. -/
def member? (ms : List (String × Value)) (name : String) : Option (Option Value) :=
  match ms.filter fun m => m.1 == name with
  | [] => some none
  | [m] => some (some m.2)
  | _ => none

/-- The values of a record's fields in order. -/
def fields? (names : List String) : Value → Option (List (Option Value))
  | .object ms => do
    let ms ← keyed? ms
    names.mapM (member? ms)
  | .array vs => if vs.length = names.length then some (vs.map some) else none
  | _ => none

/-- A text. -/
def asText? : Option Value → Option String
  | some (.text s) => s
  | _ => none

/-- A text that may be null or left out. -/
def asOptionalText? : Option Value → Option (Option String)
  | none => some none
  | some .null => some none
  | some (.text (some s)) => some (some s)
  | _ => none

/-- A truth value. -/
def asBool? : Option Value → Option Bool
  | some (.bool b) => some b
  | _ => none

/-- A whole number below a bound. -/
def asNatBelow? (bound : Nat) : Option Value → Option Nat
  | some (.whole n) => if 0 ≤ n ∧ n < bound then some n.toNat else none
  | _ => none

/-- A whole number of 64 bits. -/
def asNat64? : Option Value → Option Nat := asNatBelow? UInt64.size

/-- A status. -/
def asStatus? : Option Value → Option Status
  | some (.text (some s)) => Status.ofName? s
  | some (.object [(some s, .null)]) => Status.ofName? s
  | _ => none

/-- A platform. -/
def asPlatform? : Option Value → Option Platform
  | none => none
  | some v => do
    match ← fields? ["os", "arch"] v with
    | [os, arch] => pure ⟨← asText? os, ← asText? arch⟩
    | _ => none

/-- A host. -/
def asHost? (v : Value) : Option Host := do
  match ← fields? ["device_id", "host_name", "port", "proxy_jump", "platform"] v with
  | [deviceId, hostName, port, proxyJump, platform] =>
    let deviceId ← asText? deviceId
    let hostName ← asText? hostName
    let port ← asNatBelow? UInt16.size port
    let proxyJump ← asOptionalText? proxyJump
    let platform ← asPlatform? platform
    pure { deviceId, hostName, port := UInt16.ofNat port, proxyJump, platform }
  | _ => none

/-- A reservation. -/
def asReservation? (v : Value) : Option Reservation := do
  match ← fields? ["device_id", "status"] v with
  | [deviceId, status] => pure ⟨← asText? deviceId, ← asStatus? status⟩
  | _ => none

/-- Reservations. -/
def asReservations? : Option Value → Option (List Reservation)
  | some (.array vs) => vs.mapM asReservation?
  | _ => none

/-- A snapshot. -/
def asSnapshot? (v : Value) : Option Snapshot := do
  match ← fields? ["id", "status", "reservations"] v with
  | [id, status, reservations] =>
    pure ⟨← asText? id, ← asStatus? status, ← asReservations? reservations⟩
  | _ => none

/-- The settings of a pool. -/
def asPoolSettings? (v : Value) : Option PoolSettings := do
  let names := ["provision_timeout_secs", "expire_provisions", "reap_interval_ms",
    "poll_interval_ms", "expansion_page_size", "log_filter"]
  match ← fields? names v with
  | [timeout, expire, reap, poll, page, filter] =>
    let provisionTimeoutSecs ← asNat64? timeout
    let expireProvisions ← asBool? expire
    let reapIntervalMs ← asNat64? reap
    let pollIntervalMs ← asNat64? poll
    let expansionPageSize ← asNat64? page
    let logFilter ← asText? filter
    pure { provisionTimeoutSecs, expireProvisions, reapIntervalMs, pollIntervalMs,
           expansionPageSize, logFilter }
  | _ => none

/-- The settings of the ssh clients. -/
def asSshSettings? (v : Value) : Option SshSettings := do
  let names := ["ssh_bin", "scp_bin", "ssh_user", "ssh_batch_mode",
    "ssh_strict_host_key_checking", "ssh_known_hosts_file", "ssh_identity_file",
    "connect_timeout_secs", "transfer_timeout_secs"]
  match ← fields? names v with
  | [sshBin, scpBin, user, batch, strict, known, identity, connect, transfer] =>
    let sshBin ← asText? sshBin
    let scpBin ← asText? scpBin
    let sshUser ← asText? user
    let batchMode ← asBool? batch
    let strictHostKeyChecking ← asBool? strict
    let knownHostsFile ← asText? known
    let identityFile ← asOptionalText? identity
    let connectTimeoutSecs ← asNat64? connect
    let transferTimeoutSecs ← asNat64? transfer
    pure { sshBin, scpBin, sshUser, batchMode, strictHostKeyChecking, knownHostsFile,
           identityFile, connectTimeoutSecs, transferTimeoutSecs }
  | _ => none

end Fleet.Json
