import Fleet.Settings.Environment

/-!
# Settings of the ssh clients

Which programs reach a host, as whom, and with which options.
`SshSettings.validate` names the first field, in the order in which they are
listed there, that makes no sense; an identity file may be left out but not be
blank, and the known hosts file may be blank.
-/

namespace Fleet

/-- The settings of the ssh clients. -/
structure SshSettings where
  sshBin : String := "ssh"
  scpBin : String := "scp"
  sshUser : String := "root"
  batchMode : Bool := true
  strictHostKeyChecking : Bool := false
  knownHostsFile : String := "/dev/null"
  identityFile : Option String := none
  connectTimeoutSecs : Nat := 10
  transferTimeoutSecs : Nat := 300
  deriving DecidableEq, Repr, Inhabited

namespace SshSettings

/-- How long a copy may take. -/
def transferTimeout (s : SshSettings) : Duration := Duration.ofSecs s.transferTimeoutSecs

/-- A field that is missing, and where it is set. -/
def missing (field : String) : SettingsError :=
  .invalid (s!"missing {field}: set DEVICE_POOL_SSH_{field.toUpper} or add {field} to " ++
    "device-pool.toml")

/-- The texts that must not be blank, in the order in which they are checked. -/
def texts (s : SshSettings) : List (String × String) :=
  [("ssh_bin", s.sshBin), ("scp_bin", s.scpBin), ("ssh_user", s.sshUser)] ++
    s.identityFile.toList.map fun file => ("ssh_identity_file", file)

/-- The first field that makes no sense. -/
def fault? (s : SshSettings) : Option SettingsError :=
  match s.texts.find? fun t => Text.allBlank t.2 with
  | some (field, _) => some (missing field)
  | none =>
    if s.transferTimeoutSecs == 0 then
      some (.invalid
        "transfer_timeout_secs must be positive: set DEVICE_POOL_SSH_TRANSFER_TIMEOUT_SECS")
    else none

/-- Accepts settings that make sense. -/
def validate (s : SshSettings) : Except SettingsError SshSettings :=
  match s.fault? with
  | some e => .error e
  | none => .ok s

/-- The settings that the environment gives. -/
def load (env : Settings.Environment) : Except SettingsError SshSettings := do
  let d : SshSettings := {}
  let sshBin ← env.text "DEVICE_POOL_SSH_SSH_BIN" d.sshBin
  let scpBin ← env.text "DEVICE_POOL_SSH_SCP_BIN" d.scpBin
  let sshUser ← env.text "DEVICE_POOL_SSH_SSH_USER" d.sshUser
  let knownHostsFile ← env.text "DEVICE_POOL_SSH_SSH_KNOWN_HOSTS_FILE" d.knownHostsFile
  let identityFile ← env.text? "DEVICE_POOL_SSH_SSH_IDENTITY_FILE"
  let connectTimeoutSecs ←
    env.number "DEVICE_POOL_SSH_CONNECT_TIMEOUT_SECS" d.connectTimeoutSecs
  let transferTimeoutSecs ←
    env.number "DEVICE_POOL_SSH_TRANSFER_TIMEOUT_SECS" d.transferTimeoutSecs
  pure { sshBin, scpBin, sshUser, batchMode := false, strictHostKeyChecking := false,
         knownHostsFile, identityFile, connectTimeoutSecs, transferTimeoutSecs }

end SshSettings

end Fleet
