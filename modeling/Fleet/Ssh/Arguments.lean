import Fleet.Host
import Fleet.Settings.Ssh
import Fleet.Shell.Quote

/-!
# Arguments of the ssh clients

The argument lists with which `ssh` and `scp` are run: the options that both
share, then the login and the rendered command, or the two paths of a copy. A
host address with a colon in it is put in brackets where a path follows it.
-/

namespace Fleet.Ssh

/-- A path with a leading `~/` replaced by the home directory, if there is
one. -/
def expandTilde (home : Option String) (path : String) : String :=
  match path.toList, home with
  | '~' :: '/' :: rest, some dir => dir ++ "/" ++ String.ofList rest
  | _, _ => path

/-- An option that both clients take after `-o`. -/
def option (setting : String) : List String := ["-o", setting]

/-- The options that both clients share, `portFlag` being the one that differs
in name. -/
def commonOptions (s : SshSettings) (home : Option String) (host : Host) (portFlag : String) :
    List String :=
  [portFlag, toString host.port] ++
    (match host.proxyJump with
      | some proxy => ["-J", proxy]
      | none => []) ++
    (match s.identityFile with
      | some file => ["-i", expandTilde home file]
      | none => []) ++
    (if s.batchMode then option "BatchMode=yes" else []) ++
    (if s.strictHostKeyChecking then [] else option "StrictHostKeyChecking=no") ++
    (if Text.allBlank s.knownHostsFile then []
      else option s!"UserKnownHostsFile={s.knownHostsFile}") ++
    (if s.connectTimeoutSecs = 0 then []
      else option s!"ConnectTimeout={s.connectTimeoutSecs}")

/-- The user and the address of a host. -/
def login (s : SshSettings) (host : Host) : String := s!"{s.sshUser}@{host.hostName}"

/-- A path on a host. -/
def remotePath (s : SshSettings) (host : Host) (path : String) : String :=
  if host.hostName.toList.contains ':' then s!"{s.sshUser}@[{host.hostName}]:{path}"
  else s!"{login s host}:{path}"

/-- The arguments that run a command on a host. -/
def sshArguments (s : SshSettings) (home : Option String) (host : Host) (c : Command) :
    List String :=
  commonOptions s home host "-p" ++ [login s host, Shell.render c]

/-- Which way a copy goes. -/
inductive Direction
  | toDevice
  | fromDevice
  deriving DecidableEq, Repr

/-- The arguments that copy a file to or from a host. -/
def scpArguments (s : SshSettings) (home : Option String) (host : Host) (c : Copy) :
    Direction → List String
  | .toDevice =>
    commonOptions s home host "-P" ++ (if c.recursive then ["-r"] else []) ++
      [c.source, remotePath s host c.destination]
  | .fromDevice =>
    commonOptions s home host "-P" ++ (if c.recursive then ["-r"] else []) ++
      [remotePath s host c.source, c.destination]

end Fleet.Ssh
