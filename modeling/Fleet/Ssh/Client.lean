import Fleet.Ssh.Arguments

/-!
# Running the ssh clients

One run of `ssh` per command and one run of `scp` per copy, through whatever
runs programs: a client says which run it needs (`Run`) and reads the outcome.
No session is kept open, so there is nothing to close.

* **commands** — exit code 255 is the client's own and means that the host was
  not reached; any other code is the command's;
* **copies** — only exit code 0 is a success.
-/

namespace Fleet.Ssh

/-- A program to be run. -/
structure Run where
  program : String
  args : List String
  stdin : Option (List UInt8)
  limit : Duration
  deriving DecidableEq, Repr, Inhabited

/-- A run as one line. -/
def Run.line (r : Run) : String := " ".intercalate (r.program :: r.args)

/-- The exit code of a client that did not reach its host. -/
def unreachableCode : Int := 255

/-- The run for a command on a host. -/
def commandRun (s : SshSettings) (home : Option String) (host : Host) (c : Command) : Run :=
  ⟨s.sshBin, sshArguments s home host c, c.stdin, c.limit⟩

/-- What the run for a command came to. -/
def commandOutcome (s : SshSettings) (host : Host) (c : Command) :
    Except RunnerError ProcessOutput → Except ConnectionError CommandOutput
  | .error e => .error (.ofRunner e)
  | .ok o =>
    match o.code with
    | none => .error (.missingExitCode s.sshBin)
    | some code =>
      if code = unreachableCode then .error (.unreachable host.hostName o.stderrText)
      else .ok ⟨code, o.stdout, o.stderr, c⟩

/-- The run for a copy. -/
def copyRun (s : SshSettings) (home : Option String) (host : Host) (c : Copy) (d : Direction) :
    Run :=
  ⟨s.scpBin, scpArguments s home host c d, none, s.transferTimeout⟩

/-- What the run for a copy came to. -/
def copyOutcome (s : SshSettings) : Except RunnerError ProcessOutput → Except TransferError Unit
  | .error e => .error (.ofRunner e)
  | .ok o =>
    if o.success then .ok ()
    else
      let statusText := match o.code with
        | none => "signal"
        | some code => s!"exit code {code}"
      .error (.commandFailure s.scpBin statusText o.stderrText)

/-- A runner that answers from a script and remembers what it was asked. -/
structure ScriptedRunner where
  answers : List (Except RunnerError ProcessOutput) := []
  runs : List Run := []
  /-- What the runner fails with when its script is used up. -/
  exhausted : String

/-- Runs a program. -/
def ScriptedRunner.run (σ : ScriptedRunner) (r : Run) :
    ScriptedRunner × Except RunnerError ProcessOutput :=
  match σ.answers with
  | a :: rest => ({ σ with answers := rest, runs := σ.runs ++ [r] }, a)
  | [] => ({ σ with runs := σ.runs ++ [r] }, .error (.spawn r.program σ.exhausted))

end Fleet.Ssh
