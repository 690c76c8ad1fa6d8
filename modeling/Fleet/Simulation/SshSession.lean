import Fleet.Simulation.Pools

/-!
# Sessions over ssh

A single device over ssh, used one call at a time: what each call came to, and
which programs it had run.
-/

namespace Fleet.Simulation

/-- The programs that a factory has had run. -/
def factoryRuns : Factory → List Ssh.Run
  | .ssh _ _ runner => runner.runs
  | _ => []

/-- Asks a device of a factory one thing after the other. -/
def askAll (f : Factory) (h : Host) : List DeviceCall → List (Outcome × List Ssh.Run)
  | [] => []
  | c :: rest =>
    let (f', outcome) := c.ask f h
    (outcome, (factoryRuns f').drop (factoryRuns f).length) :: askAll f' h rest

/-- What the runner of a session fails with when its script is used up. -/
def scriptExhausted : String := "script exhausted"

/-- Uses a device over ssh, if the settings make sense. -/
def sshSession (settings : SshSettings) (home : Option String) (h : Host)
    (script : List (Except RunnerError ProcessOutput)) (calls : List DeviceCall) :
    Except SettingsError (List (Outcome × List Ssh.Run)) := do
  let settings ← settings.validate
  pure (askAll (.ssh settings home { answers := script, exhausted := scriptExhausted }) h calls)

end Fleet.Simulation
