import Fleet.Simulation.Services

/-!
# Steps on pools and devices

Factories and pools are made, devices are obtained under the name of a group
and then used one at a time. Groups are forgotten when they are closed.
-/

namespace Fleet.Simulation

/-- What is asked of a device. -/
inductive DeviceCall
  | execute (command : Command)
  | copy (copy : Copy) (direction : Ssh.Direction)
  | close

/-- What a pool is made of, by name. What stands later counts. -/
structure PoolRecipe where
  /-- Both the provisioning and the reservation service. -/
  services : Option String := none
  service : Option String := none
  reservations : Option String := none
  /-- Both the connection and the transfer agent factory. -/
  factories : Option String := none
  connections : Option String := none
  transfers : Option String := none
  settings : Option PoolSettings := none
  interval : Option Duration := none

/-- A step on a factory, a pool or a device. -/
inductive PoolAction
  | factory (name : String) (factory : Factory)
  /-- Makes an ssh factory if the settings make sense. -/
  | sshFactory (name : String) (settings : SshSettings)
      (script : List (Except RunnerError ProcessOutput))
  | extendScript (name : String) (script : List (Except RunnerError ProcessOutput))
  | pool (name : String) (recipe : PoolRecipe)
  /-- Obtains the devices of a snapshot. -/
  | obtain (pool : String) (snapshot : Snapshot) (group : String)
  /-- Asks for the snapshot of a request and obtains its devices. -/
  | obtainById (pool id group : String)
  | device (group : String) (index : Nat) (call : DeviceCall)
  | closeDevices (group : String)
  | close (pool : String)

namespace DeviceCall

/-- The outcome of a command. -/
def ranOutcome : Except ConnectionError CommandOutput → Outcome :=
  Outcome.ofExcept (fun e => .device (.connection e)) .output

/-- The outcome of a copy. -/
def copiedOutcome : Except TransferError Unit → Outcome :=
  Outcome.ofExcept (fun e => .device (.transfer e)) fun _ => .done

/-- What a device that has been closed says. -/
def closed : Outcome := .text "closed"

/-- Asks something of a device of one factory. -/
def ask (c : DeviceCall) (f : Factory) (h : Host) : Factory × Outcome :=
  match c with
  | execute command =>
    let (f, answer) := f.execute h command
    (f, ranOutcome answer)
  | copy file direction =>
    let (f, answer) := f.copy h file direction
    (f, copiedOutcome answer)
  | close => (((f.closeTransfer h).1.closeConnection h).1, closed)

end DeviceCall

namespace World

/-- Puts a factory under a name. -/
def addFactory (σ : World) (name : String) (f : Factory) : World :=
  { σ with factories := σ.factories.push f,
           names := { σ.names with factories := σ.names.factories.put name σ.factories.size } }

/-- Puts a pool together from named components. -/
def poolDraft (σ : World) (r : PoolRecipe) : PoolDraft Service Base Nat :=
  let service (name : Option String) : Option Service := name.bind σ.service?
  let factory (name : Option String) : Option Nat := name.bind σ.names.factories.get?
  let d : PoolDraft Service Base Nat :=
    { service := service r.service <|> service r.services
      reservations := (service r.reservations <|> service r.services).map (·.base)
      connections := factory r.connections <|> factory r.factories
      transfers := factory r.transfers <|> factory r.factories }
  let d := r.settings.elim d d.withSettings
  r.interval.elim d fun interval => { d with interval }

/-- Obtains the devices of a snapshot and keeps them under a name. -/
def obtain (σ : World) (p : PoolEntry) (s : Snapshot) (group : String) : World × Outcome :=
  match σ.runPool p (PoolDialogue.obtain s) with
  | (σ, .ok devices) =>
    ({ σ with names := { σ.names with groups := σ.names.groups.put group ⟨p, devices⟩ } },
      .devices (devices.map Device.host))
  | (σ, .error e) => (σ, .failed (.provision e))

/-- Asks something of a device. -/
def askDevice (σ : World) (p : PoolEntry) (d : OpenDevice) : DeviceCall → World × Outcome
  | .execute command =>
    σ.onFactory d.connection.factory .nothing fun f => (DeviceCall.execute command).ask f d.host
  | .copy file direction =>
    σ.onFactory d.transfer.factory .nothing fun f => (DeviceCall.copy file direction).ask f d.host
  | .close => ((σ.runPool p (PoolDialogue.closeDevice d)).1, DeviceCall.closed)

/-- Carries out a step on an existing pool. -/
def onPool (σ : World) (name : String) (f : PoolEntry → World × Outcome) : World × Outcome :=
  (σ.names.pools.get? name).elim (σ, .nothing) f

/-- Carries out a step on a factory, a pool or a device. -/
def performPool (σ : World) : PoolAction → World × Outcome
  | .factory name f => (σ.addFactory name f, .nothing)
  | .sshFactory name settings script =>
    match settings.validate with
    | .error e => (σ, .failed (.settings e))
    | .ok settings =>
      (σ.addFactory name (.ssh settings none { answers := script, exhausted := Factory.exhausted }),
        .nothing)
  | .extendScript name script =>
    match σ.names.factories.get? name with
    | none => (σ, .nothing)
    | some k => σ.onFactory k .nothing fun f => (f.extendScript script, .nothing)
  | .pool name recipe =>
    match (σ.poolDraft recipe).build with
    | .error e => (σ, .failed (.provision e))
    | .ok p =>
      ({ σ with names := { σ.names with pools := σ.names.pools.put name p } }, .interval p.interval)
  | .obtain pool snapshot group => σ.onPool pool fun p => σ.obtain p snapshot group
  | .obtainById pool id group => σ.onPool pool fun p =>
    match σ.describe p.service.base id with
    | (σ, some (.ok s)) => σ.obtain p s group
    | (σ, some (.error e)) => (σ, .failed (.provision e))
    | (σ, none) => (σ.breakDown, .nothing)
  | .device group index call =>
    match σ.names.groups.get? group with
    | none => (σ, .nothing)
    | some g => (g.devices[index]?).elim (σ, .nothing) fun d => σ.askDevice g.pool d call
  | .closeDevices group =>
    match σ.names.groups.get? group with
    | none => (σ, .nothing)
    | some g =>
      let (σ, _) := σ.runPool g.pool (PoolDialogue.closeDevices g.devices)
      ({ σ with names := { σ.names with groups := σ.names.groups.erase group } },
        .count g.devices.length)
  | .close pool => σ.onPool pool fun p => ((σ.runPool p PoolDialogue.closePool).1, .nothing)

end World

end Fleet.Simulation
