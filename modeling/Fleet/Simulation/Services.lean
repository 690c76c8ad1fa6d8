import Fleet.Engine.Builder
import Fleet.Simulation.Locks
import Fleet.Simulation.Serving

/-!
# Steps on services

Engines, scripted services and services behind locks are made, used and
dropped. A step that asks for a status, gives a request back or closes may be
made on a pool, whose provisioning service then answers.
-/

namespace Fleet.Simulation

/-- A step on a service. -/
inductive ServiceAction
  /-- Builds an engine, over a named population if one is given. -/
  | engine (name : String) (draft : EngineDraft) (population : Option String)
  | scripted (name : String) (service : ScriptedService)
  /-- Puts a service behind a lock; the given locks are watched. -/
  | locked (name inner locks : String) (template : Option String) (limit : Option Duration)
      (ttl : Duration) (watched : List String)
  | describe (service id : String)
  | release (service id : String)
  | close (service : String)
  | releaseProvision (engine id : String)
  | releaseDevice (engine deviceId : String)
  | releaseExpired (engine : String) (time : Instant)
  | extend (engine id : String)
  | shutdown (engine : String)
  | exchange (service : String) (reservation : Reservation)
  | drop (service : String)

namespace World

/-- The service behind the name of a service or a pool. -/
def service? (σ : World) (name : String) : Option Service :=
  match σ.names.services.get? name with
  | some s => some s
  | none => (σ.names.pools.get? name).map (·.service)

/-- The engine behind the name of a service. -/
def engine? (σ : World) (name : String) : Option Nat :=
  match (σ.service? name).map Service.base with
  | some (.engine n) => some n
  | _ => none

/-- Puts a service under a name. -/
def nameService (σ : World) (name : String) (s : Service) : World :=
  { σ with names := { σ.names with services := σ.names.services.put name s } }

/-- The population of a new engine: its own hosts, layered over another
population if one is given. -/
def enginePopulation (σ : World) (hosts : List Host) (below : Option Nat) : World × Nat :=
  let (network, p) := match below with
    | some u => σ.network.addLayered hosts u
    | none => σ.network.add { members := Membership.ofHosts hosts, origin := .byHand 0 }
  ({ σ with network }, p)

/-- Builds an engine and starts its worker and its reaper. -/
def addEngine (σ : World) (name : String) (d : EngineDraft) (below : Option Nat) : World :=
  let n := σ.engines.size
  let (σ, p) := σ.enginePopulation d.hosts below
  let engine := d.engine (σ.network.members p).hosts
  let (network, subscription) := σ.network.subscribe p (.engine n)
  let σ := { σ with network, engines := σ.engines.push { engine, population := p, subscription } }
  let σ := (σ.nameService name { base := .engine n }).wake (.worker n)
  if engine.reaper.isSome then σ.wake (.reaper n) else σ

/-- Carries out a step on an existing service. -/
def onService (σ : World) (name : String) (f : Base → World × Outcome) : World × Outcome :=
  (σ.service? name).elim (σ, .nothing) fun s => f s.base

/-- Carries out an operation of an engine. -/
def engineStep {α : Type} (σ : World) (name : String) (onOk : α → Outcome)
    (f : Engine → Engine × α) : World × Outcome :=
  match σ.engine? name with
  | none => (σ, .nothing)
  | some n => σ.onEngine n .nothing fun e => let (e, a) := f e; (e, onOk a)

/-- Remembers that a step has named a request. -/
def nameRequest (σ : World) (id : String) : World :=
  let id := Text.trim id
  { σ with engines := σ.engines.map fun e =>
      if e.named.contains id then e else { e with named := e.named ++ [id] } }

/-- Carries out a step on a service. -/
def performService (σ : World) : ServiceAction → World × Outcome
  | .engine name d population =>
    let below := population.bind fun p => (σ.names.providers.get? p).map (·.population)
    match d.fault? below.isSome true with
    | some e => (σ, .failed (.provision e))
    | none => (σ.addEngine name d below, .done)
  | .scripted name service =>
    let n := σ.scripted.size
    ({ σ with scripted := σ.scripted.push service }.nameService name { base := .scripted n }, .done)
  | .locked name inner locks template limit ttl watched =>
    let σ := watched.foldl (fun σ id => σ.watch locks id) σ
    match σ.service? inner, σ.locks? locks with
    | some s, some l =>
      (σ.nameService name { s with layers := ⟨l, template, limit, ttl⟩ :: s.layers }, .done)
    | _, _ => (σ, .nothing)
  | .describe name id => σ.onService name fun b =>
    match σ.describe b id with
    | (σ, some answer) => (σ, Outcome.ofProvision .snapshot answer)
    | (σ, none) => (σ.breakDown, .nothing)
  | .release name id => σ.onService name fun b =>
    let (σ, answer) := σ.release b id
    (σ, Outcome.ofProvision (fun _ => .done) answer)
  | .close name => σ.onService name fun b =>
    let (σ, answer) := σ.close b
    (σ, Outcome.ofProvision (fun _ => .done) answer)
  | .releaseProvision name id => σ.engineStep name .count fun e => e.release id
  | .releaseDevice name deviceId => σ.engineStep name .flag fun e => e.releaseDevice deviceId
  | .releaseExpired name time => σ.engineStep name .count fun e => e.releaseExpired time
  | .extend name id =>
    match (σ.engine? name).bind fun n => σ.engines[n]? with
    | none => (σ, .nothing)
    | some e =>
      match e.engine.extend? id with
      | none => (σ.breakDown, .nothing)
      | some r => σ.engineStep name .flag fun _ => r
  | .shutdown name => ((σ.engine? name).elim σ σ.stopEngine, .nothing)
  | .exchange name r => σ.onService name fun b =>
    let (σ, answer) := σ.exchange b r
    (σ, Outcome.ofExcept .reservation .host answer)
  | .drop name =>
    ({ σ with names := { σ.names with services := σ.names.services.erase name } },
      .flag (σ.names.services.has name))

end World

end Fleet.Simulation
