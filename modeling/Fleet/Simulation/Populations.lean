import Fleet.Simulation.Supply

/-!
# Steps on populations

Populations are made, changed, watched and dropped. A population under a name
that is used again is replaced.
-/

namespace Fleet.Simulation

/-- A step on a population or a log. -/
inductive PopulationAction
  /-- Makes a population by hand. -/
  | byHand (name : String) (hosts : List Host)
  /-- Makes a population layered over another. -/
  | layered (name below : String) (hosts : List Host)
  /-- Makes a population that is filled from a directory. -/
  | expanding (name : String) (script : List PageAnswer) (leaseSize : Nat)
  | extendScript (name : String) (script : List PageAnswer)
  /-- Gives the population of an engine a name. -/
  | ofEngine (name engine : String)
  | add (name : String) (hosts : List Host)
  | remove (name : String) (hosts : List Host)
  | reset (name : String) (hosts : List Host)
  | subscribe (name log : String)
  | unsubscribe (name log : String)
  /-- Makes one population follow another, which it is not layered over. -/
  | follow (source target : String)
  | requestGrowth (name : String)
  | close (name : String)
  | drop (name : String)
  | summarize (log : String)

namespace World

/-- The number of a named population. -/
def population? (σ : World) (name : String) : Option Nat :=
  (σ.names.providers.get? name).map (·.population)

/-- Gives a population a name. -/
def nameProvider (σ : World) (name : String) (p : ProviderName) : World :=
  { σ with names := { σ.names with providers := σ.names.providers.put name p } }

/-- Carries out a change for each host and tells whether it changed anything. -/
def changeHosts (σ : World) (p : Nat)
    (change : Network → Nat → Host → Network × List Delivery)
    (changes : Membership → Host → Bool) : List Host → World × List Bool
  | [] => (σ, [])
  | h :: rest =>
    let changed := changes (σ.network.members p) h
    let (σ, others) := (σ.spread (change σ.network p h)).changeHosts p change changes rest
    (σ, changed :: others)

/-- Makes a new log listen to a population, under a name. -/
def subscribeLog (σ : World) (p : Nat) (log : String) : World × Outcome :=
  let k := σ.logs.size
  let (network, number) := σ.network.subscribe p (.log k)
  ({ σ with network, logs := σ.logs.push {},
            names := { σ.names with logs := σ.names.logs.put log (k, number) } },
    .text s!"SubscriptionId({number})")

/-- What a log has recorded. -/
def logSummary (changes : List Change) : LogSummary :=
  { added := (changes.filter fun c => !c.isRemoval).length
    removed := (changes.filter Change.isRemoval).length
    replayed := Change.replay [] changes }

/-- Carries out a step on an existing population. -/
def onPopulation (σ : World) (name : String) (f : Nat → World × Outcome) : World × Outcome :=
  (σ.population? name).elim (σ, .nothing) f

/-- Carries out a step on a population or a log. -/
def performPopulation (σ : World) : PopulationAction → World × Outcome
  | .byHand name hosts =>
    let (network, p) := σ.network.add { members := Membership.ofHosts hosts, origin := .byHand 0 }
    ({ σ with network }.nameProvider name ⟨p, true⟩, .nothing)
  | .layered name below hosts => σ.onPopulation below fun u =>
    let (network, p) := σ.network.addLayered hosts u
    ({ σ with network }.nameProvider name ⟨p, false⟩, .count (network.members u).hosts.length)
  | .expanding name script leaseSize =>
    let g := Growth.ofLeaseSize leaseSize
    let (network, p) := σ.network.add { members := Membership.empty, origin := .expanding g }
    let σ := { σ with network }.setDirectory p { script }
    ((σ.nameProvider name ⟨p, false⟩).wake (.grower p), .count g.leaseSize)
  | .extendScript name script => σ.onPopulation name fun p =>
    let d := σ.directory p
    (σ.setDirectory p { d with script := d.script ++ script }, .nothing)
  | .ofEngine name engine =>
    match (σ.names.services.get? engine).map Service.base with
    | some (.engine n) =>
      ((σ.engines[n]?).elim σ fun e => σ.nameProvider name ⟨e.population, false⟩, .nothing)
    | _ => (σ, .nothing)
  | .add name hosts => σ.onPopulation name fun p =>
    let (σ, flags) := σ.changeHosts p Network.insert (fun m h => !m.contains h) hosts
    (σ, .flags flags)
  | .remove name hosts => σ.onPopulation name fun p =>
    let (σ, flags) := σ.changeHosts p Network.remove Membership.contains hosts
    (σ, .flags flags)
  | .reset name hosts => σ.onPopulation name fun p =>
    (σ.spread (σ.network.reset p hosts), .nothing)
  | .subscribe name log => σ.onPopulation name fun p => σ.subscribeLog p log
  | .unsubscribe name log => σ.onPopulation name fun p =>
    match σ.names.logs.get? log with
    | none => (σ, .flag false)
    | some (_, number) =>
      let (network, found) := σ.network.unsubscribe p number
      ({ σ with network }, .flag found)
  | .follow source target => σ.onPopulation source fun p => σ.onPopulation target fun q =>
    ({ σ with network := (σ.network.subscribe p (.follower q)).1 }, .nothing)
  | .requestGrowth name => σ.onPopulation name fun p => (σ.requestGrowth p, .nothing)
  | .close name => σ.onPopulation name fun p => (σ.closeGrowth p, .nothing)
  | .drop name =>
    ({ σ with names := { σ.names with providers := σ.names.providers.erase name } },
      .flag (σ.names.providers.has name))
  | .summarize log =>
    match (σ.names.logs.get? log).bind fun l => σ.logs[l.1]? with
    | some l => (σ, .log (logSummary l.changes))
    | none => (σ, .nothing)

end World

end Fleet.Simulation
