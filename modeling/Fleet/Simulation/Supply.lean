import Fleet.Engine.Worker
import Fleet.Simulation.World

/-!
# Engines and populations of a world

Where hosts come from and where they are leased.

* **engines** — an operation on an engine wakes its worker if it leaves the
  worker something to do;
* **populations** — a change of the network is handed over to the logs and
  engines that it is for, in order;
* **growth** — a request for growth is counted by a population kept by hand and
  queued by an expanding one.
-/

namespace Fleet.Simulation.World

/-! ## Engines -/

/-- Operates on an engine; its worker is woken if that gives it something to
do. -/
def onEngine {α : Type} (σ : World) (n : Nat) (otherwise : α) (f : Engine → Engine × α) :
    World × α :=
  match σ.engines[n]? with
  | none => (σ, otherwise)
  | some e =>
    let (engine, a) := f e.engine
    let σ := { σ with engines := σ.engines.setIfInBounds n { e with engine } }
    (if engine.workerReady then σ.wake (.worker n) else σ, a)

/-- Operates on an engine for its effect only. -/
def changeEngine (σ : World) (n : Nat) (f : Engine → Engine) : World :=
  (σ.onEngine n () fun e => (f e, ())).1

/-- Stops an engine. -/
def stopEngine (σ : World) (n : Nat) : World := (σ.changeEngine n Engine.stop).wake (.reaper n)

/-! ## Populations -/

/-- Has a log record a change. -/
def recordChange (σ : World) (k : Nat) (c : Change) : World :=
  { σ with logs := σ.logs.modify k fun l => { l with changes := l.changes ++ [c] } }

/-- Hands changes over to the logs and engines they are for. -/
def deliver (σ : World) (deliveries : List Delivery) : World :=
  deliveries.foldl (fun σ d =>
    match d.subscriber with
    | .log k => σ.recordChange k d.change
    | .engine n => σ.changeEngine n fun e => e.applyChange d.change
    | .follower _ => σ) σ

/-- Takes over a changed network and hands over what it sends. -/
def spread (σ : World) (next : Network × List Delivery) : World :=
  { σ with network := next.1 }.deliver next.2

/-- The expanding population of a number. -/
def growth? (σ : World) (p : Nat) : Option Growth :=
  match (σ.network.get? p).map Population.origin with
  | some (.expanding g) => some g
  | _ => none

/-- Replaces the state of an expanding population's worker. -/
def setGrowth (σ : World) (p : Nat) (g : Growth) : World :=
  { σ with network := σ.network.modify p fun q => { q with origin := .expanding g } }

/-- Replaces the state of an expanding population's worker and wakes it if it
has something to do. -/
def updateGrowth (σ : World) (p : Nat) (g : Growth) : World :=
  let σ := σ.setGrowth p g
  if g.isReady then σ.wake (.grower p) else σ

/-- Asks a population to grow. -/
def requestGrowth (σ : World) (p : Nat) : World :=
  let source := σ.network.growthSource p
  match (σ.network.get? source).map Population.origin with
  | some (.byHand n) =>
    { σ with network := σ.network.modify source fun q => { q with origin := .byHand (n + 1) } }
  | some (.expanding g) => (g.request? none).elim σ (σ.updateGrowth source)
  | _ => σ

/-- Asks a population to grow several times. -/
def requestGrowthTimes (σ : World) (p : Nat) : Nat → World
  | 0 => σ
  | k + 1 => (σ.requestGrowth p).requestGrowthTimes p k

/-- Lets the worker of an expanding population stop. -/
def closeGrowth (σ : World) (p : Nat) : World :=
  match σ.growth? p with
  | some g => if g.closed then σ else σ.updateGrowth p g.close
  | none => σ

/-- The host directory of an expanding population. -/
def directory (σ : World) (p : Nat) : Directory :=
  ((σ.directories.find? fun d => d.1 == p).map (·.2)).getD {}

/-- Replaces the host directory of an expanding population. -/
def setDirectory (σ : World) (p : Nat) (d : Directory) : World :=
  { σ with directories := (p, d) :: σ.directories.filter fun e => e.1 ≠ p }

end Fleet.Simulation.World
