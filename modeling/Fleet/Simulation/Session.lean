import Fleet.Simulation.Pools
import Fleet.Simulation.Populations
import Fleet.Simulation.Report

/-!
# Sessions

A session is a list of steps carried out one after the other in a new world,
with a report after each. A step that waits is waited for, or left to go on in
the background under a name. After a step everybody goes on until all wait,
unless the step says otherwise.
-/

namespace Fleet.Simulation

/-- A step that may have to wait. -/
inductive WaitAction
  | sleep (time : Duration)
  | provision (service id : String) (amount : Nat)
  | provisionWait (pool id : String) (amount : Nat) (limit : Duration) (group : String)
  | waitTerminal (service id : String) (limit : Duration)
  | acquire (locks guardName id : String) (holder : Option String) (ttl : Duration)
      (limit : Option Duration)
  | grow (population : String)

/-- What a step does. -/
inductive Action
  | population (action : PopulationAction)
  | lock (action : LockAction)
  | service (action : ServiceAction)
  | pool (action : PoolAction)
  /-- Waits, or goes on in the background under a name. -/
  | wait (action : WaitAction) (background : Option String)
  /-- Moves the clock in one jump. -/
  | advance (time : Duration)
  /-- Breaks a background task off. -/
  | abort (task : String)

namespace Action

/-- Whether the step replaces all members of a population. -/
def isReset : Action → Bool
  | population (.reset ..) => true
  | _ => false

end Action

/-- A step of a session. -/
structure Step where
  action : Action
  /-- Whether everybody goes on until all wait before the report. -/
  settles : Bool := true

/-- What a step came to, when, and what the world looked like afterwards. -/
structure StepReport where
  outcome : Outcome
  time : Instant
  report : Report

namespace World

/-- The task of a step that may have to wait. -/
def task? (σ : World) : WaitAction → World × Option Task
  | .sleep time => (σ, some (.sleep time))
  | .provision service id amount =>
    (σ.nameRequest id, (σ.service? service).map fun s => .provision s id amount)
  | .provisionWait pool id amount limit group =>
    (σ.nameRequest id,
      (σ.names.pools.get? pool).map fun p => .provisionWait p id amount limit group)
  | .waitTerminal service id limit =>
    (σ, (σ.service? service).map fun s => .waitTerminal s.base id limit)
  | .acquire locks guardName id holder ttl limit =>
    let (σ, r) := σ.lockRequest locks id holder ttl
    (σ, (σ.locks? locks).map fun l => .acquire l r limit guardName)
  | .grow population => (σ, (σ.population? population).map .grow)

/-- Carries out what a step does. -/
def perform (σ : World) : Action → World × Outcome
  | .population a => σ.performPopulation a
  | .lock a => σ.performLock a
  | .service a => σ.performService a
  | .pool a => σ.performPool a
  | .advance time => (σ.advance time, .nothing)
  | .abort task => σ.abort task
  | .wait a background =>
    match σ.task? a with
    | (σ, none) => (σ, .nothing)
    | (σ, some t) => background.elim (σ.await t) fun name => σ.spawn name t

/-- How often a world is settled before a simulation is cut short. -/
def settleLimit : Nat := 100000

/-- Carries out a step. -/
def step (σ : World) (unordered : Bool) (s : Step) : World × StepReport :=
  let (σ, outcome) := σ.perform s.action
  let σ := σ.sweep
  let σ := if s.settles then (settle settleLimit σ) else σ
  (σ.markReported, ⟨σ.publicOutcome outcome, σ.now, σ.report unordered s.action.isReset⟩)

/-- Carries out steps in order; nothing when the simulation ends without an
answer. -/
def run (σ : World) (unordered : Bool) : List Step → Option (List StepReport)
  | [] => some []
  | s :: rest =>
    let (σ, r) := σ.step unordered s
    if σ.broken then none else (σ.run unordered rest).map (r :: ·)

end World

/-- Carries out a session in a new world. -/
def session (unordered : Bool) (steps : List Step) : Option (List StepReport) :=
  ({} : World).run unordered steps

end Fleet.Simulation
