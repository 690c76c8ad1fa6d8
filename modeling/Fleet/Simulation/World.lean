import Fleet.Engine.Basic
import Fleet.Population.Network
import Fleet.Simulation.Call
import Fleet.Simulation.ScriptedService

/-!
# The world of a simulation

A world holds everything that takes part in a simulation, the clock, the names
under which steps refer to things, and the actors that have something to do.

* **actors** — the background work: workers and reapers of engines, workers of
  expanding populations, keepers of locks, pollers and releasers of waits, and
  calls. One that has something to do is put at the end of `ready`, once;
* **the awaited call** — a step that waits is a call of its own, the awaited
  one. It has no place in `ready`; that it has something to do is remembered
  apart (`called`);
* **alarms** — nobody keeps a list of alarms: they are read off the components
  that wait for them.
-/

namespace Fleet.Simulation

/-- Whose turn it can be. -/
inductive Actor
  | worker (engine : Nat)
  | reaper (engine : Nat)
  /-- The worker of an expanding population. -/
  | grower (population : Nat)
  /-- The keeper of a guard. -/
  | keeper (locks guard : Nat)
  /-- What polls for a waiting call. -/
  | poller (call : Nat)
  /-- What gives an abandoned request back. -/
  | releaser (n : Nat)
  | call (n : Nat)
  deriving DecidableEq, Repr

/-- An answer of a host directory, and how long it takes. -/
structure PageAnswer where
  answer : Except PopulationError Page
  delay : Duration

/-- A host directory that answers from a script; when that is used up, it has
no more hosts. -/
structure Directory where
  script : List PageAnswer := []
  calls : List (Option String × Nat) := []
  /-- The answer on its way. -/
  pending : Option (Alarm × Except PopulationError Page) := none

/-- The answer at hand and the script that is left. -/
def Directory.take : List PageAnswer → PageAnswer × List PageAnswer
  | [] => (⟨.ok ⟨[], none⟩, ⟨0⟩⟩, [])
  | a :: rest => (a, rest)

/-- An engine with its population. -/
structure EngineEntry where
  engine : Engine
  population : Nat
  /-- The number of its subscription to the population. -/
  subscription : Nat
  /-- The requests that steps have named since it was built. -/
  named : List String := []
  /-- Nobody can refer to it any more. -/
  dropped : Bool := false

/-- What stands behind the name of a lock service. -/
inductive LockBackend
  | table (service : LockService)
  /-- It refuses every acquisition. -/
  | broken (error : LockError)

/-- What a log has recorded, and how much of it has been reported. -/
structure Log where
  changes : List Change := []
  reported : Nat := 0

/-- A population under a name. -/
structure ProviderName where
  population : Nat
  /-- Its requests for growth are reported. -/
  counted : Bool

/-- A lock service under a name, and the locks whose holders are reported. -/
structure LocksName where
  locks : Nat
  watched : List String := []

/-- A guard under a name. -/
inductive GuardName
  | taken (locks guard : Nat)
  /-- A guard that stands for no lock. -/
  | raw

/-- Devices under a name, and the pool that opened them. -/
structure Group where
  pool : PoolEntry
  devices : List OpenDevice

/-- The names of a simulation, kind by kind. -/
structure Names where
  providers : Registry ProviderName := []
  /-- The number of the log and that of its subscription. -/
  logs : Registry (Nat × Nat) := []
  locks : Registry LocksName := []
  services : Registry Service := []
  factories : Registry Nat := []
  pools : Registry PoolEntry := []
  groups : Registry Group := []
  guards : Registry GuardName := []
  /-- The numbers of the calls. -/
  tasks : Registry Nat := []
  /-- The holders that steps have named. -/
  holders : List String := []

/-- A simulation. -/
structure World where
  now : Instant := 0
  /-- The stamp of the next alarm. -/
  stamp : Nat := 0
  ready : List Actor := []
  /-- The call that the current step waits for. -/
  awaited : Option Nat := none
  /-- Whether the awaited call has something to do. -/
  called : Bool := false
  /-- When the awaited call is given up. -/
  patience : Option Alarm := none
  network : Network := {}
  directories : List (Nat × Directory) := []
  engines : Array EngineEntry := #[]
  scripted : Array ScriptedService := #[]
  locks : Array LockBackend := #[]
  factories : Array Factory := #[]
  logs : Array Log := #[]
  calls : List (Nat × Call) := []
  nextCall : Nat := 0
  /-- The calls that are to be broken off at their next turn, or were. -/
  aborted : List Nat := []
  /-- When calls were over, and what they came to. -/
  results : List (Nat × Instant × Outcome) := []
  /-- The pools of abandoned waits, and the requests that are to be given back. -/
  releasers : List (Nat × PoolEntry × String) := []
  nextReleaser : Nat := 0
  /-- How many holders without a name of their own there have been. -/
  anonymous : Nat := 0
  /-- How many raw guards have been dropped. -/
  rawReleased : Nat := 0
  names : Names := {}
  /-- Something went wrong that ends the simulation without an answer. -/
  broken : Bool := false

namespace World

/-! ## The clock and the actors -/

/-- A fresh stamp. -/
def tick (σ : World) : World × Nat := ({ σ with stamp := σ.stamp + 1 }, σ.stamp)

/-- The longest that a wait asked for in a script lasts. -/
def longestWait : Duration := Instant.farAhead

/-- The alarm of a wait asked for in a script: of a sleep, of the work of a
scripted service, or of an answer of a host directory. -/
def alarmAfter (σ : World) (d : Duration) : World × Alarm :=
  let (σ, stamp) := σ.tick
  (σ, Alarm.after σ.now ⟨min d.nanos longestWait.nanos⟩ stamp)

/-- Notes that an actor has something to do. -/
def wake (σ : World) (a : Actor) : World :=
  match a with
  | .call n =>
    if σ.awaited = some n then { σ with called := true }
    else if σ.ready.contains a then σ else { σ with ready := σ.ready ++ [a] }
  | _ => if σ.ready.contains a then σ else { σ with ready := σ.ready ++ [a] }

/-- Notes that several actors have something to do. -/
def wakeAll (σ : World) (actors : List Actor) : World := actors.foldl wake σ

/-- Ends the simulation without an answer. -/
def breakDown (σ : World) : World := { σ with broken := true }

/-- A holder that no step has named. -/
def freshHolder (σ : World) : World × String :=
  ({ σ with anonymous := σ.anonymous + 1 }, Text.token σ.anonymous)

end World

end Fleet.Simulation
