import Fleet.Simulation.Clock

/-!
# Reports

A report shows what can be seen of a world under its names, after a step.

* **events** — of each log, what has been recorded since the last report. The
  order of removals that follow one another means nothing, so they are sorted;
  so are the additions that follow one another when a population was reset;
* **holders** — a holder that no step has named is shown as anonymous;
* **order** — where the order in which hosts are leased is left open, the lists
  that depend on it are sorted on request.
-/

namespace Fleet.Simulation

/-- A population in a report. -/
structure ProviderReport where
  hosts : List String
  /-- How often it was asked to grow, where that is reported. -/
  growth : Option Nat
  /-- The pages asked for, where there is a directory: tokens and sizes. -/
  calls : Option (List (Option String × Nat))

/-- A service in a report. -/
inductive ServiceReport
  /-- A request that is not there has no status and no devices. -/
  | engine (free hosts : List String) (active : Nat)
      (requests : List (String × Option (String × List String)))
  | scripted (calls : List String) (peak : Nat)

/-- A factory in a report. -/
inductive FactoryReport
  | recording (counters : Counters)
  | journal (lines : List String)
  | ssh (runs : List Ssh.Run)

/-- A background task in a report. -/
inductive TaskReport
  | pending
  | aborted
  | over (time : Instant) (outcome : Outcome)

/-- What can be seen of a world. -/
structure Report where
  providers : List (String × ProviderReport)
  events : List (String × List String)
  services : List (String × ServiceReport)
  locks : List (String × List (String × Option String))
  factories : List (String × FactoryReport)
  tasks : List (String × TaskReport)
  rawReleased : Nat

namespace Report

/-- Texts in order. -/
def sorted (texts : List String) : List String := texts.mergeSort fun a b => !(b < a)

/-- Texts in order where that is asked for. -/
def sortedIf (unordered : Bool) (texts : List String) : List String :=
  if unordered then sorted texts else texts

/-- Hosts by their labels, in order. -/
def sortedLabels (hosts : List Host) : List String := sorted (hosts.map Host.label)

/-- A reservation in a report. -/
def reservationText (r : Reservation) : String :=
  if r.status = .succeeded then r.deviceId else s!"{r.deviceId}:{r.status.name}"

/-- The reservations of a snapshot in a report. -/
def reservationTexts (unordered : Bool) (s : Snapshot) : List String :=
  sortedIf unordered (s.reservations.map reservationText)

/-- Sorts one of two kinds of changes wherever several of them follow one
another. -/
def sortRuns (removals : Bool) (changes : List Change) : List Change :=
  (changes.splitBy fun a b => a.isRemoval == b.isRemoval).flatMap fun run =>
    if run.all fun c => c.isRemoval == removals then run.mergeSort fun a b => !(b.label < a.label)
    else run

/-- The changes of a log in a report. -/
def eventTexts (afterReset : Bool) (changes : List Change) : List String :=
  let changes := sortRuns true changes
  (if afterReset then sortRuns false changes else changes).map Change.label

/-- How a holder is shown that no step has named. -/
def anonymousHolder : String := "<random>"

end Report

namespace World

open Report

/-- A holder as it is shown. -/
def publicHolder (σ : World) (holder : String) : String :=
  if σ.names.holders.contains holder then holder else anonymousHolder

/-- An outcome as it is shown. -/
def publicOutcome (σ : World) : Outcome → Outcome
  | .lease r => .lease { r with holder := σ.publicHolder r.holder }
  | .failed (.lock (.conflict id holder)) => .failed (.lock (.conflict id (σ.publicHolder holder)))
  | o => o

/-- Reports a population. -/
def reportProvider (σ : World) (p : ProviderName) : ProviderReport :=
  { hosts := sortedLabels (σ.network.members p.population).hosts
    growth := match (σ.network.get? p.population).map Population.origin with
      | some (.byHand n) => if p.counted then some n else none
      | _ => none
    calls := (σ.growth? p.population).map fun _ => (σ.directory p.population).calls }

/-- Reports a request of an engine. -/
def reportRequest (unordered : Bool) (e : Engine) (id : String) : Option (String × List String) :=
  (e.ledger.describe? id).map fun s => (s.status.name, reservationTexts unordered s)

/-- Reports an engine. -/
def reportEngine (unordered : Bool) (e : EngineEntry) : ServiceReport :=
  .engine (sortedIf unordered (e.engine.ledger.free.map Host.label))
    (sortedLabels (Registry.values e.engine.ledger.directory)) e.engine.ledger.entries.length
    (e.named.map fun id => (id, reportRequest unordered e.engine id))

/-- Reports a service, unless it stands behind a lock. -/
def reportService? (σ : World) (unordered : Bool) (s : Service) : Option ServiceReport :=
  if !s.layers.isEmpty then none
  else match s.base with
    | .engine n => (σ.engines[n]?).map (reportEngine unordered)
    | .scripted n => (σ.scripted[n]?).map fun s => .scripted s.calls s.peak

/-- Reports a lock service, unless it is broken. -/
def reportLocks? (σ : World) (l : LocksName) : Option (List (String × Option String)) :=
  (σ.lockService? l.locks).map fun L =>
    l.watched.map fun id => (id, (L.holder? σ.now id).map σ.publicHolder)

/-- Reports a factory. -/
def reportFactory : Factory → FactoryReport
  | .recording _ _ counters => .recording counters
  | .journal _ lines => .journal lines
  | .ssh _ _ runner => .ssh runner.runs

/-- Reports a background task. -/
def reportTask (σ : World) (n : Nat) : TaskReport :=
  match σ.result? n with
  | some (time, outcome) => .over time (σ.publicOutcome outcome)
  | none => if σ.aborted.contains n then .aborted else .pending

/-- Reports those that are to be reported. -/
def reportEach {α β : Type} (names : Registry α) (report? : α → Option β) : List (String × β) :=
  names.filterMap fun (name, a) => (report? a).map fun b => (name, b)

/-- Reports what can be seen of a world. -/
def report (σ : World) (unordered afterReset : Bool) : Report :=
  { providers := reportEach σ.names.providers fun p => some (σ.reportProvider p)
    events := reportEach σ.names.logs fun l => (σ.logs[l.1]?).map fun l =>
      eventTexts afterReset (l.changes.drop l.reported)
    services := reportEach σ.names.services (σ.reportService? unordered)
    locks := reportEach σ.names.locks σ.reportLocks?
    factories := reportEach σ.names.factories fun k => (σ.factories[k]?).map reportFactory
    tasks := reportEach σ.names.tasks fun n => some (σ.reportTask n)
    rawReleased := σ.rawReleased }

/-- Takes note that everything has been reported. -/
def markReported (σ : World) : World :=
  { σ with logs := σ.logs.map fun l => { l with reported := l.changes.length } }

end World

end Fleet.Simulation
