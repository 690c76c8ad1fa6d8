import Fleet.Simulation.Turn

/-!
# The clock

Time moves only when everybody waits: the clock then jumps to the next alarm,
and everybody whose alarm is due is woken in the order of the alarms.

* **order** — actors take their turns in the order in which they were woken.
  The awaited call goes before them when it is woken by an alarm, and takes its
  turn after those that are ready when one of them wakes it;
* **settling** — a world has settled when nobody has anything to do at the
  present instant;
* **patience** — the awaited call is given up when it takes too long: it is
  broken off, and its step is stuck.

A simulation that never comes to rest at an instant, or never to an end, is
cut short after a number of turns that no sensible one needs.
-/

namespace Fleet.Simulation.World

/-- How many turns may be taken before a simulation is cut short. -/
def turnLimit : Nat := 100000000

/-- The alarms of the engines. -/
def engineAlarms (σ : World) : List (Alarm × Actor) :=
  σ.engines.toList.zipIdx.flatMap fun (e, n) =>
    (e.engine.reaper.bind Reaper.alarm?).toList.map fun a => (a, .reaper n)

/-- The alarms of the host directories. -/
def directoryAlarms (σ : World) : List (Alarm × Actor) :=
  σ.directories.flatMap fun (p, d) => d.pending.toList.map fun a => (a.1, .grower p)

/-- The alarms of a lock service. -/
def lockAlarms (l : Nat) (L : LockService) : List (Alarm × Actor) :=
  (L.keepers.flatMap fun k => k.alarm.toList.map fun a => (a, .keeper l k.number)) ++
    L.waiters.map fun w => (w.retry, .call w.owner)

/-- The alarms of the lock services. -/
def locksAlarms (σ : World) : List (Alarm × Actor) :=
  σ.locks.toList.zipIdx.flatMap fun (b, l) =>
    match b with
    | .table L => lockAlarms l L
    | .broken _ => []

/-- The alarms of the calls and of those who poll for them. -/
def callAlarms (σ : World) : List (Alarm × Actor) :=
  σ.calls.flatMap fun (n, c) =>
    (c.alarms.map fun a => (a, .call n)) ++
      match c with
      | .waiting w _ => w.poller.alarm?.toList.map fun a => (a, .poller n)
      | _ => []

/-- The alarm at which the awaited call is given up. -/
def patienceAlarms (σ : World) : List (Alarm × Actor) :=
  match σ.patience, σ.awaited with
  | some a, some n => [(a, .call n)]
  | _, _ => []

/-- Every alarm and whom it wakes. -/
def alarms (σ : World) : List (Alarm × Actor) :=
  σ.engineAlarms ++ σ.directoryAlarms ++ σ.locksAlarms ++ σ.callAlarms ++ σ.patienceAlarms

/-- When the next alarm is due. -/
def nextDue? (σ : World) : Option Instant := (σ.alarms.map fun a => a.1.due).min?

/-- Moves the clock and wakes everybody whose alarm is due by then. -/
def ring (σ : World) (t : Instant) : World :=
  let σ := { σ with now := max σ.now t }
  let due := (σ.alarms.filter fun a => a.1.rings σ.now).mergeSort fun a b => a.1.before b.1
  σ.wakeAll (due.map (·.2))

/-- Lets those that are ready take their turns, and those that they wake, until
nobody is ready. -/
def drain : (fuel : Nat) → World → World
  | 0, σ => σ.breakDown
  | fuel + 1, σ =>
    match σ.ready with
    | [] => σ
    | a :: rest => drain fuel ({ σ with ready := rest }.turn a)

/-- Lets everybody go on until all wait, at the same instant. -/
def settle : (fuel : Nat) → World → World
  | 0, σ => σ.breakDown
  | fuel + 1, σ =>
    let σ := drain turnLimit σ
    if σ.nextDue?.any fun t => t ≤ σ.now then settle fuel (σ.ring σ.now) else σ

/-- What a call came to, if it is over. -/
def result? (σ : World) (n : Nat) : Option (Instant × Outcome) :=
  (σ.results.find? fun r => r.1 == n).map (·.2)

/-- Breaks the awaited call off, once it has been waited for long enough. -/
def giveUp (σ : World) (n : Nat) : World :=
  match σ.call? n with
  | none => σ
  | some c =>
    if σ.patience.any fun a => a.rings σ.now then
      { σ with results := (n, σ.now, .stuck) :: σ.results }.dropCall n c
    else σ

/-- Goes on until the awaited call is over. -/
def awaitCall : (fuel : Nat) → World → Nat → World
  | 0, σ, _ => σ.breakDown
  | fuel + 1, σ, n =>
    if σ.broken || (σ.result? n).isSome then σ
    else if σ.called then awaitCall fuel (({ σ with called := false }.callTurn n).giveUp n) n
    else
      let σ := drain turnLimit σ
      if σ.called then awaitCall fuel σ n
      else match σ.nextDue? with
        | none => σ.breakDown
        | some t => awaitCall fuel (σ.ring t) n

/-- Carries a task out and waits for it. -/
def await (σ : World) (t : Task) : World × Outcome :=
  let (σ, n) := σ.addCall t
  let (σ, stamp) := σ.tick
  let patience := t.patience?.map fun d => Alarm.after σ.now d stamp
  let σ := awaitCall turnLimit { σ with awaited := some n, called := true, patience } n
  ({ σ with awaited := none, called := false, patience := none },
    (σ.result? n).elim .nothing (·.2))

/-- Has a task carried out in the background, under a name. -/
def spawn (σ : World) (name : String) (t : Task) : World × Outcome :=
  let (σ, n) := σ.addCall t
  ({ σ with names := { σ.names with tasks := σ.names.tasks.put name n } }.wake (.call n),
    .text "spawned")

/-- Moves the clock in one jump. Those that are ready take their turns first;
everything that was due on the way is due at the new time. -/
def advance (σ : World) (d : Duration) : World :=
  let σ := drain turnLimit { σ with now := σ.now + d.nanos }
  σ.ring σ.now

/-- Breaks a background task off; whether there is one of that name. -/
def abort (σ : World) (name : String) : World × Outcome :=
  match σ.names.tasks.get? name with
  | none => (σ, .flag false)
  | some n =>
    if (σ.result? n).isSome then (σ, .flag true)
    else ({ σ with aborted := n :: σ.aborted }.wake (.call n), .flag true)

end Fleet.Simulation.World
