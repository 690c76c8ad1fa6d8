import Fleet.Population.Expansion

/-!
# Growth requests

An expanding population serves requests for growth one after the other, one
expansion pass each, by a single worker. Requests wait in a queue; one that
somebody waits for carries that caller's number and is answered with the
outcome of its own pass.

* **closing** — a closed population finishes the pass in progress and answers
  it, then its worker is gone; requests that were still queued, and all later
  ones, are answered that the worker has stopped.
-/

namespace Fleet

/-- Who waits for the outcome of a pass, if anybody does. -/
abbrev Asker := Option Nat

/-- What the worker of an expanding population is doing. -/
inductive GrowthPhase
  | idle
  | asking (asker : Asker) (pass : Pass)
  | gone
  deriving DecidableEq, Repr

/-- The worker of an expanding population and the requests before it. -/
structure Growth where
  /-- How many hosts a pass may add before it stops asking, and how many the
  directory is asked for at a time. -/
  leaseSize : Nat
  leaseSize_pos : 0 < leaseSize
  queue : List Asker := []
  phase : GrowthPhase := .idle
  closed : Bool := false

namespace Growth

/-- The lease size of a population that is given none. -/
def defaultLeaseSize : Nat := 20

/-- The worker of a population with that lease size, at least one. -/
def ofLeaseSize (n : Nat) : Growth :=
  { leaseSize := max n 1, leaseSize_pos := Nat.lt_of_lt_of_le Nat.one_pos (Nat.le_max_right n 1) }

/-- Whether requests are still taken. -/
def accepts (g : Growth) : Bool := g.phase != .gone

/-- Queues a request; `none` when the worker is gone. -/
def request? (g : Growth) (asker : Asker) : Option Growth :=
  if g.accepts then some { g with queue := g.queue ++ [asker] } else none

/-- Asks the worker to stop. -/
def close (g : Growth) : Growth := { g with closed := true }

/-- Whether an idle worker has something to do. -/
def isReady (g : Growth) : Bool := g.phase == .idle && (g.closed || !g.queue.isEmpty)

/-- What an idle worker does next: it stops, and the askers of the requests
still queued are sent away; or it begins the next request's pass, which then
waits for its first page. -/
def next (g : Growth) (m : Membership) : Growth × List Asker :=
  if g.closed then ({ g with phase := .gone, queue := [] }, g.queue)
  else match g.queue with
    | [] => (g, [])
    | asker :: rest => ({ g with phase := .asking asker (.start m g.leaseSize), queue := rest }, [])

/-- How a pass ended, and who is to be told. -/
structure Outcome where
  asker : Asker
  result : Except PopulationError PassSummary

/-- Takes the directory's answer to the page that the pass in progress asked
for. -/
def receive (g : Growth) (m : Membership) (answer : Except PopulationError Page) :
    Growth × Membership × List Change × Option Outcome :=
  match g.phase with
  | .asking asker pass =>
    match answer with
    | .error e => ({ g with phase := .idle }, m, [], some ⟨asker, .error e⟩)
    | .ok page =>
      match pass.receive m page with
      | (.asking pass, m, changes) => ({ g with phase := .asking asker pass }, m, changes, none)
      | (.over summary, m, changes) =>
        ({ g with phase := .idle }, m, changes, some ⟨asker, .ok summary⟩)
  | _ => (g, m, [], none)

/-- The page that the pass in progress has asked for: its token and how many
hosts it should hold. -/
def wanted? (g : Growth) : Option (Option String × Nat) :=
  match g.phase with
  | .asking _ pass => some (pass.token, g.leaseSize)
  | _ => none

end Growth

end Fleet
