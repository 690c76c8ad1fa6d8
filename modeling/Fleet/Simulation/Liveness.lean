import Fleet.Simulation.Supply

/-!
# Liveness

Things go when nobody can refer to them any more: an engine stops, a layered
population lets go of the one below, and an expanding one is closed. `sweep`
sees to that whenever a name or a call may have been the last to refer to
something; a call that ends is such an occasion.
-/

namespace Fleet.Simulation.World

/-- Whether a service can still be referred to. -/
def isReferred (σ : World) (b : Base) : Bool :=
  σ.names.services.any (fun s => s.2.base == b) ||
    σ.names.pools.any (fun p => (poolBases p.2).contains b) ||
    σ.calls.any (fun c => c.2.bases.contains b) ||
    σ.releasers.any (fun r => r.2.1.service.base == b)

/-- Lets an engine go that nobody can refer to. -/
def sweepEngine (σ : World) (n : Nat) : World :=
  match σ.engines[n]? with
  | none => σ
  | some e =>
    if e.dropped || σ.isReferred (.engine n) then σ
    else
      let (network, _) := σ.network.unsubscribe e.population e.subscription
      let σ := { σ with network,
                        engines := σ.engines.modify n fun e => { e with dropped := true } }
      σ.stopEngine n

/-- Whether a population is layered over another. -/
def isLayeredOver (p : Population) (n : Nat) : Bool :=
  match p.origin with
  | .layered below _ => below == n
  | _ => false

/-- Whether a population can still be referred to. -/
def isPopulationReferred (σ : World) (p : Nat) : Bool :=
  σ.names.providers.any (fun q => q.2.population == p) ||
    σ.engines.any (fun e => e.population == p && !(e.dropped && e.engine.isOver)) ||
    σ.network.populations.any (fun q => isLayeredOver q p) ||
    σ.calls.any (fun c => c.2.populations.contains p)

/-- Lets a population go that nobody can refer to. -/
def sweepPopulation (σ : World) (p : Nat) : World :=
  if σ.isPopulationReferred p then σ
  else match (σ.network.get? p).map Population.origin with
    | some (.layered below number) =>
      let (network, _) := σ.network.unsubscribe below number
      { σ with network := network.modify p fun q => { q with origin := .byHand 0 } }
    | some (.expanding _) => σ.closeGrowth p
    | _ => σ

/-- Lets go of the engines and populations that nobody can refer to. A
population is layered over an older one only, so the youngest come first. -/
def sweep (σ : World) : World :=
  let σ := (List.range σ.engines.size).foldl sweepEngine σ
  (List.range σ.network.populations.size).reverse.foldl sweepPopulation σ

/-- Lets go of what an engine was the last to refer to, once it is over. -/
def sweepIfOver (σ : World) (n : Nat) : World :=
  if (σ.engines[n]?).any fun e => e.dropped && e.engine.isOver then σ.sweep else σ

/-! ## Calls -/

/-- The call of a number. -/
def call? (σ : World) (n : Nat) : Option Call := (σ.calls.find? fun c => c.1 == n).map (·.2)

/-- Replaces the state of a call. -/
def setCall (σ : World) (n : Nat) (c : Call) : World :=
  { σ with calls := σ.calls.map fun d => if d.1 = n then (n, c) else d }

/-- Begins a call; its number. -/
def addCall (σ : World) (t : Task) : World × Nat :=
  ({ σ with calls := σ.calls ++ [(σ.nextCall, .starting t)], nextCall := σ.nextCall + 1 },
    σ.nextCall)

/-- Takes a call out. -/
def removeCall (σ : World) (n : Nat) : World :=
  { σ with calls := σ.calls.filter fun c => c.1 ≠ n }

/-- Ends a call. -/
def finishCall (σ : World) (n : Nat) (o : Outcome) : World :=
  let σ := σ.removeCall n
  { σ with results := (n, σ.now, o) :: σ.results }.sweep

end Fleet.Simulation.World
