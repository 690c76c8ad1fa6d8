import Fleet.Simulation.Supply

/-!
# Services and factories of a world

How the services and factories of a world answer, and so how a pool over them
gets its calls answered.
-/

namespace Fleet.Simulation.World

/-- Operates on a scripted service. -/
def onScripted {α : Type} (σ : World) (n : Nat) (otherwise : α)
    (f : ScriptedService → ScriptedService × α) : World × α :=
  match σ.scripted[n]? with
  | none => (σ, otherwise)
  | some s =>
    let (s, a) := f s
    ({ σ with scripted := σ.scripted.setIfInBounds n s }, a)

/-- The snapshot of a request; nothing when the call breaks down. -/
def describe (σ : World) (b : Base) (id : String) :
    World × Option (Except ProvisionError Snapshot) :=
  match b with
  | .engine n => (σ, (σ.engines[n]?).map fun e => e.engine.describe id)
  | .scripted n => σ.onScripted n none fun s => s.describe id

/-- Gives a request back. -/
def release (σ : World) (b : Base) (id : String) : World × Except ProvisionError Unit :=
  match b with
  | .engine n => σ.onEngine n (.ok ()) fun e => ((e.release id).1, .ok ())
  | .scripted n => σ.onScripted n (.ok ()) fun s => s.release id

/-- Closes a service. -/
def close (σ : World) (b : Base) : World × Except ProvisionError Unit :=
  match b with
  | .engine n => (σ.stopEngine n, .ok ())
  | .scripted n => σ.onScripted n (.ok ()) fun s => s.close

/-- The host of a reservation. -/
def exchange (σ : World) (b : Base) (r : Reservation) : World × Except ReservationError Host :=
  match b with
  | .engine n =>
    (σ, (σ.engines[n]?).elim (.error (.hostNotFound r.deviceId)) fun e => e.engine.exchange r)
  | .scripted n => σ.onScripted n (.error (.hostNotFound r.deviceId)) fun s => s.exchange r

/-- Operates on a factory. -/
def onFactory {α : Type} (σ : World) (n : Nat) (otherwise : α) (f : Factory → Factory × α) :
    World × α :=
  match σ.factories[n]? with
  | none => (σ, otherwise)
  | some s =>
    let (s, a) := f s
    ({ σ with factories := σ.factories.setIfInBounds n s }, a)

/-- Answers a call of a pool. -/
def answerPool (p : PoolEntry) (σ : World) : (q : PoolCall Handle Handle) → World × q.Answer
  | .exchange r => σ.exchange p.reservations r
  | .connect h =>
    let (σ, a) := σ.onFactory p.connections (.ok ()) fun f => f.connect h
    (σ, a.map fun _ => ⟨p.connections, h⟩)
  | .openTransfer request _ h =>
    let (σ, a) := σ.onFactory p.transfers (.ok ()) fun f => f.openTransfer request h
    (σ, a.map fun _ => ⟨p.transfers, h⟩)
  | .closeTransfer t => σ.onFactory t.factory (.ok ()) fun f => f.closeTransfer t.host
  | .closeConnection c => σ.onFactory c.factory (.ok ()) fun f => f.closeConnection c.host
  | .release id => σ.release p.service.base id
  | .closeService => σ.close p.service.base
  | .closeConnections => σ.onFactory p.connections (.ok ()) fun f => f.closeConnections
  | .closeTransfers => σ.onFactory p.transfers (.ok ()) fun f => f.closeTransfers

/-- Leads a dialogue of a pool to its end. -/
def runPool {α : Type} (σ : World) (p : PoolEntry) (d : PoolDialogue Handle Handle α) : World × α :=
  d.run (answerPool p) σ

end Fleet.Simulation.World
