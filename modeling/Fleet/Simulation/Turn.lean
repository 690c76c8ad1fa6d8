import Fleet.Simulation.Liveness
import Fleet.Simulation.Submitting

/-!
# Turns

One turn of each kind of actor: what it does until it has to wait again. A
call that is broken off stops waiting for locks, leaves those it has, and has
its request given back if it was waiting for one.
-/

namespace Fleet.Simulation.World

/-! ## Waits -/

/-- One turn of a call that waits for a request. -/
def waitTurn (σ : World) (n : Nat) (w : Wait) (t : WaitTicket) : World :=
  match w.settled? σ.now with
  | none => σ
  | some settled =>
    match σ.runPool t.pool (Wait.conclude w.id settled) with
    | (σ, .ok devices) =>
      let groups := σ.names.groups.put t.group ⟨t.pool, devices⟩
      { σ with names := { σ.names with groups } }.finishCall n (.devices (devices.map Device.host))
    | (σ, .error e) => σ.finishCall n (.failed (.provision e))

/-- Begins to wait for a request that has been entered. -/
def startWait (σ : World) (n : Nat) (t : WaitTicket) (s : Snapshot) : World :=
  let (σ, stamp) := σ.tick
  let w := Wait.start s t.pool.interval t.limit σ.now stamp
  ((σ.setCall n (.waiting w t)).wake (.poller n)).waitTurn n w t

/-- One turn of what polls for a waiting call. -/
def pollerTurn (σ : World) (n : Nat) : World :=
  match σ.call? n with
  | some (.waiting w t) =>
    if w.poller.isDue σ.now then
      let (σ, answer) := σ.describe t.pool.service.base w.id
      let (σ, stamp) := σ.tick
      let w := w.hear σ.now stamp (answer.getD (.error (.interrupted w.id "the poller broke down")))
      let σ := σ.setCall n (.waiting w t)
      match w.poller with
      | .ended _ => σ.wake (.call n)
      | _ => σ
    else σ
  | _ => σ

/-- How long is waited between two looks at the status of a request. -/
def lookInterval : Duration := Duration.ofMillis 10

/-- Looks at the status of a request once. -/
def look (σ : World) (n : Nat) (b : Base) (id : String) (deadline : Instant) : World :=
  match σ.describe b id with
  | (σ, none) => σ.breakDown
  | (σ, some (.error e)) => σ.finishCall n (.failed (.provision e))
  | (σ, some (.ok s)) =>
    if s.status.isTerminal then σ.finishCall n (.snapshot s)
    else if deadline ≤ σ.now then σ.finishCall n (.failed (.provision (.timeout id)))
    else
      let (σ, stamp) := σ.tick
      σ.setCall n (.polling b id deadline (Alarm.after σ.now lookInterval stamp))

/-! ## Turns of calls -/

/-- One turn of a call that enters a request, as the first part of a wait or
not. -/
def submitTurn (σ : World) (n : Nat) (s : Submission) (ticket : Option WaitTicket) : World :=
  match σ.submissionTurn n s, ticket with
  | (σ, .inl s), none => σ.setCall n (.submitting s)
  | (σ, .inl s), some t => σ.setCall n (.entering s t)
  | (σ, .inr (.ok snapshot)), none => σ.finishCall n (.snapshot snapshot)
  | (σ, .inr (.ok snapshot)), some t => σ.startWait n t snapshot
  | (σ, .inr (.error e)), _ => σ.finishCall n (.failed (.provision e))

/-- One turn of a call that takes a lock. -/
def acquireTurn (σ : World) (n l : Nat) (a : Acquisition) (guardName : String) : World :=
  match σ.locks[l]? with
  | some (.table L) =>
    let (σ, stamp) := σ.tick
    match a.turn L σ.now stamp with
    | (L, .waiting) => (σ.setLocks l L).setCall n (.acquiring l a guardName)
    | (L, .granted number) =>
      let σ := ((σ.setLocks l L).wakeKeeper l number).storeGuard guardName (.taken l number)
      σ.finishCall n (.lease a.request)
    | (L, .gaveUp) => (σ.setLocks l L).finishCall n (.text "gave up")
  | some (.broken e) => σ.finishCall n (.failed (.lock e))
  | none => σ.finishCall n (.failed (.lock (.interrupted a.request.id)))

/-- The first turn of a call. -/
def startCall (σ : World) (n : Nat) : Task → World
  | .sleep time =>
    let (σ, a) := σ.alarmAfter time
    if a.rings σ.now then σ.finishCall n .nothing else σ.setCall n (.sleeping a)
  | .provision service id amount =>
    match Request.make id amount with
    | .error e => σ.finishCall n (.failed (.value e))
    | .ok r => σ.submitTurn n (Submission.start service r) none
  | .provisionWait pool id amount limit group =>
    match Request.make id amount with
    | .error e => σ.finishCall n (.failed (.value e))
    | .ok r => σ.submitTurn n (Submission.start pool.service r) (some ⟨pool, limit, group⟩)
  | .waitTerminal b id limit =>
    match Instant.add? σ.now limit with
    | none => σ.breakDown
    | some deadline => σ.look n b id deadline
  | .acquire l r limit guardName =>
    let (σ, stamp) := σ.tick
    σ.acquireTurn n l (Acquisition.start n r limit σ.now stamp) guardName
  | .grow p =>
    match (σ.growth? p).bind fun g => g.request? (some n) with
    | none => σ.finishCall n (.failed (.population .workerStopped))
    | some g => (σ.updateGrowth p g).setCall n (.growing p none)

/-- One turn of a call that has started. -/
def resumeCall (σ : World) (n : Nat) : Call → World
  | .starting t => σ.startCall n t
  | .sleeping a => if a.rings σ.now then σ.finishCall n .nothing else σ
  | .submitting s => σ.submitTurn n s none
  | .entering s t => σ.submitTurn n s (some t)
  | .waiting w t => σ.waitTurn n w t
  | .polling b id deadline a => if a.rings σ.now then σ.look n b id deadline else σ
  | .acquiring l a guardName => σ.acquireTurn n l a guardName
  | .growing _ (some outcome) =>
    σ.finishCall n (Outcome.ofExcept .population .growth outcome)
  | .growing _ none => σ

/-- Has a request given back by somebody else. -/
def startReleaser (σ : World) (p : PoolEntry) (id : String) : World :=
  let k := σ.nextReleaser
  { σ with releasers := σ.releasers ++ [(k, p, id)], nextReleaser := k + 1 }.wake (.releaser k)

/-- Breaks a call off. -/
def dropCall (σ : World) (n : Nat) (c : Call) : World :=
  let σ := match c with
    | .submitting s => σ.dropSubmission s
    | .entering s _ => σ.dropSubmission s
    | .waiting w t => σ.startReleaser t.pool w.id
    | .acquiring l a _ => (σ.lockService? l).elim σ fun L => σ.setLocks l (L.abandon a.owner)
    | _ => σ
  (σ.removeCall n).sweep

/-- One turn of a call. -/
def callTurn (σ : World) (n : Nat) : World :=
  match σ.call? n with
  | none => σ
  | some c => if σ.aborted.contains n then σ.dropCall n c else σ.resumeCall n c

/-- One turn of what gives an abandoned request back. -/
def releaserTurn (σ : World) (k : Nat) : World :=
  match σ.releasers.find? fun r => r.1 == k with
  | none => σ
  | some (_, p, id) =>
    let (σ, _) := σ.runPool p (Wait.abandon id)
    { σ with releasers := σ.releasers.filter fun r => r.1 ≠ k }.sweep

/-! ## Turns of the workers -/

/-- One turn of an engine's worker. -/
def workerTurn (σ : World) (n : Nat) : World :=
  match σ.engines[n]? with
  | none => σ
  | some e =>
    let (engine, asked) := e.engine.workerTurn
    let σ := { σ with engines := σ.engines.setIfInBounds n { e with engine } }
    (σ.requestGrowthTimes e.population asked).sweepIfOver n

/-- One turn of an engine's reaper. -/
def reaperTurn (σ : World) (n : Nat) : World :=
  let (σ, stamp) := σ.tick
  (σ.changeEngine n fun e => e.reaperTurn σ.now stamp).sweepIfOver n

/-- Tells the callers who wait for the outcome of a pass. -/
def answerAskers (σ : World) (askers : List Asker) (r : Except PopulationError PassSummary) :
    World :=
  (askers.filterMap id).foldl (fun σ n =>
    match σ.call? n with
    | some (.growing p _) => (σ.setCall n (.growing p (some r))).wake (.call n)
    | _ => σ) σ

/-- Asks the directory of an expanding population for a page. -/
def askPage (σ : World) (p : Nat) (g : Growth) : World :=
  let d := σ.directory p
  let (a, script) := Directory.take d.script
  let (σ, alarm) := σ.alarmAfter a.delay
  σ.setDirectory p { script, calls := d.calls ++ g.wanted?.toList,
                     pending := some (alarm, a.answer) }

/-- Hands an answer of the directory to the pass in progress. -/
def receivePage (σ : World) (p : Nat) (g : Growth) (answer : Except PopulationError Page) : World :=
  let d := σ.directory p
  let σ := σ.setDirectory p { d with pending := none }
  let (g, m, changes, outcome) := g.receive (σ.network.members p) answer
  let σ := σ.setGrowth p g
  let σ := σ.spread (σ.network.update p (m, changes))
  outcome.elim σ fun o => σ.answerAskers [o.asker] o.result

/-- One step of the worker of an expanding population; `none` when it has to
wait. -/
def growerStep? (σ : World) (p : Nat) : Option World :=
  (σ.growth? p).bind fun g =>
    match g.phase with
    | .gone => none
    | .idle =>
      if g.isReady then
        let (g, rejected) := g.next (σ.network.members p)
        some ((σ.setGrowth p g).answerAskers rejected (.error .workerStopped))
      else none
    | .asking .. =>
      match (σ.directory p).pending with
      | none => some (σ.askPage p g)
      | some (a, answer) => if a.rings σ.now then some (σ.receivePage p g answer) else none

/-- The steps of the worker of an expanding population, at most so many. -/
def growerSteps : (fuel : Nat) → World → Nat → World
  | 0, σ, _ => σ
  | fuel + 1, σ, p =>
    match σ.growerStep? p with
    | none => σ
    | some σ => growerSteps fuel σ p

/-- One turn of the worker of an expanding population. A step uses up a page
or a queued request, or is one of the few in between. -/
def growerTurn (σ : World) (p : Nat) : World :=
  let queued := (σ.growth? p).elim 0 fun g => g.queue.length
  growerSteps (4 * (queued + (σ.directory p).script.length) + 4) σ p

/-- One turn of the keeper of a guard. -/
def keeperTurn (σ : World) (l guardNumber : Nat) : World :=
  match σ.lockService? l with
  | none => σ
  | some L =>
    let (σ, stamp) := σ.tick
    σ.setLocks l (L.keeperTurn guardNumber σ.now stamp)

/-- One turn of an actor. -/
def turn (σ : World) : Actor → World
  | .worker n => σ.workerTurn n
  | .reaper n => σ.reaperTurn n
  | .grower p => σ.growerTurn p
  | .keeper l guardNumber => σ.keeperTurn l guardNumber
  | .poller n => σ.pollerTurn n
  | .releaser k => σ.releaserTurn k
  | .call n => σ.callTurn n

end Fleet.Simulation.World
