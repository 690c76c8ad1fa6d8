import Fleet.Engine.Basic

/-!
# The worker of an engine

`Engine.workerStep?` is one step of the worker: taking up a request, looking
for one free host, or noticing a permit. It is `none` when the worker has to
wait. A *turn* of the worker is all the steps that it can make before it has
to wait; every step uses up a queued request, a free host or a permit, or
brings the worker closer to waiting, so a turn ends.

* **order** — requests are taken up in the order of the queue, and the worker
  stays with a request until it has all its hosts or is gone;
* **growth** — the population is asked to grow once for each host that the
  worker had to wait for;
* **stopping** — the worker looks whether the engine is stopped whenever it
  would wait, and before it looks at anything else.
-/

namespace Fleet.Engine

/-- One step of the worker and whether it asks the population to grow; `none`
when the worker has to wait. -/
def workerStep? (σ : Engine) : Option (Engine × Bool) :=
  match σ.worker with
  | .gone => none
  | .idle =>
    if σ.stopped then some ({ σ with worker := .gone, queue := [] }, false)
    else match σ.queue with
      | [] => none
      | r :: rest =>
        match σ.ledger.markProvisioning r.id with
        | (_, false) => some ({ σ with queue := rest }, false)
        | (L, true) =>
          some ({ σ with ledger := L, queue := rest, worker := .seeking r 0 false }, false)
  | .seeking r granted hinted =>
    match σ.ledger.grant? r.id (granted + 1 = r.amount) with
    | .abandoned => some ({ σ with worker := .idle }, false)
    | .noHost => some ({ σ with worker := .parked r granted }, !hinted)
    | .granted _ L =>
      let next := if granted + 1 = r.amount then .idle else .seeking r (granted + 1) false
      some ({ σ with ledger := L, worker := next }, false)
  | .parked r granted =>
    if σ.stopped then some ({ σ with worker := .gone, queue := [] }, false)
    else if σ.permit then
      some ({ σ with permit := false, worker := .seeking r granted true }, false)
    else none

/-- How far the worker is from waiting when nothing else is left to do. -/
def Worker.rank : Worker → Nat
  | .gone => 0
  | .idle => 1
  | .parked .. => 1
  | .seeking .. => 2

/-- What bounds the steps of a turn. -/
def workLeft (σ : Engine) : Nat :=
  3 * σ.queue.length + 3 * σ.ledger.free.length + (if σ.permit then 2 else 0) +
    Worker.rank σ.worker

theorem free_setSnapshot (L : Ledger) (id : String) (s : Snapshot) :
    (L.setSnapshot id s).free = L.free := by
  unfold Ledger.setSnapshot; split <;> rfl

theorem free_markProvisioning {L M : Ledger} {id : String} {found : Bool}
    (h : L.markProvisioning id = (M, found)) : M.free = L.free := by
  unfold Ledger.markProvisioning at h
  split at h
  · cases h; rfl
  · cases h; exact free_setSnapshot ..

theorem free_of_granted {L M : Ledger} {id : String} {last : Bool} {host : Host}
    (h : L.grant? id last = .granted host M) : L.free = host :: M.free := by
  unfold Ledger.grant? at h
  split at h
  · cases h
  · split at h
    · cases h
    · next hfree => cases h; rw [hfree, free_setSnapshot]

/-- A step leaves less work. -/
theorem workLeft_lt_of_workerStep? {σ τ : Engine} {asks : Bool}
    (h : σ.workerStep? = some (τ, asks)) : τ.workLeft < σ.workLeft := by
  unfold workerStep? at h
  split at h
  · cases h
  · next hw =>
    split at h
    · cases h
      simp only [workLeft, Worker.rank, hw, List.length_nil]
      omega
    · split at h
      · cases h
      · next r rest hq =>
        split at h
        · cases h
          simp only [workLeft, hq, List.length_cons]
          omega
        · next L hm =>
          cases h
          simp only [workLeft, Worker.rank, hw, hq, free_markProvisioning hm, List.length_cons]
          omega
  · next r granted hinted hw =>
    split at h
    · cases h
      simp only [workLeft, Worker.rank, hw]
      omega
    · cases h
      simp only [workLeft, Worker.rank, hw]
      omega
    · next host L hg =>
      cases h
      simp only [workLeft, hw, free_of_granted hg, List.length_cons]
      by_cases hlast : granted + 1 = r.amount
      · simp only [hlast, if_pos, Worker.rank]
        omega
      · simp only [hlast, if_false, Worker.rank]
        omega
  · next r granted hw =>
    split at h
    · cases h
      simp only [workLeft, Worker.rank, hw, List.length_nil]
      omega
    · split at h
      · next hp =>
        cases h
        simp only [workLeft, Worker.rank, hw, hp, if_true]
        simp
      · cases h

/-- One turn of the worker: its steps until it has to wait, and how often it
asks the population to grow meanwhile. -/
def workerTurn (σ : Engine) : Engine × Nat :=
  match _h : σ.workerStep? with
  | none => (σ, 0)
  | some (τ, asks) =>
    let (υ, n) := τ.workerTurn
    (υ, n + if asks then 1 else 0)
termination_by σ.workLeft
decreasing_by exact workLeft_lt_of_workerStep? ‹_›

/-- Whether the worker has something to do. -/
def workerReady (σ : Engine) : Bool := σ.workerStep?.isSome

end Fleet.Engine
