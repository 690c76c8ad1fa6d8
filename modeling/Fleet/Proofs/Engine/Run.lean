import Fleet.Engine.Builder
import Fleet.Engine.Worker
import Fleet.Proofs.Ledger.Requests

/-!
# Runs of an engine

A run is a list of events, and an event is one operation of an engine, one
step of its worker or one turn of its reaper. Events come in any order, so
whatever is said of all runs holds however callers, the population, the worker
and the reaper take turns; a turn of the worker is a run of its steps
(`exists_run_workerTurn`). A caller's call is one event: the calls of two threads
come in either order, but one is over before the other begins. So the entry of a
request and its place in the queue come together, and nothing falls in between.

* **invariants** — `run_induct`: what every event keeps, every run keeps;
* **the worker** — `Move` lists what a step of the worker can do, each with
  what it needs; `move_of_workerStep?` says that there is nothing else;
* **frames** — events other than the worker's steps leave the worker alone,
  and all but the entering of requests leave the queue alone.
-/

namespace Fleet.Engine

/-- What can happen to an engine. -/
inductive Event
  -- a request is entered
  | submit (now : Instant) (request : Request)
  -- a whole request is given back
  | release (id : String)
  -- one device is given back
  | releaseDevice (deviceId : String)
  -- the requests are given back whose deadline lies before an instant
  | releaseExpired (now : Instant)
  -- a request's deadline is moved
  | extend (id : String)
  -- a host joins the population or leaves it
  | change (change : Change)
  -- the engine is stopped
  | stop
  -- the worker makes a step
  | work
  -- the reaper takes a turn
  | reap (now : Instant) (stamp : Nat)
  deriving DecidableEq

/-- The engine after an event. An extension that the clock cannot show changes
nothing, and neither does a step of a worker that has to wait. -/
def step (σ : Engine) : Event → Engine
  | .submit now r => (σ.submit now r).1
  | .release id => (σ.release id).1
  | .releaseDevice deviceId => (σ.releaseDevice deviceId).1
  | .releaseExpired now => (σ.releaseExpired now).1
  | .extend id => (σ.extend? id).elim σ Prod.fst
  | .change c => σ.applyChange c
  | .stop => σ.stop
  | .work => σ.workerStep?.elim σ Prod.fst
  | .reap now stamp => σ.reaperTurn now stamp

/-- Whether the population is asked to grow at an event. -/
def asks (σ : Engine) : Event → Bool
  | .work => σ.workerStep?.elim false Prod.snd
  | _ => false

/-- The engine after events in order. -/
def run (σ : Engine) (es : List Event) : Engine := es.foldl step σ

theorem run_append (σ : Engine) (es fs : List Event) : σ.run (es ++ fs) = (σ.run es).run fs :=
  List.foldl_append

/-- What every event keeps, every run keeps. -/
theorem run_induct {P : Engine → Prop} (hstep : ∀ σ e, P σ → P (σ.step e)) {σ : Engine}
    (h : P σ) (es : List Event) : P (σ.run es) := by
  induction es generalizing σ with
  | nil => exact h
  | cons e rest ih => exact ih (hstep σ e h)

/-- A turn of the worker is a run of its steps. -/
theorem exists_run_workerTurn (σ : Engine) :
    ∃ n, σ.workerTurn.1 = σ.run (List.replicate n .work) := by
  -- a turn recurses on its first step
  fun_induction workerTurn σ with
  | case1 σ h => exact ⟨0, rfl⟩
  | case2 σ τ asks h υ n hrest ih =>
    obtain ⟨k, hk⟩ := ih
    refine ⟨k + 1, ?_⟩
    have hstep : σ.step .work = τ := by
      show σ.workerStep?.elim σ Prod.fst = τ
      rw [h]
      rfl
    show υ = (σ.step .work).run (List.replicate k .work)
    rw [hstep, ← hk, hrest]

/-! ## Steps of the worker -/

/-- The engine whose worker has taken up the first queued request. -/
def takenUp (σ : Engine) (r : Request) (rest : List Request) (s : Snapshot) : Engine :=
  { σ with
    ledger := σ.ledger.setSnapshot r.id (s.withStatus .provisioning)
    queue := rest
    worker := .seeking r 0 false }

/-- The engine whose worker has leased the first free host to its request. -/
def leasedOut (σ : Engine) (r : Request) (n : Nat) (s : Snapshot) (h : Host) (rest : List Host) :
    Engine :=
  { σ with
    ledger := Ledger.setSnapshot { σ.ledger with free := rest } r.id
      (s.withReservation ⟨h.deviceId, .succeeded⟩
        (if n + 1 = r.amount then .succeeded else .provisioning))
    worker := if n + 1 = r.amount then .idle else .seeking r (n + 1) false }

theorem describe?_takenUp {σ : Engine} {r : Request} {s : Snapshot}
    (hs : σ.ledger.describe? r.id = some s) (rest : List Request) (id : String) :
    (σ.takenUp r rest s).ledger.describe? id =
      if id = r.id then some (s.withStatus .provisioning) else σ.ledger.describe? id := by
  show (σ.ledger.setSnapshot r.id _).describe? id = _
  rw [Ledger.describe?_setSnapshot, hs]
  rfl

theorem describe?_leasedOut {σ : Engine} {r : Request} {s : Snapshot}
    (hs : σ.ledger.describe? r.id = some s) (n : Nat) (h : Host) (rest : List Host)
    (id : String) :
    (σ.leasedOut r n s h rest).ledger.describe? id =
      if id = r.id then
        some (s.withReservation ⟨h.deviceId, .succeeded⟩
          (if n + 1 = r.amount then .succeeded else .provisioning))
      else σ.ledger.describe? id := by
  show (Ledger.setSnapshot { σ.ledger with free := rest } r.id _).describe? id = _
  rw [Ledger.describe?_setSnapshot]
  show (if id = r.id then (σ.ledger.describe? r.id).map _ else σ.ledger.describe? id) = _
  rw [hs]
  rfl

/-- What a step of the worker can do, and whether it asks the population to
grow. -/
inductive Move (σ : Engine) : Engine → Bool → Prop
  -- a worker that would wait leaves a stopped engine
  | leave (hw : σ.worker = .idle ∨ ∃ r n, σ.worker = .parked r n) (hstop : σ.stopped = true) :
      Move σ { σ with worker := .gone, queue := [] } false
  -- a queued request that is gone is passed over
  | skip {r rest} (hw : σ.worker = .idle) (hrun : σ.stopped = false) (hq : σ.queue = r :: rest)
      (hgone : σ.ledger.describe? r.id = none) : Move σ { σ with queue := rest } false
  -- a queued request is taken up
  | takeUp {r rest s} (hw : σ.worker = .idle) (hrun : σ.stopped = false)
      (hq : σ.queue = r :: rest) (hs : σ.ledger.describe? r.id = some s) :
      Move σ (σ.takenUp r rest s) false
  -- the request that the worker is at is gone
  | abandon {r n hinted} (hw : σ.worker = .seeking r n hinted)
      (hgone : σ.ledger.describe? r.id = none) : Move σ { σ with worker := .idle } false
  -- no host is free
  | park {r n hinted s} (hw : σ.worker = .seeking r n hinted)
      (hs : σ.ledger.describe? r.id = some s) (hfree : σ.ledger.free = []) :
      Move σ { σ with worker := .parked r n } (!hinted)
  -- the first free host is leased
  | grant {r n hinted s h rest} (hw : σ.worker = .seeking r n hinted)
      (hs : σ.ledger.describe? r.id = some s) (hfree : σ.ledger.free = h :: rest) :
      Move σ (σ.leasedOut r n s h rest) false
  -- a waiting worker uses the permit
  | resume {r n} (hw : σ.worker = .parked r n) (hrun : σ.stopped = false)
      (hp : σ.permit = true) :
      Move σ { σ with permit := false, worker := .seeking r n true } false

theorem move_of_workerStep? {σ τ : Engine} {asks : Bool} (h : σ.workerStep? = some (τ, asks)) :
    Move σ τ asks := by
  unfold workerStep? at h
  split at h
  · cases h
  · next hw =>
    split at h
    · next hstop => cases h; exact .leave (Or.inl hw) hstop
    · next hrun =>
      have hrun : σ.stopped = false := by simpa using hrun
      split at h
      · cases h
      · next r rest hq =>
        -- whether the request is still there decides what becomes of it
        cases hs : σ.ledger.describe? r.id with
        | none =>
          rw [Ledger.markProvisioning_of_none hs] at h
          cases h
          exact .skip hw hrun hq hs
        | some s =>
          rw [Ledger.markProvisioning_of_some hs] at h
          cases h
          exact .takeUp hw hrun hq hs
  · next r n hinted hw =>
    cases hs : σ.ledger.describe? r.id with
    | none =>
      rw [Ledger.grant?_of_none hs] at h
      cases h
      exact .abandon hw hs
    | some s =>
      cases hfree : σ.ledger.free with
      | nil =>
        rw [Ledger.grant?_of_free_nil hs hfree] at h
        cases h
        exact .park hw hs hfree
      | cons host rest =>
        rw [Ledger.grant?_of_some hs hfree] at h
        simp only [decide_eq_true_eq] at h
        cases h
        exact .grant hw hs hfree
  · next r n hw =>
    split at h
    · next hstop => cases h; exact .leave (Or.inr ⟨r, n, hw⟩) hstop
    · next hrun =>
      split at h
      · next hp => cases h; exact .resume hw (by simpa using hrun) hp
      · cases h

theorem workerStep?_of_move {σ τ : Engine} {asks : Bool} (h : Move σ τ asks) :
    σ.workerStep? = some (τ, asks) := by
  unfold workerStep?
  cases h with
  | leave hw hstop =>
    rcases hw with hw | ⟨r, n, hw⟩
    · rw [hw]
      exact if_pos hstop
    · rw [hw]
      exact if_pos hstop
  | skip hw hrun hq hgone =>
    rw [hw, hq]
    dsimp only
    rw [if_neg (Bool.eq_false_iff.mp hrun), Ledger.markProvisioning_of_none hgone]
  | takeUp hw hrun hq hs =>
    rw [hw, hq]
    dsimp only
    rw [if_neg (Bool.eq_false_iff.mp hrun), Ledger.markProvisioning_of_some hs]
    rfl
  | abandon hw hgone =>
    rw [hw]
    dsimp only
    rw [Ledger.grant?_of_none hgone]
  | park hw hs hfree =>
    rw [hw]
    dsimp only
    rw [Ledger.grant?_of_free_nil hs hfree]
  | grant hw hs hfree =>
    rw [hw]
    dsimp only
    rw [Ledger.grant?_of_some hs hfree]
    simp only [decide_eq_true_eq]
    rfl
  | resume hw hrun hp =>
    rw [hw]
    dsimp only
    rw [if_neg (Bool.eq_false_iff.mp hrun), if_pos hp]

theorem step_of_move {σ τ : Engine} {asks : Bool} (h : Move σ τ asks) : σ.step .work = τ := by
  show σ.workerStep?.elim σ Prod.fst = τ
  rw [workerStep?_of_move h]
  rfl

/-- The worker makes one of its moves or has to wait. -/
theorem step_work (σ : Engine) :
    (σ.workerStep? = none ∧ σ.step .work = σ) ∨ Move σ (σ.step .work) (σ.asks .work) := by
  unfold step asks
  cases h : σ.workerStep? with
  | none => exact Or.inl ⟨rfl, rfl⟩
  | some p => exact Or.inr (move_of_workerStep? h)

/-! ## What other events leave alone -/

/-- The engine takes a request as a new one. -/
structure Admits (σ : Engine) (r : Request) : Prop where
  unknown : σ.ledger.describe? r.id = none
  running : σ.stopped = false
  working : σ.worker ≠ .gone

/-- The engine with a new request. -/
def entered (σ : Engine) (now : Instant) (r : Request) : Engine :=
  { σ with
    ledger := σ.ledger.submit r.id (Instant.deadline now σ.term)
    queue := σ.queue ++ [r] }

theorem step_submit {σ : Engine} {r : Request} (h : σ.Admits r) (now : Instant) :
    σ.step (.submit now r) = σ.entered now r := by
  have hopen : ¬(σ.stopped = true ∨ σ.worker = .gone) := by
    rintro (hstop | hgone)
    · rw [h.running] at hstop
      cases hstop
    · exact h.working hgone
  show (σ.submit now r).1 = _
  unfold submit
  rw [h.unknown]
  simp only [if_neg hopen]
  rfl

theorem step_submit_of_not {σ : Engine} {r : Request} (h : ¬σ.Admits r) (now : Instant) :
    σ.step (.submit now r) = σ := by
  show (σ.submit now r).1 = _
  unfold submit
  cases hs : σ.ledger.describe? r.id with
  | some s => rfl
  | none =>
    by_cases hclosed : σ.stopped = true ∨ σ.worker = .gone
    · simp only [if_pos hclosed]
    · obtain ⟨hrun, hwork⟩ := not_or.mp hclosed
      exact absurd ⟨hs, by simpa using hrun, hwork⟩ h

theorem reaperTurn_eq (σ : Engine) (now : Instant) (stamp : Nat) :
    ∃ reaper looks, σ.reaperTurn now stamp =
      if looks = true then ({ σ with reaper }.releaseExpired now).1 else { σ with reaper } := by
  unfold reaperTurn
  split
  · exact ⟨σ.reaper, false, rfl⟩
  · next r hr => exact ⟨_, _, rfl⟩

theorem extend_eq (σ : Engine) (id : String) :
    (σ.extend? id).elim σ Prod.fst =
      { σ with ledger := (σ.ledger.extend? id σ.term).elim σ.ledger Prod.fst } := by
  unfold extend?
  cases σ.ledger.extend? id σ.term with
  | none => rfl
  | some p => rfl

/-- Only a step of the worker changes what the worker does. -/
theorem worker_step {σ : Engine} {e : Event} (he : e ≠ .work) :
    (σ.step e).worker = σ.worker := by
  cases e with
  | submit now r =>
    by_cases h : σ.Admits r
    · rw [step_submit h]
      rfl
    · rw [step_submit_of_not h]
  | extend id =>
    show ((σ.extend? id).elim σ Prod.fst).worker = _
    rw [extend_eq]
  | work => exact absurd rfl he
  | reap now stamp =>
    show (σ.reaperTurn now stamp).worker = _
    obtain ⟨reaper, looks, h⟩ := σ.reaperTurn_eq now stamp
    rw [h]
    split <;> rfl
  | release | releaseDevice | releaseExpired | change | stop => rfl

/-- Besides a step of the worker, only a new request changes the queue. -/
theorem queue_step {σ : Engine} {e : Event} (he : e ≠ .work) :
    (σ.step e).queue = σ.queue ∨
      ∃ now r, e = .submit now r ∧ σ.Admits r ∧ (σ.step e).queue = σ.queue ++ [r] := by
  cases e with
  | submit now r =>
    by_cases h : σ.Admits r
    · exact Or.inr ⟨now, r, rfl, h, by rw [step_submit h]; rfl⟩
    · exact Or.inl (by rw [step_submit_of_not h])
  | extend id =>
    show ((σ.extend? id).elim σ Prod.fst).queue = _ ∨ _
    rw [extend_eq]
    exact Or.inl rfl
  | work => exact absurd rfl he
  | reap now stamp =>
    show (σ.reaperTurn now stamp).queue = _ ∨ _
    obtain ⟨reaper, looks, h⟩ := σ.reaperTurn_eq now stamp
    rw [h]
    split <;> exact Or.inl rfl
  | release | releaseDevice | releaseExpired | change | stop => exact Or.inl rfl

end Fleet.Engine
