import Fleet.Proofs.Deadlines
import Fleet.Proofs.Lock.Leases

/-!
# Calls that wait for a lock

A call that waits for a lock goes through its loop step by step, and anything
may happen between two of its steps: it *registers* for the next release, it
*tries* to take the lock, and if it is refused it *sleeps* until a lock is
released or its retry alarm rings, and starts over. The clock is on time: it
moves on when no call is awake, and passes no retry alarm by.

* **calls** — who is awake is found by `caller?` and who sleeps by `waiter?`,
  and each event has one equation for either;
* **attempts** — each attempt is logged with the lease that the call found, so
  the last attempt of a call is known (`lastAttempt?`). Without interruption the
  three steps are `LockService.attempt` (`attempt_uninterrupted`);
* **leases** — a lease ends only where everybody who has registered is told
  (`spares_step`).
-/

namespace Fleet

/-- Whoever has a lock has a lease that still counts. -/
theorem LockTable.live_of_holder? {T : LockTable} {now : Instant} {id x : String}
    (h : T.holder? now id = some x) :
    ∃ l, T.lease? id = some l ∧ now < l.expires ∧ l.holder = x := by
  obtain ⟨l, hl, hx⟩ := Option.map_eq_some_iff.mp h
  obtain ⟨hlease, hlive⟩ := Option.filter_eq_some_iff.mp hl
  exact ⟨l, hlease, of_decide_eq_true hlive, hx⟩

namespace LockService

variable {L M : LockService} {now : Instant} {r : LockRequest} {n stamp : Nat}

/-- A waiter who is told of a release. -/
def told (w : Waiter) : Waiter := { w with notified := true }

theorem waiter?_abandon (L : LockService) (owner other : Nat) :
    (L.abandon owner).waiter? other = if other = owner then none else L.waiter? other :=
  find?_filter_key Waiter.owner L.waiters owner other

/-- Whether dropping a guard ends a lease. -/
def frees (L : LockService) (n : Nat) : Bool :=
  (L.guard? n).any fun g => (L.table.release g.request.id g.request.holder).2

/-- Who waits is told of a lease that ends. -/
theorem waiters_dropGuard (L : LockService) (n : Nat) :
    (L.dropGuard n).1.waiters = if L.frees n then L.waiters.map told else L.waiters := by
  unfold dropGuard frees
  cases L.guard? n with
  | none => rfl
  | some g =>
    simp only [Option.any_some]
    split <;> rfl

theorem waiter?_dropGuard (L : LockService) (n owner : Nat) :
    (L.dropGuard n).1.waiter? owner =
      if L.frees n then (L.waiter? owner).map told else L.waiter? owner := by
  have hkey : ∀ w, (told w).owner = w.owner := fun _ => rfl
  unfold waiter?
  rw [waiters_dropGuard]
  split
  · exact find?_map_key Waiter.owner hkey L.waiters owner
  · rfl

/-- The settings of a service and who waits by it. -/
structure SameLine (L M : LockService) : Prop where
  waiters : M.waiters = L.waiters
  retry : M.retry = L.retry

theorem sameLine_tryLock (L : LockService) (now : Instant) (r : LockRequest) :
    SameLine L (L.tryLock now r).1 := by
  rcases L.open_or_conflict now r with hopen | ⟨x, hx, hne⟩
  · rw [tryLock_of_open hopen]
    exact ⟨rfl, rfl⟩
  · rw [tryLock_of_holder hx hne]
    exact ⟨rfl, rfl⟩

theorem sameLine_keeperTurn (L : LockService) (n : Nat) (now : Instant) (stamp : Nat) :
    SameLine L (L.keeperTurn n now stamp) := by
  have hstep := L.keeperStep n now stamp
  generalize L.keeperTurn n now stamp = M at hstep
  cases hstep <;> exact ⟨rfl, rfl⟩

theorem retry_dropGuard (L : LockService) (n : Nat) : (L.dropGuard n).1.retry = L.retry := by
  unfold dropGuard
  cases L.guard? n with
  | none => rfl
  | some g =>
    dsimp only
    split <;> rfl

end LockService

namespace Acquiring

open LockService

/-- A call that waits for a lock and is awake: it has registered for the next
release, and has been refused since or not tried yet. -/
structure Caller where
  owner : Nat
  request : LockRequest
  refused : Bool := false
  notified : Bool := false
  deriving DecidableEq

/-- An attempt of a call. -/
structure Attempt where
  owner : Nat
  request : LockRequest
  instant : Instant
  /-- The lease that the table held on the lock. -/
  found : Option Lease
  deriving DecidableEq

/-- A lock table with the calls that wait for its locks: those that sleep wait
in the line of the service. -/
structure State where
  lock : Leasing.State
  awake : List Caller := []
  log : List Attempt := []

/-- What can happen. -/
inductive Event
  -- somebody tries to take a lock without waiting
  | tryLock (request : LockRequest)
  -- a call begins, or starts over
  | register (owner : Nat) (request : LockRequest)
  -- a call that has registered tries
  | attempt (owner : Nat)
  -- a call that was refused goes to sleep
  | sleep (owner : Nat)
  -- a call is given up
  | abandon (owner : Nat)
  | dropGuard (guard : Nat)
  -- the keeper of a guard has its turn
  | wake (guard : Nat)
  | pass (d : Duration)

namespace State

/-- What the clock shows. -/
def now (σ : State) : Instant := σ.lock.now

/-- A call that is awake. -/
def caller? (σ : State) (owner : Nat) : Option Caller :=
  σ.awake.find? fun c => c.owner == owner

/-- A call that sleeps. -/
def waiter? (σ : State) (owner : Nat) : Option Waiter := σ.lock.service.waiter? owner

/-- The calls that are awake besides one. -/
def others (σ : State) (owner : Nat) : List Caller := σ.awake.filter fun c => c.owner ≠ owner

/-- The last attempt of a call. -/
def lastAttempt? (σ : State) (owner : Nat) : Option Attempt :=
  (σ.log.filter fun a => a.owner = owner).getLast?

/-- A call tries to take its lock. -/
def tries (σ : State) (c : Caller) : State where
  lock := σ.lock.step (.tryLock c.request)
  awake :=
    if (σ.lock.takes? (.tryLock c.request)).isSome then σ.others c.owner
    else σ.others c.owner ++ [{ c with refused := true }]
  log := σ.log ++ [⟨c.owner, c.request, σ.now, σ.lock.lease? c.request.id⟩]

/-- How a call sleeps. -/
def sleeper (σ : State) (c : Caller) : Waiter :=
  ⟨c.owner, c.request, Alarm.after σ.now σ.lock.service.retry σ.lock.stamp, c.notified⟩

/-- A call goes to sleep at the end of the line. -/
def rests (σ : State) (c : Caller) : State :=
  let service := σ.lock.service
  { σ with
    lock := { σ.lock with
      service := { service with waiters := service.waiters ++ [σ.sleeper c] }
      stamp := σ.lock.stamp + 1 }
    awake := σ.others c.owner }

/-- The state after an event. -/
def step (σ : State) : Event → State
  | .tryLock r => { σ with lock := σ.lock.step (.tryLock r) }
  | .register owner r =>
    { σ with
      lock := σ.lock.step (.abandon owner)
      awake := σ.others owner ++ [⟨owner, r, false, false⟩] }
  | .attempt owner =>
    ((σ.caller? owner).filter fun c => !c.refused).elim σ σ.tries
  | .sleep owner =>
    ((σ.caller? owner).filter fun c => c.refused).elim σ σ.rests
  | .abandon owner => { σ with lock := σ.lock.step (.abandon owner), awake := σ.others owner }
  | .dropGuard n =>
    { σ with
      lock := σ.lock.step (.dropGuard n)
      awake :=
        if σ.lock.service.frees n then σ.awake.map fun c => { c with notified := true }
        else σ.awake }
  | .wake n => { σ with lock := σ.lock.step (.wake n) }
  | .pass d => { σ with lock := σ.lock.step (.pass d) }

/-- The state after events in order. -/
def run (σ : State) (es : List Event) : State := es.foldl step σ

/-- The clock is on time: it moves on when every call sleeps, and passes no retry
alarm by. -/
def Timely (σ : State) : Event → Prop
  | .pass d => σ.awake = [] ∧ σ.now + d.nanos ≤ Instant.horizon ∧
      ∀ w ∈ σ.lock.service.waiters, w.notified = false ∧ σ.now + d.nanos ≤ w.retry.due
  | .tryLock _ | .register _ _ | .attempt _ | .sleep _ | .abandon _ | .dropGuard _ | .wake _ => True

instance (σ : State) : DecidablePred σ.Timely
  | .pass d => inferInstanceAs (Decidable (σ.awake = [] ∧ σ.now + d.nanos ≤ Instant.horizon ∧ _))
  | .tryLock _ | .register _ _ | .attempt _ | .sleep _ | .abandon _ | .dropGuard _ | .wake _ =>
    isTrue trivial

/-- Every event of a run is on time. -/
def OnTime (σ : State) : List Event → Prop
  | [] => True
  | e :: es => σ.Timely e ∧ (σ.step e).OnTime es

instance OnTime.decide (σ : State) : ∀ es, Decidable (σ.OnTime es)
  | [] => isTrue trivial
  | e :: es =>
    have := OnTime.decide (σ.step e) es
    inferInstanceAs (Decidable (σ.Timely e ∧ (σ.step e).OnTime es))

/-- Every call sleeps, and none has reason to try again. -/
def Settled (σ : State) : Prop :=
  σ.awake = [] ∧ ∀ w ∈ σ.lock.service.waiters, w.isDue σ.now = false

instance (σ : State) : Decidable σ.Settled := inferInstanceAs (Decidable (_ ∧ _))

variable {σ : State} {owner other : Nat} {r : LockRequest} {c : Caller}

/-! ## Who sleeps and who is awake -/

theorem owner_of_caller? (h : σ.caller? owner = some c) : c.owner = owner := by
  have hfound := List.find?_some h
  simpa using hfound

theorem find?_others (σ : State) (owner other : Nat) :
    (σ.others owner).find? (fun c => c.owner == other) =
      if other = owner then none else σ.caller? other :=
  find?_filter_key Caller.owner σ.awake owner other

/-- Who has registered tries; nobody else does. -/
theorem step_attempt (σ : State) (owner : Nat) :
    σ.step (.attempt owner) = σ ∨ ∃ c, σ.caller? owner = some c ∧
      σ.step (.attempt owner) = σ.tries c := by
  show ((σ.caller? owner).filter fun c => !c.refused).elim σ σ.tries = σ ∨ ∃ c, _ ∧
    ((σ.caller? owner).filter fun c => !c.refused).elim σ σ.tries = σ.tries c
  cases hc : (σ.caller? owner).filter fun c => !c.refused with
  | none => exact .inl rfl
  | some c => exact .inr ⟨c, (Option.filter_eq_some_iff.mp hc).1, rfl⟩

/-- Who was refused goes to sleep; nobody else does. -/
theorem step_sleep (σ : State) (owner : Nat) :
    σ.step (.sleep owner) = σ ∨ ∃ c, σ.caller? owner = some c ∧ c.refused = true ∧
      σ.step (.sleep owner) = σ.rests c := by
  show ((σ.caller? owner).filter fun c => c.refused).elim σ σ.rests = σ ∨ ∃ c, _ ∧ _ ∧
    ((σ.caller? owner).filter fun c => c.refused).elim σ σ.rests = σ.rests c
  cases hc : (σ.caller? owner).filter fun c => c.refused with
  | none => exact .inl rfl
  | some c =>
    obtain ⟨hc, hrefused⟩ := Option.filter_eq_some_iff.mp hc
    exact .inr ⟨c, hc, hrefused, rfl⟩

theorem caller?_register (σ : State) (owner : Nat) (r : LockRequest) (other : Nat) :
    (σ.step (.register owner r)).caller? other =
      if other = owner then some ⟨owner, r, false, false⟩ else σ.caller? other := by
  show (σ.others owner ++ [_]).find? _ = _
  rw [List.find?_append, find?_others]
  split
  · next heq => simp [heq]
  · next hne => simp [Ne.symm hne]

theorem caller?_tries (σ : State) (c : Caller) (other : Nat) :
    (σ.tries c).caller? other =
      if other = c.owner then
        if (σ.lock.takes? (.tryLock c.request)).isSome then none
        else some { c with refused := true }
      else σ.caller? other := by
  show (if _ then σ.others c.owner else σ.others c.owner ++ [_]).find? _ = _
  by_cases htaken : (σ.lock.takes? (.tryLock c.request)).isSome
  · rw [if_pos htaken, if_pos htaken, find?_others]
  · rw [if_neg htaken, if_neg htaken, List.find?_append, find?_others]
    by_cases heq : other = c.owner
    · simp [heq]
    · simp [heq, Ne.symm heq]

theorem caller?_dropGuard (σ : State) (n other : Nat) :
    (σ.step (.dropGuard n)).caller? other =
      if σ.lock.service.frees n then (σ.caller? other).map fun c => { c with notified := true }
      else σ.caller? other := by
  have hkey : ∀ c : Caller, ({ c with notified := true } : Caller).owner = c.owner := fun _ => rfl
  show (if _ then σ.awake.map _ else σ.awake).find? _ = _
  split
  · exact find?_map_key Caller.owner hkey σ.awake other
  · rfl

theorem waiter?_rests (σ : State) {c : Caller} (hfresh : σ.waiter? c.owner = none) (other : Nat) :
    (σ.rests c).waiter? other =
      if other = c.owner then some (σ.sleeper c) else σ.waiter? other := by
  show (σ.lock.service.waiters ++ [σ.sleeper c]).find? _ = _
  rw [List.find?_append]
  split
  · next heq =>
    have hnone : σ.lock.service.waiters.find? (fun w => w.owner == other) = none := heq ▸ hfresh
    rw [hnone, heq]
    simp [sleeper]
  · next hne =>
    have hothers : [σ.sleeper c].find? (fun w => w.owner == other) = none := by
      simp [sleeper, Ne.symm hne]
    rw [hothers, Option.or_none]
    rfl

theorem lastAttempt?_tries (σ : State) (c : Caller) (other : Nat) :
    (σ.tries c).lastAttempt? other =
      if other = c.owner then
        some ⟨c.owner, c.request, σ.now, σ.lock.lease? c.request.id⟩
      else σ.lastAttempt? other := by
  unfold lastAttempt? tries
  rw [List.filter_append]
  split
  · next heq => simp [heq]
  · next hne => simp [Ne.symm hne]

/-! ## Uninterrupted attempts -/

/-- When nothing happens between its steps, a call does what `attempt` does. -/
theorem attempt_uninterrupted (σ : State) (owner : Nat) (r : LockRequest) :
    let τ := ((σ.step (.register owner r)).step (.attempt owner)).step (.sleep owner)
    τ.lock.service = (σ.lock.service.attempt owner r σ.now (σ.lock.stamp + 2)).1 ∧
      τ.awake = σ.others owner := by
  let c : Caller := ⟨owner, r, false, false⟩
  let ready := σ.step (.register owner r)
  have hready : ready.caller? owner = some c := by
    rw [caller?_register, if_pos rfl]
  have htried : ready.step (.attempt owner) = ready.tries c := by
    show ((ready.caller? owner).filter _).elim ready ready.tries = _
    rw [hready]
    rfl
  have hothers : ready.others owner = σ.others owner := by
    show (σ.others owner ++ [c]).filter _ = _
    simp [others, c, List.filter_filter]
  show ((ready.step (.attempt owner)).step (.sleep owner)).lock.service = _ ∧
    ((ready.step (.attempt owner)).step (.sleep owner)).awake = _
  rw [htried]
  have hcaller := ready.caller?_tries c owner
  rw [if_pos rfl] at hcaller
  unfold LockService.attempt
  rcases (σ.lock.service.abandon owner).open_or_conflict σ.now r with hopen | ⟨x, hx, hne⟩
  · -- it has the lock, and is not awake any more
    have htakes : ready.lock.takes? (.tryLock r) = some r := Leasing.State.takes?_of_open rfl hopen
    have hgone : (ready.tries c).step (.sleep owner) = ready.tries c := by
      show ((State.caller? _ owner).filter _).elim _ _ = _
      rw [hcaller, if_pos (by rw [htakes]; rfl)]
      rfl
    rw [hgone, tryLock_of_open hopen]
    refine ⟨congrArg Prod.fst (tryLock_of_open hopen), ?_⟩
    show (if (ready.lock.takes? (.tryLock r)).isSome then ready.others owner else _) = _
    rw [htakes]
    exact hothers
  · have htakes : ready.lock.takes? (.tryLock r) = none := by
      show ((σ.lock.service.abandon owner).tryLock σ.now r).2.toOption.map _ = none
      rw [tryLock_of_holder hx hne]
      rfl
    have hrests : (ready.tries c).step (.sleep owner) =
        (ready.tries c).rests { c with refused := true } := by
      show ((State.caller? _ owner).filter _).elim _ _ = _
      rw [hcaller, if_neg (by rw [htakes]; nofun)]
      rfl
    have hserve : (ready.tries c).lock.service = σ.lock.service.abandon owner :=
      congrArg Prod.fst (tryLock_of_holder hx hne)
    rw [hrests, tryLock_of_holder hx hne]
    refine ⟨?_, ?_⟩
    · unfold rests sleeper
      rw [hserve]
      rfl
    · show (if (ready.lock.takes? (.tryLock r)).isSome then ready.others owner
        else ready.others owner ++ [{ c with refused := true }]).filter _ = _
      rw [htakes, hothers]
      simp [others, c, List.filter_filter]

/-! ## What becomes of leases -/

/-- What happens to the leases when somebody is told of a release or not: time
does not go back, a lock stays leased unless everybody is told, and a lease that
is there afterwards was there before or ends no earlier than now. -/
structure Spares (σ τ : Leasing.State) (told : Bool) : Prop where
  later : σ.now ≤ τ.now
  leased : ∀ id, (σ.lease? id).isSome → (τ.lease? id).isSome ∨ told = true
  fresh : ∀ id l, τ.lease? id = some l → σ.lease? id = some l ∨ σ.now ≤ l.expires

theorem spares_of_same {σ τ : Leasing.State} (hnow : σ.now ≤ τ.now)
    (htable : τ.service.table = σ.service.table) (told : Bool) : Spares σ τ told := by
  have hsame : ∀ id, τ.lease? id = σ.lease? id := by
    intro id
    unfold Leasing.State.lease?
    rw [htable]
  exact ⟨hnow, fun id h => .inl (hsame id ▸ h), fun id l h => .inl (hsame id ▸ h)⟩

/-- A lease ends only where who waits is told. -/
theorem spares_step {σ : Leasing.State} (hshown : σ.now ≤ Instant.horizon) (e : Leasing.Event)
    {told : Bool} (htold : ∀ n, e = .dropGuard n → told = σ.service.frees n) :
    Spares σ (σ.step e) told := by
  cases hstarts : σ.starts? e with
  | some r =>
    refine ⟨σ.now_le_step e, fun id hl => .inl ?_, fun id l hl => ?_⟩
    · rw [Leasing.State.lease?_of_starts? hstarts]
      split
      · rfl
      · exact hl
    · rw [Leasing.State.lease?_of_starts? hstarts] at hl
      split at hl
      · obtain rfl := Option.some.inj hl
        exact .inr (Instant.le_deadline hshown r.ttl)
      · exact .inl hl
  | none =>
    cases hdrops : σ.drops? e with
    | none =>
      exact spares_of_same (σ.now_le_step e) (Leasing.State.table_of_rest hstarts hdrops) told
    | some g =>
      refine ⟨σ.now_le_step e, fun id hl => ?_, fun id l hl => .inl ?_⟩
      · rw [Leasing.State.lease?_of_drops? hdrops]
        split
        · next hid =>
          obtain ⟨l, hl⟩ := Option.isSome_iff_exists.mp hl
          by_cases hholder : l.holder = g.request.holder
          · -- this is the lease that ends
            cases e with
            | dropGuard n =>
              have hguard : σ.service.guard? n = some g := hdrops
              have hlease : σ.service.table.lease? g.request.id = some l := hid ▸ hl
              refine .inr ?_
              rw [htold n rfl]
              simp [frees, hguard, LockTable.release, hlease, hholder]
            | configure | tryLock | attempt | abandon | wake | pass => cases hdrops
          · exact .inl (by simp [hl, Option.filter, hholder])
        · exact .inl hl
      · rw [Leasing.State.lease?_of_drops? hdrops] at hl
        split at hl
        · exact (Option.filter_eq_some_iff.mp hl).1
        · exact hl

end State

end Acquiring

end Fleet
