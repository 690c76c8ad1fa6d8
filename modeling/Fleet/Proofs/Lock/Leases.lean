import Fleet.Proofs.Lock.Holdings

/-!
# Leases on a table

Several handles share one lock table, each with its own settings. They try to
take locks, wait for them, and drop guards; keepers take their turns, also late
ones and ones of guards whose lease is long lost; time passes. A run is a list
of such events in any order, and it may begin in any state.

* **the table** — an event starts a lease (`starts?`), drops a guard (`drops?`),
  or leaves the table alone: `lease?_of_starts?`, `lease?_of_drops?` and
  `table_of_rest` say what becomes of every lease, and `open_of_starts?` that
  nobody starts one where somebody else has the lock;
* **a lease that started** — until its holder starts it again or drops a guard
  of it, it stays as it is up to its end, whatever others do, and after that
  until somebody tries to take the lock (`lease?_run`);
* **holders** — so holders cannot disturb each other (`holders_undisturbed`).
-/

namespace Fleet

/-- A release ends the lease of that holder and of nobody else. -/
theorem LockTable.lease?_release_self (T : LockTable) (id holder : String) :
    (T.release id holder).1.lease? id = (T.lease? id).filter fun l => l.holder ≠ holder := by
  unfold release
  cases hl : T.lease? id with
  | none => exact hl
  | some l =>
    by_cases hholder : l.holder = holder
    · rw [Option.filter_some, if_neg (by simpa using hholder)]
      dsimp only
      rw [if_pos hholder]
      exact Registry.get?_erase_self ..
    · rw [Option.filter_some, if_pos (by simpa using hholder)]
      dsimp only
      rw [if_neg hholder]
      exact hl

namespace LockService

/-- The lock that a turn of a keeper leases again. -/
def prolonged? (L : LockService) (n : Nat) (now : Instant) : Option LockRequest :=
  (L.keeper? n).bind fun k =>
    if k.stopped = false ∧ k.alarm.any (fun a => a.rings now) = true ∧
      L.holder? now k.request.id = some k.request.holder then some k.request else none

/-- A keeper leases its lock again or leaves the table alone. -/
theorem table_keeperTurn (L : LockService) (n : Nat) (now : Instant) (stamp : Nat) :
    (L.keeperTurn n now stamp).table = (L.prolonged? n now).elim L.table (L.table.grant now) := by
  unfold keeperTurn prolonged?
  cases hk : L.keeper? n with
  | none => rfl
  | some k =>
    rw [Option.bind_some]
    dsimp only
    cases hstopped : k.stopped with
    | true => rfl
    | false =>
      cases halarm : k.alarm with
      | none => rfl
      | some a =>
        by_cases hrings : a.rings now = true
        · by_cases hheld : L.table.holder? now k.request.id = some k.request.holder
          · have hholder : L.holder? now k.request.id = some k.request.holder := hheld
            simp [LockTable.extend, hheld, hholder, hrings, restKeeper]
          · have hholder : ¬L.holder? now k.request.id = some k.request.holder := hheld
            simp [LockTable.extend, hheld, hholder, hrings, dropKeeper]
        · simp [hrings]

theorem holder?_of_prolonged? {L : LockService} {n : Nat} {now : Instant} {r : LockRequest}
    (h : L.prolonged? n now = some r) : L.holder? now r.id = some r.holder := by
  obtain ⟨k, -, hif⟩ := Option.bind_eq_some_iff.mp h
  split at hif
  · next hall =>
    cases hif
    exact hall.2.2
  · cases hif

theorem attempt_of_open {L : LockService} {now : Instant} {r : LockRequest} (h : L.Open now r)
    (owner stamp : Nat) : (L.attempt owner r now stamp).2 = some L.nextNumber := by
  have hopen : (L.abandon owner).Open now r := h
  unfold attempt
  rw [tryLock_of_open hopen]
  rfl

end LockService

namespace Leasing

open LockService

/-- A lock table with all that hangs on it, at an instant. The stamp is that of
the next alarm. -/
structure State where
  service : LockService
  now : Instant
  stamp : Nat := 0

/-- What can happen. -/
inductive Event
  -- what follows is done through a handle with these settings
  | configure (retry : Duration) (extension : Option Duration)
  -- somebody tries to take a lock without waiting
  | tryLock (request : LockRequest)
  -- somebody who waits, or is ready to wait, tries to take a lock
  | attempt (owner : Nat) (request : LockRequest)
  -- somebody waits no more
  | abandon (owner : Nat)
  | dropGuard (guard : Nat)
  -- the keeper of a guard has its turn
  | wake (guard : Nat)
  | pass (d : Duration)

/-- What somebody tries to take. -/
def Event.tries? : Event → Option LockRequest
  | .tryLock r | .attempt _ r => some r
  | .configure _ _ | .abandon _ | .dropGuard _ | .wake _ | .pass _ => none

namespace State

/-- The service after an event. -/
def serve (σ : State) : Event → LockService
  | .configure retry extension => { σ.service with retry, extension }
  | .tryLock r => (σ.service.tryLock σ.now r).1
  | .attempt owner r => (σ.service.attempt owner r σ.now σ.stamp).1
  | .abandon owner => σ.service.abandon owner
  | .dropGuard n => (σ.service.dropGuard n).1
  | .wake n => σ.service.keeperTurn n σ.now σ.stamp
  | .pass _ => σ.service

/-- The clock after an event. -/
def clock (σ : State) : Event → Instant
  | .pass d => σ.now + d.nanos
  | .configure _ _ | .tryLock _ | .attempt _ _ | .abandon _ | .dropGuard _ | .wake _ => σ.now

/-- The state after an event. -/
def step (σ : State) (e : Event) : State := ⟨σ.serve e, σ.clock e, σ.stamp + 1⟩

/-- The state after events in order. -/
def run (σ : State) (es : List Event) : State := es.foldl step σ

/-- Something is so at every event of a run. -/
def Along (P : State → Event → Prop) : State → List Event → Prop
  | _, [] => True
  | σ, e :: es => P σ e ∧ Along P (σ.step e) es

instance decidableAlong {P : State → Event → Prop} [∀ σ e, Decidable (P σ e)] :
    (σ : State) → (es : List Event) → Decidable (Along P σ es)
  | _, [] => isTrue trivial
  | σ, e :: es =>
    have := decidableAlong (P := P) (σ.step e) es
    inferInstanceAs (Decidable (P σ e ∧ Along P (σ.step e) es))

theorem run_append (σ : State) (es fs : List Event) : σ.run (es ++ fs) = (σ.run es).run fs :=
  List.foldl_append

theorem along_append {P : State → Event → Prop} {σ : State} {es fs : List Event} :
    Along P σ (es ++ fs) ↔ Along P σ es ∧ Along P (σ.run es) fs := by
  induction es generalizing σ with
  | nil => exact ⟨fun h => ⟨trivial, h⟩, And.right⟩
  | cons e rest ih =>
    show P σ e ∧ Along P (σ.step e) (rest ++ fs) ↔ _
    rw [ih, ← and_assoc]
    rfl

theorem along_mono {P Q : State → Event → Prop} (hPQ : ∀ σ e, P σ e → Q σ e) {σ : State}
    {es : List Event} (h : σ.Along P es) : σ.Along Q es := by
  induction es generalizing σ with
  | nil => trivial
  | cons e rest ih => exact ⟨hPQ σ e h.1, ih h.2⟩

/-! ## What an event does to the table -/

/-- The lease on a lock. -/
def lease? (σ : State) (id : String) : Option Lease := σ.service.table.lease? id

/-- Who holds a lock. -/
def holder? (σ : State) (id : String) : Option String := σ.service.holder? σ.now id

/-- The lock that is taken at an event. -/
def takes? (σ : State) : Event → Option LockRequest
  | .tryLock r => (σ.service.tryLock σ.now r).2.toOption.map fun _ => r
  | .attempt owner r => (σ.service.attempt owner r σ.now σ.stamp).2.map fun _ => r
  | .configure _ _ | .abandon _ | .dropGuard _ | .wake _ | .pass _ => none

/-- The lock whose lease starts at an event: it is taken, or its keeper extends
it. -/
def starts? (σ : State) : Event → Option LockRequest
  | .wake n => σ.service.prolonged? n σ.now
  | e => σ.takes? e

/-- The guard that is dropped at an event. -/
def drops? (σ : State) : Event → Option Guard
  | .dropGuard n => σ.service.guard? n
  | .configure _ _ | .tryLock _ | .attempt _ _ | .abandon _ | .wake _ | .pass _ => none

/-- Who does an event: whose attempt, guard or keeper it is. -/
def actor? (σ : State) : Event → Option String
  | .tryLock r | .attempt _ r => some r.holder
  | .dropGuard n => (σ.service.guard? n).map (·.request.holder)
  | .wake n => (σ.service.keeper? n).map (·.request.holder)
  | .configure _ _ | .abandon _ | .pass _ => none

/-- Whether a holder's lease on a lock starts at an event. -/
def starts (σ : State) (id holder : String) (e : Event) : Bool :=
  (σ.starts? e).any fun r => r.id = id ∧ r.holder = holder

/-- Whether a holder's guard of a lock is dropped at an event. -/
def drops (σ : State) (id holder : String) (e : Event) : Bool :=
  (σ.drops? e).any fun g => g.request.id = id ∧ g.request.holder = holder

section
variable {σ : State} {e : Event} {r : LockRequest} {g : Guard}

theorem starts_eq_true {id holder : String} : σ.starts id holder e = true ↔
    ∃ r, σ.starts? e = some r ∧ r.id = id ∧ r.holder = holder := by
  simp [starts, Option.any_eq_true]

theorem drops_eq_true {id holder : String} : σ.drops id holder e = true ↔
    ∃ g, σ.drops? e = some g ∧ g.request.id = id ∧ g.request.holder = holder := by
  simp [drops, Option.any_eq_true]

/-- Who takes a lock found it open, and has its guard and its keeper now. -/
theorem taken_of_takes? (h : σ.takes? e = some r) :
    e.tries? = some r ∧ σ.service.Open σ.now r ∧
      (σ.service.taken σ.now r).SameHoldings (σ.serve e) := by
  cases e with
  | tryLock q =>
    have h : (σ.service.tryLock σ.now q).2.toOption.map (fun _ => q) = some r := h
    show _ ∧ _ ∧ (σ.service.taken σ.now r).SameHoldings (σ.service.tryLock σ.now q).1
    rcases σ.service.open_or_conflict σ.now q with hopen | ⟨x, hx, hne⟩
    · rw [tryLock_of_open hopen] at h ⊢
      cases h
      exact ⟨rfl, hopen, .refl _⟩
    · rw [tryLock_of_holder hx hne] at h
      cases h
  | attempt owner q =>
    have h : (σ.service.attempt owner q σ.now σ.stamp).2.map (fun _ => q) = some r := h
    rcases σ.service.attempt_cases owner q σ.now σ.stamp with ⟨hopen, hsame, hnumber⟩ | ⟨-, hnone⟩
    · rw [hnumber] at h
      cases h
      exact ⟨rfl, hopen, hsame⟩
    · rw [hnone] at h
      cases h
  | configure | abandon | dropGuard | wake | pass => cases h

/-- Who tries to take an open lock gets it. -/
theorem takes?_of_open (htries : e.tries? = some r) (h : σ.service.Open σ.now r) :
    σ.takes? e = some r := by
  cases e with
  | tryLock q =>
    cases htries
    show (σ.service.tryLock σ.now r).2.toOption.map _ = _
    rw [tryLock_of_open h]
    rfl
  | attempt owner q =>
    cases htries
    show (σ.service.attempt owner r σ.now σ.stamp).2.map _ = _
    rw [attempt_of_open h]
    rfl
  | configure | abandon | dropGuard | wake | pass => cases htries

/-- Who tries to take a lock and does not get it changes nothing that is held. -/
theorem same_of_refused (htries : e.tries? = some r) (h : σ.takes? e = none) :
    σ.service.SameHoldings (σ.serve e) := by
  cases e with
  | tryLock q =>
    have h : (σ.service.tryLock σ.now q).2.toOption.map (fun _ => q) = none := h
    show σ.service.SameHoldings (σ.service.tryLock σ.now q).1
    rcases σ.service.open_or_conflict σ.now q with hopen | ⟨x, hx, hne⟩
    · rw [tryLock_of_open hopen] at h
      cases h
    · rw [tryLock_of_holder hx hne]
      exact .refl _
  | attempt owner q =>
    have h : (σ.service.attempt owner q σ.now σ.stamp).2.map (fun _ => q) = none := h
    rcases σ.service.attempt_cases owner q σ.now σ.stamp with ⟨-, -, hnumber⟩ | ⟨hsame, -⟩
    · rw [hnumber] at h
      cases h
    · exact hsame
  | configure | abandon | dropGuard | wake | pass => cases htries

/-- A lease starts where somebody takes the lock or a keeper extends it. -/
theorem takes_or_wakes (h : σ.starts? e = some r) :
    σ.takes? e = some r ∨ ∃ n, e = .wake n ∧ σ.service.prolonged? n σ.now = some r := by
  cases e with
  | wake n => exact Or.inr ⟨n, rfl, h⟩
  | configure | tryLock | attempt | abandon | dropGuard | pass => exact Or.inl h

theorem starts?_of_takes? (h : σ.takes? e = some r) : σ.starts? e = some r := by
  cases e with
  | wake n => cases h
  | configure | tryLock | attempt | abandon | dropGuard | pass => exact h

/-- Nobody starts a lease on a lock that somebody else has. -/
theorem open_of_starts? (h : σ.starts? e = some r) : σ.service.Open σ.now r := by
  rcases takes_or_wakes h with htakes | ⟨n, -, hprolonged⟩
  · exact (taken_of_takes? htakes).2.1
  · intro x hx
    exact Option.some.inj (hx.symm.trans (holder?_of_prolonged? hprolonged))

theorem table_of_starts? (h : σ.starts? e = some r) :
    (σ.serve e).table = σ.service.table.grant σ.now r := by
  rcases takes_or_wakes h with htakes | ⟨n, rfl, hprolonged⟩
  · exact (taken_of_takes? htakes).2.2.table
  · show (σ.service.keeperTurn n σ.now σ.stamp).table = _
    rw [table_keeperTurn, hprolonged]
    rfl

theorem table_of_drops? (h : σ.drops? e = some g) :
    (σ.serve e).table = (σ.service.table.release g.request.id g.request.holder).1 := by
  cases e with
  | dropGuard n => exact (dropGuard_of_guard h).table
  | configure | tryLock | attempt | abandon | wake | pass => cases h

/-- An event that starts no lease and drops no guard leaves the table alone. -/
theorem table_of_rest (hstarts : σ.starts? e = none) (hdrops : σ.drops? e = none) :
    (σ.serve e).table = σ.service.table := by
  cases e with
  | configure | abandon | pass => rfl
  | tryLock q => exact (same_of_refused (e := .tryLock q) rfl hstarts).table
  | attempt owner q => exact (same_of_refused (e := .attempt owner q) rfl hstarts).table
  | dropGuard n =>
    show (σ.service.dropGuard n).1.table = _
    rw [dropGuard_of_none hdrops]
  | wake n =>
    have hstarts : σ.service.prolonged? n σ.now = none := hstarts
    show (σ.service.keeperTurn n σ.now σ.stamp).table = _
    rw [table_keeperTurn, hstarts]
    rfl

theorem lease?_of_starts? (h : σ.starts? e = some r) (id : String) :
    (σ.step e).lease? id =
      if id = r.id then some ⟨r.holder, Instant.deadline σ.now r.ttl⟩ else σ.lease? id := by
  show (σ.serve e).table.lease? id = _
  rw [table_of_starts? h]
  split
  · next hid => rw [hid, LockTable.lease?_grant_self]
  · next hid => exact LockTable.lease?_grant_of_ne _ _ hid

theorem lease?_of_drops? (h : σ.drops? e = some g) (id : String) :
    (σ.step e).lease? id =
      if id = g.request.id then (σ.lease? id).filter fun l => l.holder ≠ g.request.holder
      else σ.lease? id := by
  show (σ.serve e).table.lease? id = _
  rw [table_of_drops? h]
  split
  · next hid =>
    rw [hid]
    exact LockTable.lease?_release_self ..
  · next hid => exact LockTable.lease?_release_of_ne _ _ hid

end

/-! ## A lease that started -/

section
variable {σ : State} {e : Event} {id : String} {l : Lease}

/-- Only its holder starts a lease again, unless somebody takes the lock after
the lease's end. -/
theorem holder_of_starts? {r : LockRequest} (h : σ.lease? r.id = some l)
    (hs : σ.starts? e = some r) (hfirst : l.expires ≤ σ.now → e.tries? ≠ some r) :
    r.holder = l.holder := by
  rcases Nat.lt_or_ge σ.now l.expires with hlive | hover
  · exact (open_of_starts? hs l.holder (LockTable.holder?_of_live h hlive)).symm
  · -- a keeper extends nothing after the end, so somebody tried
    rcases takes_or_wakes hs with htakes | ⟨n, -, hprolonged⟩
    · exact absurd (taken_of_takes? htakes).1 (hfirst hover)
    · have hnobody : σ.service.holder? σ.now r.id = none := LockTable.holder?_of_expired h hover
      rw [holder?_of_prolonged? hprolonged] at hnobody
      cases hnobody

/-- An event keeps a lease that its holder neither starts again nor gives back,
unless somebody else takes the lock after the lease's end. -/
theorem lease?_step (h : σ.lease? id = some l) (hstarts : σ.starts id l.holder e = false)
    (hdrops : σ.drops id l.holder e = false)
    (hfirst : l.expires ≤ σ.now → ∀ r, e.tries? = some r → r.id ≠ id) :
    (σ.step e).lease? id = some l := by
  cases hs : σ.starts? e with
  | some r =>
    rw [lease?_of_starts? hs, h]
    refine if_neg ?_
    rintro rfl
    have hself := holder_of_starts? h hs fun hover htries => hfirst hover r htries rfl
    rw [starts_eq_true.mpr ⟨r, hs, rfl, hself⟩] at hstarts
    cases hstarts
  | none =>
    cases hd : σ.drops? e with
    | some g =>
      rw [lease?_of_drops? hd, h]
      split
      · next hid =>
        have hother : l.holder ≠ g.request.holder := by
          intro hself
          rw [drops_eq_true.mpr ⟨g, hd, hid.symm, hself.symm⟩] at hdrops
          cases hdrops
        rw [Option.filter_some, if_pos (by simpa using hother)]
      · rfl
    | none =>
      show (σ.serve e).table.lease? id = _
      rw [table_of_rest hs hd]
      exact h

/-- Nobody has tried to take a lock since an instant. -/
def Untried (id : String) (since : Instant) (σ : State) (e : Event) : Prop :=
  since ≤ σ.now → ∀ r ∈ e.tries?, r.id ≠ id

instance (id : String) (since : Instant) (σ : State) (e : Event) :
    Decidable (σ.Untried id since e) :=
  inferInstanceAs (Decidable (_ → _))

/-- A run keeps a lease as its events do. -/
theorem lease?_run {es : List Event} (h : σ.lease? id = some l)
    (hstarts : σ.Along (fun τ f => τ.starts id l.holder f = false) es)
    (hdrops : σ.Along (fun τ f => τ.drops id l.holder f = false) es)
    (hfirst : σ.Along (Untried id l.expires) es) : (σ.run es).lease? id = some l := by
  induction es generalizing σ with
  | nil => exact h
  | cons e rest ih =>
    exact ih (lease?_step h hstarts.1 hdrops.1 hfirst.1) hstarts.2 hdrops.2 hfirst.2

/-- The clock never goes back. -/
theorem now_le_step (σ : State) (e : Event) : σ.now ≤ (σ.step e).now := by
  cases e with
  | pass d => exact Nat.le_add_right σ.now d.nanos
  | configure | tryLock | attempt | abandon | dropGuard | wake => exact Nat.le_refl _

theorem now_le_run (σ : State) (es : List Event) : σ.now ≤ (σ.run es).now := by
  induction es generalizing σ with
  | nil => exact Nat.le_refl _
  | cons e rest ih => exact Nat.le_trans (σ.now_le_step e) (ih (σ.step e))

/-- Before an instant nobody has tried since then. -/
theorem untried_of_before {since : Instant} {es : List Event} (h : (σ.run es).now < since) :
    σ.Along (Untried id since) es := by
  induction es generalizing σ with
  | nil => trivial
  | cons e rest ih =>
    refine ⟨fun hpast => ?_, ih h⟩
    have hnow : σ.now ≤ ((σ.step e).run rest).now := σ.now_le_run (e :: rest)
    exact absurd (Nat.le_trans hpast hnow) (Nat.not_le_of_lt h)

theorem actor?_of_starts? {r : LockRequest} (h : σ.starts? e = some r) :
    σ.actor? e = some r.holder := by
  rcases takes_or_wakes h with htakes | ⟨n, rfl, hprolonged⟩
  · have htries := (taken_of_takes? htakes).1
    cases e with
    | tryLock | attempt =>
      cases htries
      rfl
    | configure | abandon | dropGuard | wake | pass => cases htries
  · obtain ⟨k, hk, hif⟩ := Option.bind_eq_some_iff.mp hprolonged
    split at hif
    · cases hif
      show (σ.service.keeper? n).map _ = _
      rw [hk]
      rfl
    · cases hif

theorem actor?_of_drops? {g : Guard} (h : σ.drops? e = some g) :
    σ.actor? e = some g.request.holder := by
  cases e with
  | dropGuard n =>
    have h : σ.service.guard? n = some g := h
    show (σ.service.guard? n).map _ = _
    rw [h]
    rfl
  | configure | tryLock | attempt | abandon | wake | pass => cases h

/-- Who does not act neither starts a lease nor drops a guard. -/
theorem idle_of_actor? {holder : String} (h : σ.actor? e ≠ some holder) :
    σ.starts id holder e = false ∧ σ.drops id holder e = false := by
  constructor
  · refine Bool.eq_false_iff.mpr fun hstarts => ?_
    obtain ⟨r, hr, -, rfl⟩ := starts_eq_true.mp hstarts
    exact h (actor?_of_starts? hr)
  · refine Bool.eq_false_iff.mpr fun hdrops => ?_
    obtain ⟨g, hg, -, rfl⟩ := drops_eq_true.mp hdrops
    exact h (actor?_of_drops? hg)

end

/-! ## Holders -/

/-- **Holders cannot disturb each other.** A lease that started stays until its
end if its holder has not started it again or dropped a guard of it since: the
holder has the lock, everybody else's attempt is told so and changes nothing,
and nothing that somebody else does touches the lease. From its end on, whoever
tries first gets the lock. -/
theorem holders_undisturbed {σ : State} {e : Event} {r : LockRequest} {fs : List Event}
    (hstart : σ.starts? e = some r)
    (hlatest : (σ.step e).Along (fun τ f => τ.starts r.id r.holder f = false) fs)
    (hheld : (σ.step e).Along (fun τ f => τ.drops r.id r.holder f = false) fs) :
    let ends := Instant.deadline σ.now r.ttl
    let τ := (σ.step e).run fs
    (τ.now < ends →
      τ.lease? r.id = some ⟨r.holder, ends⟩ ∧ τ.holder? r.id = some r.holder ∧
        (∀ q : LockRequest, q.id = r.id → q.holder ≠ r.holder →
          τ.service.tryLock τ.now q = (τ.service, .error (.conflict r.id r.holder))) ∧
        ∀ f, τ.actor? f ≠ some r.holder → (τ.step f).lease? r.id = τ.lease? r.id) ∧
      (ends ≤ τ.now → (σ.step e).Along (Untried r.id ends) fs →
        ∀ f q, f.tries? = some q → q.id = r.id → τ.takes? f = some q) := by
  intro ends τ
  have hlease : (σ.step e).lease? r.id = some ⟨r.holder, ends⟩ := by
    rw [lease?_of_starts? hstart, if_pos rfl]
  refine ⟨fun hbefore => ?_, fun hafter huntried f q htries hid => ?_⟩
  · have hkept : τ.lease? r.id = some ⟨r.holder, ends⟩ :=
      lease?_run hlease hlatest hheld (untried_of_before hbefore)
    have hholder : τ.holder? r.id = some r.holder := LockTable.holder?_of_live hkept hbefore
    refine ⟨hkept, hholder, fun q hid hne => ?_, fun f hactor => ?_⟩
    · rw [← hid] at hholder ⊢
      exact tryLock_of_holder hholder (Ne.symm hne)
    · obtain ⟨hstarts, hdrops⟩ := idle_of_actor? hactor
      rw [hkept]
      exact lease?_step hkept hstarts hdrops fun hpast => absurd hpast (Nat.not_le_of_lt hbefore)
  · have hkept : τ.lease? r.id = some ⟨r.holder, ends⟩ :=
      lease?_run hlease hlatest hheld huntried
    refine takes?_of_open htries fun x hx => ?_
    have hnobody : τ.service.holder? τ.now r.id = none :=
      LockTable.holder?_of_expired hkept hafter
    rw [hid, hnobody] at hx
    cases hx

/-- A keeper sleeps for longer than its lease lasts, so another holder takes the
lock over. The first holder's keeper and guard do no harm afterwards; a third
holder is refused until the second lease ends, and then gets the lock. -/
theorem holders_undisturbed_takeover :
    let σ : State := State.run { service := { extension := some (.ofSecs 5) }, now := 0 }
      [.tryLock ⟨"k", "a", .ofSecs 1⟩, .wake 0, .pass (.ofSecs 2),
        .configure (.ofMillis 100) none]
    let r : LockRequest := ⟨"k", "b", .ofSecs 10⟩
    let fs : List Event := [.pass (.ofSecs 3), .wake 0, .dropGuard 0]
    let gs : List Event := fs ++ [.tryLock ⟨"k", "c", .ofSecs 1⟩, .pass (.ofSecs 7)]
    let τ := (σ.step (.tryLock r)).run fs
    let υ := (σ.step (.tryLock r)).run gs
    σ.starts? (.tryLock r) = some r ∧
      (σ.step (.tryLock r)).Along (fun τ f => τ.starts "k" "b" f = false) gs ∧
      (σ.step (.tryLock r)).Along (fun τ f => τ.drops "k" "b" f = false) gs ∧
      τ.holder? "k" = some "b" ∧ (τ.step (.wake 0)).lease? "k" = τ.lease? "k" ∧
      υ.takes? (.tryLock ⟨"k", "c", .ofSecs 1⟩) = some ⟨"k", "c", .ofSecs 1⟩ := by
  intro σ r fs gs τ υ
  have hstart : σ.starts? (.tryLock r) = some r := by decide +kernel
  have hlatest : (σ.step (.tryLock r)).Along (fun τ f => τ.starts "k" "b" f = false) gs := by
    decide +kernel
  have hheld : (σ.step (.tryLock r)).Along (fun τ f => τ.drops "k" "b" f = false) gs := by
    decide +kernel
  have hends : Instant.deadline σ.now r.ttl = 12 * Duration.perSecond := by decide +kernel
  have huntried : (σ.step (.tryLock r)).Along
      (Untried "k" (Instant.deadline σ.now r.ttl)) gs := by
    rw [hends]
    decide +kernel
  have hlatest' : (σ.step (.tryLock r)).Along (fun τ f => τ.starts "k" "b" f = false) fs :=
    (along_append.mp hlatest).1
  have hheld' : (σ.step (.tryLock r)).Along (fun τ f => τ.drops "k" "b" f = false) fs :=
    (along_append.mp hheld).1
  obtain ⟨hbefore, -⟩ := holders_undisturbed hstart hlatest' hheld'
  obtain ⟨-, hafter⟩ := holders_undisturbed hstart hlatest hheld
  obtain ⟨-, hholder, -, hothers⟩ := hbefore (by decide +kernel)
  exact ⟨hstart, hlatest, hheld, hholder, hothers (.wake 0) (by decide +kernel),
    hafter (by decide +kernel) huntried _ _ rfl rfl⟩

end State

end Leasing

end Fleet
