import Fleet.Proofs.Deadlines
import Fleet.Proofs.Lock.Exclusion
import Fleet.Proofs.Lock.Leases
import Mathlib.Data.List.Nodup

/-!
# What a guard is worth

A guard stands for a lock that was taken, and where extension is on, its keeper
extends the lease for as long as the guard is there. Leases are told apart by
lock and holder and not by guard, so a holder who takes the same lock again
shares the lease with the first guard.

* **staffing** — every lease in the table is live, and some running keeper of
  that lock and holder wakes before it ends (`LockService.Staffed`); every event
  keeps this if timers ring on time and leases outlast the interval
  (`staffed_step`);
* **guards** — so a guard's holder has the lock for as long as no guard of the
  same lock and holder is dropped, and no longer (`held_iff_no_guard_dropped`):
  the first of two such guards to be dropped ends the lease of both
  (`second_guard_is_void`);
* **ttls** — a ttl that is longer than the interval is a lease that outlasts it
  (`LockRequest.Exceeds.outlasts`), so such a ttl is all that is asked of a
  holder (`held_of_ample`).
-/

namespace Fleet

/-- A lease that starts now outlasts the interval of a keeper that goes to sleep
now, as the clock counts both. -/
def LockRequest.Outlasts (r : LockRequest) (every : Duration) (now : Instant) : Prop :=
  Instant.ceilMilli (Instant.deadline now every) < Instant.deadline now r.ttl

namespace LockRequest.Outlasts

variable {r : LockRequest} {every : Duration} {now : Instant}

theorem live (h : r.Outlasts every now) : now < Instant.deadline now r.ttl := by
  have hceil := Instant.le_ceilMilli (Instant.deadline now every)
  have hshort : Instant.deadline now every < Instant.horizon :=
    Nat.lt_of_le_of_lt hceil (Nat.lt_of_lt_of_le h (Instant.deadline_le_horizon now r.ttl))
  exact Nat.lt_of_le_of_lt (Nat.le_trans (Instant.le_deadline_of_lt hshort) hceil) h

end LockRequest.Outlasts

/-- A ttl is longer than the interval of a keeper that goes to sleep now, and the
timer rings when that is over. The clock can show the end of the ttl, or thirty
years from now are longer than the interval too. -/
structure LockRequest.Exceeds (r : LockRequest) (every : Duration) (now : Instant) : Prop where
  longer : every.nanos < r.ttl.nanos
  rings : Instant.ceilMilli (Instant.deadline now every) = now + every.nanos
  clock : now + Instant.farAhead.nanos ≤ Instant.horizon
  shown : every.nanos < Instant.farAhead.nanos ∨ now + r.ttl.nanos ≤ Instant.horizon

theorem LockRequest.Exceeds.outlasts {r : LockRequest} {every : Duration} {now : Instant}
    (h : r.Exceeds every now) : r.Outlasts every now := by
  unfold Outlasts
  rw [h.rings]
  exact Locking.State.lasts h.clock h.longer h.shown

/-- When a keeper will wake; one that has not started yet goes to sleep now. -/
def Keeper.wakes (k : Keeper) (now : Instant) : Instant :=
  k.alarm.elim (Instant.ceilMilli (Instant.deadline now k.every)) (·.due)

theorem Keeper.wakes_of_alarm {k : Keeper} {a : Alarm} (h : k.alarm = some a) (now : Instant) :
    k.wakes now = a.due := by
  unfold wakes
  rw [h, Option.elim_some]

theorem Keeper.wakes_of_none {k : Keeper} (h : k.alarm = none) (now : Instant) :
    k.wakes now = Instant.ceilMilli (Instant.deadline now k.every) := by
  unfold wakes
  rw [h, Option.elim_none]

/-- A keeper runs for a lease and wakes before it ends. -/
structure Keeper.Tends (k : Keeper) (now : Instant) (id : String) (l : Lease) : Prop where
  runs : k.stopped = false
  lock : k.request.id = id
  holder : k.request.holder = l.holder
  wakes : k.wakes now < l.expires

namespace LockService

/-- Every lease is live and has a keeper. -/
structure Staffed (L : LockService) (now : Instant) : Prop where
  numbered : L.Numbered
  -- no two keepers have one number, and a keeper wants what its guard wants
  distinct : (L.keepers.map (·.number)).Nodup
  paired : ∀ g ∈ L.guards, ∀ k ∈ L.keepers, k.number = g.number → k.request = g.request
  extension : L.extension.isSome
  live : ∀ id l, L.table.lease? id = some l → now < l.expires
  tended : ∀ id l, L.table.lease? id = some l → ∃ k ∈ L.keepers, k.Tends now id l

section
variable {L M : LockService} {now : Instant} {r : LockRequest} {n stamp : Nat}

theorem SameHoldings.staffed (h : SameHoldings L M) (hL : L.Staffed now) : M.Staffed now := by
  refine ⟨h.numbered hL.numbered, ?_, ?_, ?_, ?_, ?_⟩
  · rw [h.keepers]
    exact hL.distinct
  · rw [h.guards, h.keepers]
    exact hL.paired
  · rw [h.extension]
    exact hL.extension
  · rw [h.table]
    exact hL.live
  · rw [h.table, h.keepers]
    exact hL.tended

theorem Staffed.holder? (h : L.Staffed now) {id : String} {l : Lease}
    (hl : L.table.lease? id = some l) : L.holder? now id = some l.holder :=
  LockTable.holder?_of_live hl (h.live id l hl)

/-- Keepers keep their numbers when each is replaced by one of its number. -/
theorem map_number_map {f : Keeper → Keeper} (h : ∀ k, (f k).number = k.number)
    (ks : List Keeper) : (ks.map f).map Keeper.number = ks.map Keeper.number := by
  rw [List.map_map]
  exact List.map_congr_left fun k _ => h k

/-- Keepers of one number are one. -/
theorem Staffed.keeper_eq (h : L.Staffed now) {k q : Keeper} (hk : k ∈ L.keepers)
    (hq : q ∈ L.keepers) (hnumber : q.number = k.number) : q = k :=
  List.inj_on_of_nodup_map h.distinct hq hk hnumber

/-- A lease that outlasts the interval comes with a keeper of its own. -/
theorem Staffed.taken (h : L.Staffed now) (hlasts : ∀ every ∈ L.extension, r.Outlasts every now) :
    (L.taken now r).Staffed now := by
  obtain ⟨every, hevery⟩ := Option.isSome_iff_exists.mp h.extension
  have hlasts : r.Outlasts every now := hlasts every hevery
  let new : Keeper := ⟨L.nextNumber, r, every, none, false⟩
  have hkeepers : (L.taken now r).keepers = L.keepers ++ [new] := by
    show L.keepers ++ L.newKeepers r = _
    unfold newKeepers
    rw [hevery]
    rfl
  have hwakes : new.wakes now < Instant.deadline now r.ttl := by
    rw [new.wakes_of_none rfl]
    exact hlasts
  refine ⟨h.numbered.taken now r, ?_, ?_, h.extension, ?_, ?_⟩
  · rw [hkeepers, List.map_append, List.nodup_append]
    refine ⟨h.distinct, List.nodup_singleton _, ?_⟩
    intro m hm m' hm'
    obtain ⟨k, hk, rfl⟩ := List.mem_map.mp hm
    have hlt := h.numbered.keepers k hk
    rw [List.mem_singleton.mp hm']
    exact Nat.ne_of_lt hlt
  · rw [hkeepers]
    intro g hg k hk hnumber
    rcases List.mem_append.mp hg with hg | hg
    · rcases List.mem_append.mp hk with hk | hk
      · exact h.paired g hg k hk hnumber
      · obtain rfl := List.mem_singleton.mp hk
        exact absurd hnumber.symm (Nat.ne_of_lt (h.numbered.guards g hg))
    · obtain rfl := List.mem_singleton.mp hg
      rcases List.mem_append.mp hk with hk | hk
      · exact absurd hnumber (Nat.ne_of_lt (h.numbered.keepers k hk))
      · obtain rfl := List.mem_singleton.mp hk
        rfl
  · intro id l hl
    rcases LockTable.lease?_grant_cases hl with ⟨-, rfl⟩ | ⟨-, hold⟩
    · exact hlasts.live
    · exact h.live id l hold
  · rw [hkeepers]
    intro id l hl
    rcases LockTable.lease?_grant_cases hl with ⟨rfl, rfl⟩ | ⟨-, hold⟩
    · exact ⟨new, List.mem_append_right _ (List.mem_singleton_self new), rfl, rfl, rfl, hwakes⟩
    · obtain ⟨k, hk, htends⟩ := h.tended id l hold
      exact ⟨k, List.mem_append_left _ hk, htends⟩

/-- The lease whose keeper is stopped is ended too. -/
theorem Staffed.dropped (h : L.Staffed now) {g : Guard} (hg : g ∈ L.guards) :
    (L.dropped g).Staffed now := by
  refine ⟨h.numbered.dropped g, ?_, ?_, h.extension,
    fun id l hl => h.live id l (lease?_release hl).1, ?_⟩
  · have hsame : (L.dropped g).keepers.map (·.number) = L.keepers.map (·.number) := by
      refine map_number_map (fun k => ?_) L.keepers
      split <;> rfl
    rw [hsame]
    exact h.distinct
  · intro q hq k hk hnumber
    obtain ⟨p, hp, rfl⟩ := List.mem_map.mp hk
    have hsame := h.paired q (List.mem_filter.mp hq).1 p hp
    by_cases heq : p.number = g.number
    · rw [if_pos heq] at hnumber ⊢
      exact hsame hnumber
    · rw [if_neg heq] at hnumber ⊢
      exact hsame hnumber
  · intro id l hl
    obtain ⟨hlease, hnot⟩ := lease?_release hl
    obtain ⟨k, hk, htends⟩ := h.tended id l hlease
    have hother : k.number ≠ g.number := by
      intro hnumber
      have hrequest := h.paired g hg k hk hnumber
      exact hnot ⟨by rw [← htends.lock, hrequest], by rw [← htends.holder, hrequest]⟩
    refine ⟨k, List.mem_map.mpr ⟨k, hk, if_neg hother⟩, htends⟩

/-- A keeper goes to sleep, and the table it leaves has a keeper for every
lease: the one that sleeps now, or another one. -/
theorem Staffed.restKeeper (h : L.Staffed now) {k : Keeper} (hk : k ∈ L.keepers)
    (hruns : k.stopped = false) {T : LockTable}
    (hlive : ∀ id l, T.lease? id = some l → now < l.expires)
    (htended : ∀ id l, T.lease? id = some l →
      (k.request.id = id ∧ k.request.holder = l.holder ∧
        Instant.ceilMilli (Instant.deadline now k.every) < l.expires) ∨
      ∃ q ∈ L.keepers, q.number ≠ k.number ∧ q.Tends now id l) (stamp : Nat) :
    Staffed ({ L with table := T }.restKeeper k now stamp) now := by
  have hnumbered : Numbered { L with table := T } := ⟨h.numbered.guards, h.numbered.keepers⟩
  refine ⟨hnumbered.restKeeper hk, ?_, ?_, h.extension, hlive, ?_⟩
  · have hsame : ({ L with table := T }.restKeeper k now stamp).keepers.map Keeper.number =
        L.keepers.map Keeper.number := by
      refine map_number_map (fun q => ?_) L.keepers
      split
      · next hnumber => exact hnumber.symm
      · rfl
    rw [hsame]
    exact h.distinct
  · intro g hg q hq hnumber
    rcases mem_restKeeper hq with hq | rfl
    · exact h.paired g hg q hq hnumber
    · exact h.paired g hg k hk hnumber
  · intro id l hl
    rcases htended id l hl with ⟨hlock, hholder, hwakes⟩ | ⟨q, hq, hother, htends⟩
    · let slept : Keeper := { k with alarm := some (Alarm.after now k.every stamp) }
      have hslept : slept.wakes now < l.expires := by
        rw [slept.wakes_of_alarm rfl]
        exact hwakes
      exact ⟨slept, List.mem_map.mpr ⟨k, hk, if_pos rfl⟩, hruns, hlock, hholder, hslept⟩
    · exact ⟨q, List.mem_map.mpr ⟨q, hq, if_neg hother⟩, htends⟩

/-- A turn of a keeper leaves every lease with a keeper, if what it extends
outlasts its interval. -/
theorem Staffed.keeperStep (h : L.Staffed now) (hstep : L.KeeperStep n now stamp M)
    (hlasts : ∀ k ∈ L.keeper? n, k.request.Outlasts k.every now) : M.Staffed now := by
  cases hstep with
  | idle => exact h
  | @gone k hk hend =>
    obtain ⟨rfl, hmem⟩ := number_of_keeper? hk
    have hgone : L.KeeperStep k.number now stamp (L.dropKeeper k.number) := .gone hk hend
    refine ⟨h.numbered.keeperStep hgone,
      (List.filter_sublist.map fun q : Keeper => q.number).nodup h.distinct,
      fun g hg q hq => h.paired g hg q (List.mem_filter.mp hq).1, h.extension, h.live, ?_⟩
    intro id l hl
    obtain ⟨q, hq, htends⟩ := h.tended id l hl
    -- the keeper of a live lease does not leave
    have hother : q.number ≠ k.number := by
      intro hnumber
      obtain rfl := h.keeper_eq hmem hq hnumber
      rcases hend with hstopped | hlost
      · rw [htends.runs] at hstopped
        cases hstopped
      · rw [htends.lock, htends.holder] at hlost
        exact hlost (h.holder? hl)
    exact ⟨q, List.mem_filter.mpr ⟨hq, by simpa using hother⟩, htends⟩
  | @rests k hk hruns halarm =>
    have hmem := (number_of_keeper? hk).2
    refine h.restKeeper hmem hruns h.live (fun id l hl => ?_) stamp
    obtain ⟨q, hq, htends⟩ := h.tended id l hl
    by_cases hnumber : q.number = k.number
    · obtain rfl := h.keeper_eq hmem hq hnumber
      have hwakes := htends.wakes
      rw [q.wakes_of_none halarm] at hwakes
      exact Or.inl ⟨htends.lock, htends.holder, hwakes⟩
    · exact Or.inr ⟨q, hq, hnumber, htends⟩
  | @prolongs k hk hruns hheld =>
    have hmem := (number_of_keeper? hk).2
    have hlong : k.request.Outlasts k.every now := hlasts k hk
    refine h.restKeeper hmem hruns (fun id l hl => ?_) (fun id l hl => ?_) stamp
    · rcases LockTable.lease?_grant_cases hl with ⟨-, rfl⟩ | ⟨-, hold⟩
      · exact hlong.live
      · exact h.live id l hold
    · rcases LockTable.lease?_grant_cases hl with ⟨hid, rfl⟩ | ⟨hid, hold⟩
      · exact Or.inl ⟨hid.symm, rfl, hlong⟩
      · obtain ⟨q, hq, htends⟩ := h.tended id l hold
        refine Or.inr ⟨q, hq, ?_, htends⟩
        intro hnumber
        obtain rfl := h.keeper_eq hmem hq hnumber
        exact hid htends.lock.symm

/-- Time passes while no running keeper oversleeps. -/
theorem Staffed.pass (h : L.Staffed now) {later : Instant}
    (hawake : ∀ k ∈ L.keepers, k.stopped = false → k.alarm.any fun a => later ≤ a.due) :
    L.Staffed later := by
  have hrings : ∀ id l, L.table.lease? id = some l →
      ∃ k ∈ L.keepers, k.Tends later id l ∧ later < l.expires := by
    intro id l hl
    obtain ⟨k, hk, htends⟩ := h.tended id l hl
    obtain ⟨a, halarm, hdue⟩ := (Option.any_eq_true ..).mp (hawake k hk htends.runs)
    have hwakes := htends.wakes
    rw [k.wakes_of_alarm halarm] at hwakes
    refine ⟨k, hk, ⟨htends.runs, htends.lock, htends.holder, ?_⟩,
      Nat.lt_of_le_of_lt (of_decide_eq_true hdue) hwakes⟩
    rw [k.wakes_of_alarm halarm]
    exact hwakes
  refine ⟨h.numbered, h.distinct, h.paired, h.extension, fun id l hl => ?_, fun id l hl => ?_⟩
  · obtain ⟨k, -, -, hlive⟩ := hrings id l hl
    exact hlive
  · obtain ⟨k, hk, htends, -⟩ := hrings id l hl
    exact ⟨k, hk, htends⟩

end

end LockService

namespace Leasing.State

open LockService

/-! ## Runs in which timers ring on time -/

/-- Extension is on, every lease outlasts the interval of its keeper, and no
running keeper oversleeps. -/
def Timely (σ : State) : Event → Prop
  | .configure _ extension => extension.isSome
  | .tryLock r | .attempt _ r => ∀ every ∈ σ.service.extension, r.Outlasts every σ.now
  | .wake n => ∀ k ∈ σ.service.keeper? n, k.request.Outlasts k.every σ.now
  | .pass d => ∀ k ∈ σ.service.keepers, k.stopped = false →
      k.alarm.any fun a => σ.now + d.nanos ≤ a.due
  | .abandon _ | .dropGuard _ => True

instance (r : LockRequest) (every : Duration) (now : Instant) : Decidable (r.Outlasts every now) :=
  inferInstanceAs (Decidable (_ < _))

instance (σ : State) : (e : Event) → Decidable (σ.Timely e)
  | .configure _ extension => inferInstanceAs (Decidable (extension.isSome = true))
  | .tryLock r | .attempt _ r =>
    inferInstanceAs (Decidable (∀ every ∈ σ.service.extension, r.Outlasts every σ.now))
  | .wake n =>
    inferInstanceAs (Decidable (∀ k ∈ σ.service.keeper? n, k.request.Outlasts k.every σ.now))
  | .pass d =>
    inferInstanceAs (Decidable (∀ k ∈ σ.service.keepers, k.stopped = false →
      k.alarm.any fun a => σ.now + d.nanos ≤ a.due))
  | .abandon _ | .dropGuard _ => isTrue trivial

/-- The same, where every lease is asked for longer than the interval of its
keeper. -/
def Ample (σ : State) : Event → Prop
  | .tryLock r | .attempt _ r => ∀ every ∈ σ.service.extension, r.Exceeds every σ.now
  | .wake n => ∀ k ∈ σ.service.keeper? n, k.request.Exceeds k.every σ.now
  | .configure retry extension => σ.Timely (.configure retry extension)
  | .pass d => σ.Timely (.pass d)
  | .abandon _ | .dropGuard _ => True

/-- A handle that extends leases, on a table on which nothing has happened. -/
def initial (retry every : Duration) (now : Instant) : State :=
  { service := { retry, extension := some every }, now }

/-- A holder has a lock, and everybody else who tries to take it is told so. -/
structure Held (σ : State) (id name : String) : Prop where
  holder : σ.holder? id = some name
  conflict : ∀ q : LockRequest, q.id = id → q.holder ≠ name →
    σ.service.tryLock σ.now q = (σ.service, .error (.conflict id name))

section
variable {σ : State} {e : Event} {id holder : String} {r : LockRequest}

theorem staffed_initial (retry every : Duration) (now : Instant) :
    (initial retry every now).service.Staffed now where
  numbered := ⟨fun g hg => absurd hg List.not_mem_nil, fun k hk => absurd hk List.not_mem_nil⟩
  distinct := List.nodup_nil
  paired := fun g hg => absurd hg List.not_mem_nil
  extension := rfl
  live := fun id l hl => by cases hl
  tended := fun id l hl => by cases hl

/-- Every timely event keeps all leases live and tended. -/
theorem staffed_step (h : σ.service.Staffed σ.now) (htimely : σ.Timely e) :
    (σ.step e).service.Staffed (σ.step e).now := by
  cases e with
  | configure retry extension =>
    exact ⟨⟨h.numbered.guards, h.numbered.keepers⟩, h.distinct, h.paired, htimely, h.live,
      h.tended⟩
  | tryLock q =>
    cases htakes : σ.takes? (.tryLock q) with
    | some r =>
      obtain ⟨htries, -, hsame⟩ := taken_of_takes? htakes
      obtain rfl : q = r := Option.some.inj htries
      exact hsame.staffed (h.taken htimely)
    | none => exact (same_of_refused (e := .tryLock q) rfl htakes).staffed h
  | attempt owner q =>
    cases htakes : σ.takes? (.attempt owner q) with
    | some r =>
      obtain ⟨htries, -, hsame⟩ := taken_of_takes? htakes
      obtain rfl : q = r := Option.some.inj htries
      exact hsame.staffed (h.taken htimely)
    | none => exact (same_of_refused (e := .attempt owner q) rfl htakes).staffed h
  | abandon owner => exact (sameHoldings_abandon σ.service owner).staffed h
  | dropGuard n =>
    show (σ.service.dropGuard n).1.Staffed σ.now
    cases hg : σ.service.guard? n with
    | none =>
      rw [dropGuard_of_none hg]
      exact h
    | some g => exact (dropGuard_of_guard hg).staffed (h.dropped (number_of_guard? hg).2)
  | wake n => exact h.keeperStep (σ.service.keeperStep n σ.now σ.stamp) htimely
  | pass d => exact h.pass htimely

theorem Ample.timely (h : σ.Ample e) : σ.Timely e := by
  cases e with
  | tryLock r | attempt owner r => exact fun every hevery => (h every hevery).outlasts
  | wake n => exact fun k hk => (h k hk).outlasts
  | configure | pass | abandon | dropGuard => exact h

theorem staffed_run {es : List Event} (h : σ.service.Staffed σ.now)
    (htimely : σ.Along Timely es) : (σ.run es).service.Staffed (σ.run es).now := by
  induction es generalizing σ with
  | nil => exact h
  | cons e rest ih => exact ih (staffed_step h htimely.1) htimely.2

/-! ## Guards of one lock and holder -/

variable {name : String} {l : Lease}

theorem held_of_lease (h : σ.service.Staffed σ.now) (hl : σ.lease? id = some l) :
    σ.Held id l.holder := by
  have hholder : σ.holder? id = some l.holder := h.holder? hl
  refine ⟨hholder, fun q hid hne => ?_⟩
  rw [← hid] at hholder ⊢
  exact tryLock_of_holder hholder (Ne.symm hne)

/-- A holder keeps a lock at every event that drops no guard of it. -/
theorem lease_holder_step (h : σ.service.Staffed σ.now) (hl : σ.lease? id = some l)
    (hdrops : σ.drops id l.holder e = false) :
    ∃ m, (σ.step e).lease? id = some m ∧ m.holder = l.holder := by
  cases hstarts : σ.starts id l.holder e with
  | false =>
    have hlive : ¬l.expires ≤ σ.now := Nat.not_le_of_lt (h.live id l hl)
    exact ⟨l, lease?_step hl hstarts hdrops fun hpast => absurd hpast hlive, rfl⟩
  | true =>
    obtain ⟨r, hr, rfl, hholder⟩ := starts_eq_true.mp hstarts
    exact ⟨_, (lease?_of_starts? hr r.id).trans (if_pos rfl), hholder⟩

theorem lease_holder_run {es : List Event} (h : σ.service.Staffed σ.now)
    (htimely : σ.Along Timely es) (hl : σ.lease? id = some l)
    (hdrops : σ.Along (fun τ f => τ.drops id l.holder f = false) es) :
    ∃ m, (σ.run es).lease? id = some m ∧ m.holder = l.holder := by
  induction es generalizing σ l with
  | nil => exact ⟨l, hl, rfl⟩
  | cons e rest ih =>
    obtain ⟨m, hm, hsame⟩ := lease_holder_step h hl hdrops.1
    obtain ⟨o, ho, hrest⟩ := ih (staffed_step h htimely.1) htimely.2 hm (by
      rw [hsame]
      exact hdrops.2)
    exact ⟨o, ho, hrest.trans hsame⟩

theorem held_of_not_drops {es : List Event} (h : σ.service.Staffed σ.now)
    (htimely : σ.Along Timely es) (hl : σ.lease? id = some l)
    (hdrops : σ.Along (fun τ f => τ.drops id l.holder f = false) es) :
    (σ.run es).Held id l.holder := by
  obtain ⟨m, hm, hsame⟩ := lease_holder_run h htimely hl hdrops
  rw [← hsame]
  exact held_of_lease (staffed_run h htimely) hm

/-- Whoever takes a lock has a lease on it, and every lease is tended. -/
theorem staffed_of_takes? {retry every : Duration} {now : Instant} {es fs : List Event}
    (hrun : (initial retry every now).Along Timely (es ++ e :: fs))
    (htakes : ((initial retry every now).run es).takes? e = some r) :
    let σ := ((initial retry every now).run es).step e
    σ.service.Staffed σ.now ∧ (∃ expires, σ.lease? r.id = some ⟨r.holder, expires⟩) ∧
      σ.Along Timely fs := by
  obtain ⟨hes, he, hfs⟩ := along_append.mp hrun
  exact ⟨staffed_step (staffed_run (staffed_initial retry every now) hes) he,
    ⟨_, (lease?_of_starts? (starts?_of_takes? htakes) r.id).trans (if_pos rfl)⟩, hfs⟩

/-- Whoever drops a guard of a lock has the lock no more, whether or not there
is another guard. -/
theorem holder?_of_drops (h : σ.drops id name e = true) : (σ.step e).holder? id ≠ some name := by
  obtain ⟨g, hg, rfl, rfl⟩ := drops_eq_true.mp h
  intro hholder
  obtain ⟨l, hlive, hname⟩ := Option.map_eq_some_iff.mp hholder
  have hl : (σ.step e).lease? g.request.id = some l := (Option.filter_eq_some_iff.mp hlive).1
  rw [lease?_of_drops? hg, if_pos rfl] at hl
  have hother := (Option.filter_eq_some_iff.mp hl).2
  exact absurd hname (of_decide_eq_true hother)

/-- A lock that is held throughout loses no guard of its holder. -/
theorem not_drops_of_held {es : List Event}
    (h : ∀ gs, gs <+: es → (σ.run gs).holder? id = some name) :
    σ.Along (fun τ f => τ.drops id name f = false) es := by
  induction es generalizing σ with
  | nil => trivial
  | cons e rest ih =>
    refine ⟨Bool.eq_false_iff.mpr fun hdrops => ?_,
      ih fun gs hgs => h (e :: gs) (List.cons_prefix_cons.mpr ⟨rfl, hgs⟩)⟩
    exact holder?_of_drops hdrops (h [e] (List.prefix_append [e] rest))

theorem along_of_isPrefix {P : State → Event → Prop} {es gs : List Event} (h : σ.Along P es)
    (hgs : gs <+: es) : σ.Along P gs := by
  obtain ⟨hs, rfl⟩ := hgs
  exact (along_append.mp h).1

end

/-- **What a guard is worth.** In a run in which timers ring on time and leases
outlast the interval, whoever takes a lock has it throughout, and everybody else
is refused, exactly if no guard of that lock and holder is dropped: neither the
one that was got nor another one. -/
theorem held_iff_no_guard_dropped {retry every : Duration} {now : Instant} {es fs : List Event}
    {e : Event} {r : LockRequest} (hrun : (initial retry every now).Along Timely (es ++ e :: fs))
    (htakes : ((initial retry every now).run es).takes? e = some r) :
    let σ := ((initial retry every now).run es).step e
    (∀ gs, gs <+: fs → (σ.run gs).Held r.id r.holder) ↔
      σ.Along (fun τ f => τ.drops r.id r.holder f = false) fs := by
  intro σ
  obtain ⟨hstaffed, ⟨expires, hlease⟩, hfs⟩ := staffed_of_takes? hrun htakes
  exact ⟨fun hheld => not_drops_of_held fun gs hgs => (hheld gs hgs).holder,
    fun hdrops gs hgs => held_of_not_drops hstaffed (along_of_isPrefix hfs hgs) hlease
      (along_of_isPrefix hdrops hgs)⟩

/-- A holder takes a lock twice, for different times, and keeps it for longer
than either while another lock is given back. -/
theorem held_iff_no_guard_dropped_twice :
    let σ₀ := initial (.ofMillis 100) (.ofSecs 1) 0
    let es : List Event := [.tryLock ⟨"j", "b", .ofSecs 5⟩, .wake 0]
    let fs : List Event :=
      [.wake 1, .tryLock ⟨"k", "a", .ofMillis 1500⟩, .wake 2, .pass (.ofSecs 1), .wake 0, .wake 1,
        .wake 2, .pass (.ofMillis 900), .dropGuard 0, .pass (.ofMillis 100), .wake 2, .wake 1,
        .pass (.ofSecs 1)]
    let σ := (σ₀.run es).step (.tryLock ⟨"k", "a", .ofSecs 2⟩)
    σ₀.Along Timely (es ++ .tryLock ⟨"k", "a", .ofSecs 2⟩ :: fs) ∧
      (σ₀.run es).takes? (.tryLock ⟨"k", "a", .ofSecs 2⟩) = some ⟨"k", "a", .ofSecs 2⟩ ∧
      (σ.run fs).Held "k" "a" := by
  intro σ₀ es fs σ
  have hrun : σ₀.Along Timely (es ++ .tryLock ⟨"k", "a", .ofSecs 2⟩ :: fs) := by decide +kernel
  have htakes : (σ₀.run es).takes? (.tryLock ⟨"k", "a", .ofSecs 2⟩) =
      some ⟨"k", "a", .ofSecs 2⟩ := by decide +kernel
  have hdrops : σ.Along (fun τ f => τ.drops "k" "a" f = false) fs := by decide +kernel
  exact ⟨hrun, htakes,
    (held_iff_no_guard_dropped hrun htakes).mpr hdrops fs (List.prefix_refl fs)⟩

/-- So a ttl that is longer than the interval is long enough: whoever takes a lock
still has it after any run in which no guard of that lock and holder is dropped. -/
theorem held_of_ample {retry every : Duration} {now : Instant} {es fs : List Event} {e : Event}
    {r : LockRequest} (hrun : (initial retry every now).Along Ample (es ++ e :: fs))
    (htakes : ((initial retry every now).run es).takes? e = some r)
    (hdrops : (((initial retry every now).run es).step e).Along
      (fun τ f => τ.drops r.id r.holder f = false) fs) :
    ((((initial retry every now).run es).step e).run fs).Held r.id r.holder := by
  have htimely := along_mono (fun _ _ hample => hample.timely) hrun
  obtain ⟨hstaffed, ⟨expires, hlease⟩, hfs⟩ := staffed_of_takes? htimely htakes
  exact held_of_not_drops hstaffed hfs hlease hdrops

/-- A holder takes a lock twice and drops the first guard. Nobody has the lock
then, and another holder gets it, although the second guard is still there. -/
theorem second_guard_is_void :
    let σ₀ := initial (.ofMillis 100) (.ofSecs 1) 0
    let r : LockRequest := ⟨"k", "a", .ofSecs 30⟩
    let es : List Event := [.tryLock r, .tryLock r, .dropGuard 0]
    let σ := σ₀.run es
    (Duration.ofSecs 1).nanos < r.ttl.nanos ∧ σ₀.Along Timely es ∧
      σ.service.guard? 1 = some ⟨1, r⟩ ∧ σ.holder? "k" = none ∧
      σ.takes? (.tryLock ⟨"k", "b", .ofSecs 30⟩) = some ⟨"k", "b", .ofSecs 30⟩ := by
  decide +kernel

end Leasing.State

end Fleet
