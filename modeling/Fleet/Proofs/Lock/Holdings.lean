import Fleet.Lock.LockedCall
import Fleet.Proofs.Registry

/-!
# Holdings of a lock service

What a lock service holds for somebody are leases, guards and running keepers.
Two facts are followed through everything that a service does:

* **confinement** — all that is held under a name is the lease on one lock, with
  the guard and the keeper of one number, or nothing at all (`Confined`);
* **keeping** — a lease is kept: it has not expired, and its keeper will wake
  before it does (`Kept`).

Nobody else's doing touches a kept lease: whoever wants the lock finds it taken,
and dropping another guard or waking another keeper is about other leases.
-/

namespace Fleet

/-! ## Lists with a key -/

section
variable {α : Type} (key : α → Nat)

theorem find?_filter_key (xs : List α) (n m : Nat) :
    (xs.filter fun x => key x ≠ n).find? (fun x => key x == m) =
      if m = n then none else xs.find? fun x => key x == m := by
  rw [List.find?_filter]
  split
  · next heq =>
    rw [List.find?_eq_none]
    intro x _
    simp [heq]
  · next hne =>
    congr 1
    funext x
    by_cases hx : key x = m <;> simp [hx, hne]

theorem find?_map_key {f : α → α} (hf : ∀ x, key (f x) = key x) (xs : List α) (n : Nat) :
    (xs.map f).find? (fun x => key x == n) = (xs.find? fun x => key x == n).map f := by
  rw [List.find?_map]
  congr 2
  funext x
  simp [hf]

end

namespace LockService

/-! ## What the operations do -/

/-- The service after a lock was leased. -/
def taken (L : LockService) (now : Instant) (r : LockRequest) : LockService :=
  { L with table := L.table.grant now r, guards := L.guards ++ [⟨L.nextNumber, r⟩],
           keepers := L.keepers ++ L.newKeepers r, nextNumber := L.nextNumber + 1 }

/-- The service after a guard was dropped, before anybody was told. -/
def dropped (L : LockService) (g : Guard) : LockService :=
  { L with table := (L.table.release g.request.id g.request.holder).1,
           guards := L.guards.filter fun q => q.number ≠ g.number,
           keepers := L.keepers.map fun k =>
             if k.number = g.number then { k with stopped := true } else k }

/-- Two services that hold the same; their lines of waiters may differ. -/
structure SameHoldings (L M : LockService) : Prop where
  table : M.table = L.table
  guards : M.guards = L.guards
  keepers : M.keepers = L.keepers
  nextNumber : M.nextNumber = L.nextNumber
  extension : M.extension = L.extension

theorem SameHoldings.refl (L : LockService) : SameHoldings L L := ⟨rfl, rfl, rfl, rfl, rfl⟩

theorem sameHoldings_abandon (L : LockService) (owner : Nat) : SameHoldings L (L.abandon owner) :=
  ⟨rfl, rfl, rfl, rfl, rfl⟩

/-- The lock is free to be taken by a holder: nobody has it, or that holder. -/
def Open (L : LockService) (now : Instant) (r : LockRequest) : Prop :=
  ∀ x, L.holder? now r.id = some x → x = r.holder

theorem tryLock_of_open {L : LockService} {now : Instant} {r : LockRequest} (h : L.Open now r) :
    L.tryLock now r = (L.taken now r, .ok L.nextNumber) := by
  have htable : L.table.tryLock now r = .ok (L.table.grant now r) := by
    unfold LockTable.tryLock
    split
    · next x hx => rw [if_pos (h x hx)]
    · rfl
  unfold tryLock
  rw [htable]
  rfl

theorem tryLock_of_holder {L : LockService} {now : Instant} {r : LockRequest} {x : String}
    (h : L.holder? now r.id = some x) (hne : x ≠ r.holder) :
    L.tryLock now r = (L, .error (.conflict r.id x)) := by
  have hholder : L.table.holder? now r.id = some x := h
  have htable : L.table.tryLock now r = .error (.conflict r.id x) := by
    simp [LockTable.tryLock, hholder, hne]
  unfold tryLock
  rw [htable]

theorem open_or_conflict (L : LockService) (now : Instant) (r : LockRequest) :
    L.Open now r ∨ ∃ x, L.holder? now r.id = some x ∧ x ≠ r.holder := by
  by_cases h : L.Open now r
  · exact .inl h
  · simp only [Open, Classical.not_forall] at h
    obtain ⟨x, hx, hne⟩ := h
    exact .inr ⟨x, hx, hne⟩

/-- An attempt takes the lock if it is open, and else changes nothing that is
held. -/
theorem attempt_cases (L : LockService) (owner : Nat) (r : LockRequest) (now : Instant)
    (stamp : Nat) :
    (L.Open now r ∧ SameHoldings (L.taken now r) (L.attempt owner r now stamp).1 ∧
      (L.attempt owner r now stamp).2 = some L.nextNumber) ∨
    (SameHoldings L (L.attempt owner r now stamp).1 ∧ (L.attempt owner r now stamp).2 = none) := by
  unfold attempt
  rcases (L.abandon owner).open_or_conflict now r with hopen | ⟨x, hx, hne⟩
  · rw [tryLock_of_open hopen]
    exact .inl ⟨hopen, ⟨rfl, rfl, rfl, rfl, rfl⟩, rfl⟩
  · rw [tryLock_of_holder hx hne]
    exact .inr ⟨⟨rfl, rfl, rfl, rfl, rfl⟩, rfl⟩

theorem number_of_guard? {L : LockService} {n : Nat} {g : Guard} (h : L.guard? n = some g) :
    g.number = n ∧ g ∈ L.guards := by
  have hnumber := List.find?_some h
  exact ⟨by simpa using hnumber, List.mem_of_find?_eq_some h⟩

theorem number_of_keeper? {L : LockService} {n : Nat} {k : Keeper} (h : L.keeper? n = some k) :
    k.number = n ∧ k ∈ L.keepers := by
  have hnumber := List.find?_some h
  exact ⟨by simpa using hnumber, List.mem_of_find?_eq_some h⟩

theorem dropGuard_of_guard {L : LockService} {n : Nat} {g : Guard} (h : L.guard? n = some g) :
    SameHoldings (L.dropped g) (L.dropGuard n).1 := by
  obtain ⟨rfl, -⟩ := number_of_guard? h
  unfold dropGuard
  rw [h]
  dsimp only
  split
  · exact ⟨rfl, rfl, rfl, rfl, rfl⟩
  · exact ⟨rfl, rfl, rfl, rfl, rfl⟩

theorem dropGuard_of_none {L : LockService} {n : Nat} (h : L.guard? n = none) :
    L.dropGuard n = (L, []) := by
  unfold dropGuard
  rw [h]

/-- What a turn of the keeper of a guard can come to. -/
inductive KeeperStep (L : LockService) (n : Nat) (now : Instant) (stamp : Nat) :
    LockService → Prop
  | idle : KeeperStep L n now stamp L
  | gone {k} (hk : L.keeper? n = some k)
      (h : k.stopped = true ∨ L.holder? now k.request.id ≠ some k.request.holder) :
      KeeperStep L n now stamp (L.dropKeeper n)
  | rests {k} (hk : L.keeper? n = some k) (hruns : k.stopped = false) (halarm : k.alarm = none) :
      KeeperStep L n now stamp (L.restKeeper k now stamp)
  | prolongs {k} (hk : L.keeper? n = some k) (hruns : k.stopped = false)
      (hheld : L.holder? now k.request.id = some k.request.holder) :
      KeeperStep L n now stamp
        ({ L with table := L.table.grant now k.request }.restKeeper k now stamp)

theorem keeperStep (L : LockService) (n : Nat) (now : Instant) (stamp : Nat) :
    KeeperStep L n now stamp (L.keeperTurn n now stamp) := by
  unfold keeperTurn
  cases hk : L.keeper? n with
  | none => exact .idle
  | some k =>
    cases hstopped : k.stopped with
    | true => simpa [hstopped] using KeeperStep.gone hk (.inl hstopped)
    | false =>
      cases halarm : k.alarm with
      | none => simpa [hstopped, halarm] using KeeperStep.rests hk hstopped halarm
      | some a =>
        simp only [hstopped, halarm, Bool.false_eq_true, if_false]
        split
        · by_cases hheld : L.table.holder? now k.request.id = some k.request.holder
          · simpa [LockTable.extend, hheld] using KeeperStep.prolongs hk hstopped hheld
          · simpa [LockTable.extend, hheld] using KeeperStep.gone hk (.inr hheld)
        · exact .idle

/-! ## Confinement -/

/-- The numbers of guards and keepers are below the next one. -/
structure Numbered (L : LockService) : Prop where
  guards : ∀ g ∈ L.guards, g.number < L.nextNumber
  keepers : ∀ k ∈ L.keepers, k.number < L.nextNumber

/-- All that is held under a name is the lease on one lock, with the guard and
the keeper of one number; or nothing. -/
structure Confined (L : LockService) (holder : String) (place : Option (String × Nat)) : Prop where
  leases : ∀ id l, L.table.lease? id = some l → l.holder = holder → ∃ n, place = some (id, n)
  guards : ∀ g ∈ L.guards, g.request.holder = holder → ∃ id, place = some (id, g.number)
  keepers : ∀ k ∈ L.keepers, k.stopped = false → k.request.holder = holder →
    ∃ id, place = some (id, k.number)

section

variable {L M : LockService} {now : Instant} {r : LockRequest} {holder : String}
  {place : Option (String × Nat)} {n stamp : Nat}

theorem SameHoldings.numbered (h : SameHoldings L M) (hL : L.Numbered) : M.Numbered :=
  ⟨by rw [h.guards, h.nextNumber]; exact hL.guards,
    by rw [h.keepers, h.nextNumber]; exact hL.keepers⟩

theorem SameHoldings.confined (h : SameHoldings L M) (hL : L.Confined holder place) :
    M.Confined holder place :=
  ⟨by rw [h.table]; exact hL.leases, by rw [h.guards]; exact hL.guards,
    by rw [h.keepers]; exact hL.keepers⟩

theorem mem_newKeepers {k : Keeper} (h : k ∈ L.newKeepers r) :
    k.number = L.nextNumber ∧ k.request = r := by
  simp only [newKeepers, List.mem_map] at h
  obtain ⟨every, -, rfl⟩ := h
  exact ⟨rfl, rfl⟩

theorem Numbered.taken (h : L.Numbered) (now : Instant) (r : LockRequest) :
    (L.taken now r).Numbered := by
  refine ⟨fun g hg => ?_, fun k hk => ?_⟩
  · rcases List.mem_append.mp hg with hg | hg
    · exact Nat.lt_succ_of_lt (h.guards g hg)
    · obtain rfl := List.mem_singleton.mp hg
      exact Nat.lt_succ_self _
  · rcases List.mem_append.mp hk with hk | hk
    · exact Nat.lt_succ_of_lt (h.keepers k hk)
    · rw [(mem_newKeepers hk).1]
      exact Nat.lt_succ_self _

theorem Numbered.dropped (h : L.Numbered) (g : Guard) : (L.dropped g).Numbered := by
  refine ⟨fun q hq => h.guards q (List.mem_filter.mp hq).1, fun k hk => ?_⟩
  obtain ⟨q, hq, rfl⟩ := List.mem_map.mp hk
  have := h.keepers q hq
  split <;> exact this

theorem mem_restKeeper {k q : Keeper} (h : q ∈ (L.restKeeper k now stamp).keepers) :
    q ∈ L.keepers ∨ q = { k with alarm := some (Alarm.after now k.every stamp) } := by
  obtain ⟨q', hq', rfl⟩ := List.mem_map.mp h
  split
  · exact .inr rfl
  · exact .inl hq'

theorem Numbered.restKeeper (h : L.Numbered) {k : Keeper} (hk : k ∈ L.keepers) :
    (L.restKeeper k now stamp).Numbered := by
  refine ⟨h.guards, fun q hq => ?_⟩
  rcases mem_restKeeper hq with hq | rfl
  · exact h.keepers q hq
  · exact h.keepers k hk

theorem Numbered.keeperStep (h : L.Numbered) (hstep : L.KeeperStep n now stamp M) :
    M.Numbered := by
  cases hstep with
  | idle => exact h
  | gone hk _ => exact ⟨h.guards, fun q hq => h.keepers q (List.mem_filter.mp hq).1⟩
  | rests hk => exact h.restKeeper (number_of_keeper? hk).2
  | @prolongs k hk =>
    have hgrant : Numbered { L with table := L.table.grant now k.request } := ⟨h.guards, h.keepers⟩
    exact hgrant.restKeeper (number_of_keeper? hk).2

theorem KeeperStep.extension (hstep : L.KeeperStep n now stamp M) : M.extension = L.extension := by
  cases hstep <;> rfl

/-- Somebody else takes a lock. -/
theorem Confined.taken (h : L.Confined holder place) (hne : r.holder ≠ holder) :
    (L.taken now r).Confined holder place := by
  refine ⟨fun id l hl hholder => ?_, fun g hg hholder => ?_, fun k hk hruns hholder => ?_⟩
  · by_cases hid : id = r.id
    · subst hid
      obtain rfl := Option.some.inj ((L.table.lease?_grant_self now r).symm.trans hl)
      exact absurd hholder hne
    · exact h.leases id l ((L.table.lease?_grant_of_ne now hid).symm.trans hl) hholder
  · rcases List.mem_append.mp hg with hg | hg
    · exact h.guards g hg hholder
    · obtain rfl := List.mem_singleton.mp hg
      exact absurd hholder hne
  · rcases List.mem_append.mp hk with hk | hk
    · exact h.keepers k hk hruns hholder
    · rw [(mem_newKeepers hk).2] at hholder
      exact absurd hholder hne

/-- Somebody who holds nothing takes a lock. -/
theorem Confined.taken_self (h : L.Confined r.holder none) :
    (L.taken now r).Confined r.holder (some (r.id, L.nextNumber)) := by
  refine ⟨fun id l hl hholder => ?_, fun g hg hholder => ?_, fun k hk hruns hholder => ?_⟩
  · by_cases hid : id = r.id
    · exact ⟨L.nextNumber, by rw [hid]⟩
    · have := h.leases id l ((L.table.lease?_grant_of_ne now hid).symm.trans hl) hholder
      simp at this
  · rcases List.mem_append.mp hg with hg | hg
    · simpa using h.guards g hg hholder
    · obtain rfl := List.mem_singleton.mp hg
      exact ⟨r.id, rfl⟩
  · rcases List.mem_append.mp hk with hk | hk
    · simpa using h.keepers k hk hruns hholder
    · exact ⟨r.id, by rw [(mem_newKeepers hk).1]⟩

theorem lease?_release {T : LockTable} {id other : String} {l : Lease}
    (h : (T.release id holder).1.lease? other = some l) :
    T.lease? other = some l ∧ ¬(other = id ∧ l.holder = holder) := by
  by_cases hid : other = id
  · subst hid
    unfold LockTable.release at h
    split at h
    · next q hq =>
      split at h
      · simp [LockTable.lease?] at h
      · next hne =>
        rw [hq] at h
        obtain rfl := Option.some.inj h
        exact ⟨hq, fun hboth => hne hboth.2⟩
    · next hnone => simp [hnone] at h
  · rw [LockTable.lease?_release_of_ne T holder hid] at h
    exact ⟨h, fun hboth => hid hboth.1⟩

/-- Dropping a guard takes away and adds nothing. -/
theorem Confined.dropped (h : L.Confined holder place) (g : Guard) :
    (L.dropped g).Confined holder place := by
  refine ⟨fun id l hl => h.leases id l (lease?_release hl).1,
    fun q hq => h.guards q (List.mem_filter.mp hq).1, fun k hk hruns hholder => ?_⟩
  obtain ⟨q, hq, rfl⟩ := List.mem_map.mp hk
  split at hruns
  · cases hruns
  · next hne =>
    rw [if_neg hne] at hholder ⊢
    exact h.keepers q hq hruns hholder

/-- Who drops the only guard holds nothing after it. -/
theorem Confined.dropped_self (h : L.Confined r.holder (some (r.id, n))) :
    (L.dropped ⟨n, r⟩).Confined r.holder none := by
  refine ⟨fun id l hl hholder => ?_, fun q hq hholder => ?_, fun k hk hruns hholder => ?_⟩
  · obtain ⟨hlease, hnot⟩ := lease?_release hl
    obtain ⟨m, hm⟩ := h.leases id l hlease hholder
    exact absurd ⟨by simp_all, hholder⟩ hnot
  · obtain ⟨hq, hne⟩ := List.mem_filter.mp hq
    obtain ⟨id, hm⟩ := h.guards q hq hholder
    simp_all
  · obtain ⟨q, hq, rfl⟩ := List.mem_map.mp hk
    split at hruns
    · cases hruns
    · next hne =>
      rw [if_neg hne] at hholder
      obtain ⟨id, hm⟩ := h.keepers q hq hruns hholder
      simp_all

theorem Confined.restKeeper (h : L.Confined holder place) {k : Keeper} (hk : k ∈ L.keepers) :
    (L.restKeeper k now stamp).Confined holder place := by
  refine ⟨h.leases, h.guards, fun q hq hruns hholder => ?_⟩
  rcases mem_restKeeper hq with hq | rfl
  · exact h.keepers q hq hruns hholder
  · exact h.keepers k hk hruns hholder

/-- A keeper prolongs only what is held already. -/
theorem Confined.keeperStep (h : L.Confined holder place) (hstep : L.KeeperStep n now stamp M)
    (hown : ∀ k, L.keeper? n = some k → k.stopped = false → k.request.holder = holder →
      place = some (k.request.id, n)) : M.Confined holder place := by
  cases hstep with
  | idle => exact h
  | gone hk _ =>
    exact ⟨h.leases, h.guards, fun q hq => h.keepers q (List.mem_filter.mp hq).1⟩
  | rests hk => exact h.restKeeper (number_of_keeper? hk).2
  | @prolongs k hk hruns hheld =>
    have hgrant : Confined { L with table := L.table.grant now k.request } holder place := by
      refine ⟨fun id l hl hholder => ?_, h.guards, h.keepers⟩
      by_cases hid : id = k.request.id
      · subst hid
        obtain rfl := Option.some.inj ((L.table.lease?_grant_self now k.request).symm.trans hl)
        exact ⟨n, hown k hk hruns hholder⟩
      · exact h.leases id l ((L.table.lease?_grant_of_ne now hid).symm.trans hl) hholder
    exact hgrant.restKeeper (number_of_keeper? hk).2

/-! ## Kept leases -/

/-- A lease is kept at an instant: it has not expired, its guard is there, and
its keeper runs and wakes before it expires. A keeper that has not started yet
will wake an interval from now. -/
structure Kept (L : LockService) (every : Duration) (now : Instant) (r : LockRequest) (n : Nat)
    (expires : Instant) (alarm : Option Alarm) : Prop where
  guard : L.guard? n = some ⟨n, r⟩
  lease : L.table.lease? r.id = some ⟨r.holder, expires⟩
  keeper : L.keeper? n = some ⟨n, r, every, alarm, false⟩
  wakes : alarm.elim (now + every.nanos) (·.due) < expires
  live : now < expires

variable {every : Duration} {expires : Instant} {alarm : Option Alarm} {q : LockRequest}

theorem SameHoldings.kept (h : SameHoldings L M) (hL : L.Kept every now r n expires alarm) :
    M.Kept every now r n expires alarm :=
  ⟨by rw [guard?, h.guards]; exact hL.guard, by rw [h.table]; exact hL.lease,
    by rw [keeper?, h.keepers]; exact hL.keeper, hL.wakes, hL.live⟩

theorem Kept.holder? (h : L.Kept every now r n expires alarm) :
    L.holder? now r.id = some r.holder := by
  unfold LockService.holder? LockTable.holder?
  rw [h.lease]
  simp [Option.filter, Lease.isLive, h.live]

/-- While a lease is kept, nobody else takes the lock. -/
theorem Kept.tryLock (h : L.Kept every now r n expires alarm) (hid : q.id = r.id)
    (hne : q.holder ≠ r.holder) :
    L.tryLock now q = (L, .error (.conflict q.id r.holder)) :=
  tryLock_of_holder (by rw [hid]; exact h.holder?) hne.symm

theorem Kept.id_ne_of_open (h : L.Kept every now r n expires alarm) (hopen : L.Open now q)
    (hne : q.holder ≠ r.holder) : q.id ≠ r.id := by
  intro hid
  have := hopen r.holder (by rw [hid]; exact h.holder?)
  exact hne this.symm

/-- A new lease is kept if it outlasts the interval of its keeper. -/
theorem kept_taken (hL : L.Numbered) (hext : L.extension = some every)
    (hlasts : now + every.nanos < Instant.deadline now r.ttl) :
    (L.taken now r).Kept every now r L.nextNumber (Instant.deadline now r.ttl) none where
  guard := by
    have hnone : L.guards.find? (fun g => g.number == L.nextNumber) = none := by
      rw [List.find?_eq_none]
      intro g hg
      have := hL.guards g hg
      simp
      omega
    simp [guard?, taken, List.find?_append, hnone]
  lease := L.table.lease?_grant_self now r
  keeper := by
    have hnone : L.keepers.find? (fun k => k.number == L.nextNumber) = none := by
      rw [List.find?_eq_none]
      intro k hk
      have := hL.keepers k hk
      simp
      omega
    simp [keeper?, taken, newKeepers, hext, List.find?_append, hnone]
  wakes := hlasts
  live := Nat.lt_of_le_of_lt (Nat.le_add_right now every.nanos) hlasts

/-- Somebody else takes a lock. -/
theorem Kept.taken (h : L.Kept every now r n expires alarm) (hopen : L.Open now q)
    (hne : q.holder ≠ r.holder) : (L.taken now q).Kept every now r n expires alarm where
  guard := by
    show (L.guards ++ _).find? _ = _
    rw [List.find?_append, show L.guards.find? _ = _ from h.guard]
    rfl
  lease := by
    rw [← h.lease]
    exact L.table.lease?_grant_of_ne now (h.id_ne_of_open hopen hne).symm
  keeper := by
    show (L.keepers ++ _).find? _ = _
    rw [List.find?_append, show L.keepers.find? _ = _ from h.keeper]
    rfl
  wakes := h.wakes
  live := h.live

theorem keeper?_filter {m : Nat} (hne : n ≠ m) (L : LockService) :
    (L.dropKeeper m).keeper? n = L.keeper? n := by
  exact (find?_filter_key Keeper.number L.keepers m n).trans (if_neg hne)

theorem keeper?_restKeeper {m : Nat} {k : Keeper} (hk : L.keeper? m = some k) (n : Nat) :
    (L.restKeeper k now stamp).keeper? n =
      if n = m then some { k with alarm := some (Alarm.after now k.every stamp) }
      else L.keeper? n := by
  obtain ⟨rfl, -⟩ := number_of_keeper? hk
  unfold keeper? restKeeper at *
  rw [find?_map_key Keeper.number (by intro q; split <;> simp_all)]
  split
  · next heq => simp [heq, hk]
  · next hne =>
    cases hq : L.keepers.find? fun q => q.number == n with
    | none => rfl
    | some q =>
      have hnumber : q.number = n := by simpa using List.find?_some hq
      simp [hnumber, hne]

/-- Somebody else's guard is dropped. -/
theorem Kept.dropped (h : L.Kept every now r n expires alarm) {g : Guard} (hnumber : g.number ≠ n)
    (hne : g.request.holder ≠ r.holder) : (L.dropped g).Kept every now r n expires alarm where
  guard := by
    have hguard := h.guard
    unfold guard? at hguard ⊢
    exact (find?_filter_key Guard.number L.guards g.number n).trans
      ((if_neg (Ne.symm hnumber)).trans hguard)
  lease := by
    show (L.table.release g.request.id g.request.holder).1.lease? r.id = _
    by_cases hid : r.id = g.request.id
    · have hlease := h.lease
      rw [hid] at hlease ⊢
      simp [LockTable.release, hlease, Ne.symm hne]
    · rw [LockTable.lease?_release_of_ne _ _ hid]
      exact h.lease
  keeper := by
    show (L.keepers.map _).find? _ = _
    rw [find?_map_key Keeper.number (by intro k; split <;> rfl),
      show L.keepers.find? _ = _ from h.keeper]
    simp [Ne.symm hnumber]
  wakes := h.wakes
  live := h.live

/-- The keeper of a kept lease prolongs it in time, if its alarm is set for just
an interval from now; the turns of other keepers are about other leases. -/
theorem Kept.keeperStep {m : Nat} (h : L.Kept every now r n expires alarm)
    (hstep : L.KeeperStep m now stamp M)
    (hexact : (Alarm.after now every stamp).due = now + every.nanos)
    (hlasts : now + every.nanos < Instant.deadline now r.ttl)
    (hother : ∀ k, L.keeper? m = some k → k.stopped = false → k.request.holder = r.holder →
      m = n) : ∃ expires alarm, M.Kept every now r n expires alarm := by
  cases hstep with
  | idle => exact ⟨expires, alarm, h⟩
  | @gone k hk hend =>
    have hne : n ≠ m := by
      rintro rfl
      obtain rfl := Option.some.inj (h.keeper.symm.trans hk)
      rcases hend with hend | hend
      · cases hend
      · exact hend h.holder?
    exact ⟨expires, alarm, h.guard, h.lease, by rw [keeper?_filter hne]; exact h.keeper, h.wakes,
      h.live⟩
  | @rests k hk hruns halarm =>
    by_cases hnm : n = m
    · subst hnm
      obtain rfl := Option.some.inj (h.keeper.symm.trans hk)
      obtain rfl : alarm = none := halarm
      refine ⟨expires, some (Alarm.after now every stamp), h.guard, h.lease, ?_, ?_, h.live⟩
      · rw [keeper?_restKeeper hk, if_pos rfl]
      · rw [Option.elim_some, hexact]
        exact h.wakes
    · refine ⟨expires, alarm, h.guard, h.lease, ?_, h.wakes, h.live⟩
      rw [keeper?_restKeeper hk, if_neg hnm]
      exact h.keeper
  | @prolongs k hk hruns hheld =>
    have hk' : keeper? { L with table := L.table.grant now k.request } m = some k := hk
    by_cases hnm : n = m
    · subst hnm
      obtain rfl := Option.some.inj (h.keeper.symm.trans hk)
      refine ⟨Instant.deadline now r.ttl, some (Alarm.after now every stamp), h.guard,
        L.table.lease?_grant_self now r, ?_, ?_, ?_⟩
      · rw [keeper?_restKeeper hk', if_pos rfl]
      · rw [Option.elim_some, hexact]
        exact hlasts
      · exact Nat.lt_of_le_of_lt (Nat.le_add_right now every.nanos) hlasts
    · -- the lock it prolongs is held by somebody else, so it is another one
      have hholder : k.request.holder ≠ r.holder := fun heq => hnm (hother k hk hruns heq).symm
      have hid : r.id ≠ k.request.id := by
        intro hid
        rw [← hid, h.holder?] at hheld
        exact hholder (Option.some.inj hheld).symm
      refine ⟨expires, alarm, h.guard, ?_, ?_, h.wakes, h.live⟩
      · rw [← h.lease]
        exact L.table.lease?_grant_of_ne now hid
      · rw [keeper?_restKeeper hk', if_neg hnm]
        exact h.keeper

/-- Time passes while no keeper oversleeps. -/
theorem Kept.pass (h : L.Kept every now r n expires alarm) {t : Instant}
    (hawake : ∀ k ∈ L.keepers, k.stopped = false → ∃ a, k.alarm = some a ∧ t ≤ a.due) :
    L.Kept every t r n expires alarm := by
  obtain ⟨a, rfl, hle⟩ := hawake _ (number_of_keeper? h.keeper).2 rfl
  have hwakes := h.wakes
  exact ⟨h.guard, h.lease, h.keeper, hwakes, Nat.lt_of_le_of_lt hle hwakes⟩

end

end LockService

end Fleet
