import Fleet.Error
import Fleet.Registry
import Fleet.Time.Instant

/-!
# Lock tables

A lock table says who holds which lock and until when.

* **conflict** — a lock that another holder has on an unexpired lease cannot be
  taken; everything else can: a lock that is free, one whose lease has expired,
  and one's own, whose lease then starts again;
* **owners only** — `release` and `extend` touch a lease of the given holder
  and no other. An expired lease is not extended, but it may be released;
* **lifetimes** — a lease whose end the clock cannot show lasts for thirty
  years.
-/

namespace Fleet

/-- Who wants which lock, and for how long. -/
structure LockRequest where
  id : String
  holder : String
  ttl : Duration
  deriving DecidableEq, Repr, Inhabited

/-- How long a lock is leased unless told otherwise. -/
def LockRequest.defaultTtl : Duration := Duration.ofSecs 30

/-- A lock that is held until its lease expires. -/
structure Lease where
  holder : String
  expires : Instant
  deriving DecidableEq, Repr

/-- Whether a lease still counts. -/
def Lease.isLive (l : Lease) (now : Instant) : Bool := decide (now < l.expires)

/-- Leases by the names of their locks. -/
structure LockTable where
  leases : Registry Lease := []
  deriving DecidableEq, Repr

namespace LockTable

/-- The lease on a lock, expired or not. -/
def lease? (T : LockTable) (id : String) : Option Lease := T.leases.get? id

/-- Who holds a lock. -/
def holder? (T : LockTable) (now : Instant) (id : String) : Option String :=
  ((T.lease? id).filter fun l => l.isLive now).map (·.holder)

/-- Leases a lock from now on. -/
def grant (T : LockTable) (now : Instant) (r : LockRequest) : LockTable :=
  { leases := T.leases.put r.id ⟨r.holder, Instant.deadline now r.ttl⟩ }

/-- Leases a lock unless somebody else holds it. -/
def tryLock (T : LockTable) (now : Instant) (r : LockRequest) : Except LockError LockTable :=
  match T.holder? now r.id with
  | some h => if h = r.holder then .ok (T.grant now r) else .error (.conflict r.id h)
  | none => .ok (T.grant now r)

/-- Ends a holder's lease on a lock; whether there was one. -/
def release (T : LockTable) (id holder : String) : LockTable × Bool :=
  match T.lease? id with
  | some l => if l.holder = holder then ({ leases := T.leases.erase id }, true) else (T, false)
  | none => (T, false)

/-- Starts a holder's lease on a lock again unless it has expired; whether it
did. -/
def extend (T : LockTable) (now : Instant) (r : LockRequest) : LockTable × Bool :=
  if T.holder? now r.id = some r.holder then (T.grant now r, true) else (T, false)

@[simp] theorem lease?_grant_self (T : LockTable) (now : Instant) (r : LockRequest) :
    (T.grant now r).lease? r.id = some ⟨r.holder, Instant.deadline now r.ttl⟩ :=
  Registry.get?_put_self ..

theorem lease?_grant_of_ne (T : LockTable) (now : Instant) {r : LockRequest} {id : String}
    (h : id ≠ r.id) : (T.grant now r).lease? id = T.lease? id :=
  Registry.get?_put_of_ne _ _ h

/-- After a lock was leased, a lease is the new one or an old one of another
lock. -/
theorem lease?_grant_cases {T : LockTable} {now : Instant} {r : LockRequest} {id : String}
    {l : Lease} (h : (T.grant now r).lease? id = some l) :
    (id = r.id ∧ l = ⟨r.holder, Instant.deadline now r.ttl⟩) ∨
      (id ≠ r.id ∧ T.lease? id = some l) := by
  by_cases hid : id = r.id
  · rw [hid, lease?_grant_self] at h
    exact Or.inl ⟨hid, (Option.some.inj h).symm⟩
  · rw [lease?_grant_of_ne T now hid] at h
    exact Or.inr ⟨hid, h⟩

/-- Whoever holds a lease that still counts has the lock. -/
theorem holder?_of_live {T : LockTable} {now : Instant} {id : String} {l : Lease}
    (h : T.lease? id = some l) (hlive : now < l.expires) : T.holder? now id = some l.holder := by
  unfold holder?
  rw [h, Option.filter_some, if_pos (show l.isLive now = true from decide_eq_true hlive)]
  rfl

/-- Nobody has a lock whose lease has expired. -/
theorem holder?_of_expired {T : LockTable} {now : Instant} {id : String} {l : Lease}
    (h : T.lease? id = some l) (hover : l.expires ≤ now) : T.holder? now id = none := by
  have hpast : l.isLive now = false := decide_eq_false (Nat.not_lt_of_le hover)
  unfold holder?
  rw [h, Option.filter_some, if_neg (Bool.eq_false_iff.mp hpast)]
  rfl

/-- A release leaves the other locks alone. -/
theorem lease?_release_of_ne (T : LockTable) {id other : String} (holder : String)
    (h : other ≠ id) : (T.release id holder).1.lease? other = T.lease? other := by
  unfold release
  split
  · split
    · exact Registry.get?_erase_of_ne _ h
    · rfl
  · rfl

end LockTable

end Fleet
