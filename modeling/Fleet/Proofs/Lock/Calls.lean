import Fleet.Proofs.Lock.Holdings

/-!
# Runs of locked calls

Any number of calls share a lock service that extends its leases. They start,
take turns, and leave at any point; others take and drop locks meanwhile under
other names; keepers wake; time passes. A run is a list of such events in any
order.

What is asked of a run is that the holders of the calls are fresh and nobody
else's, that a call's lease is for longer than the interval, and that the clock
wakes keepers on time (`State.Allowed`).
-/

namespace Fleet

/-- What a turn of a caller on the way to a lock can come to. -/
inductive Acquisition.TurnStep (a : Acquisition) (L : LockService) (now : Instant) :
    LockService × Progress → Prop
  | waits {M} (h : L.SameHoldings M) : TurnStep a L now (M, .waiting)
  | gaveUp {M} (h : L.SameHoldings M) : TurnStep a L now (M, .gaveUp)
  | granted {M} (hopen : L.Open now a.request) (h : (L.taken now a.request).SameHoldings M) :
      TurnStep a L now (M, .granted L.nextNumber)

theorem Acquisition.turnStep (a : Acquisition) (L : LockService) (now : Instant) (stamp : Nat) :
    a.TurnStep L now (a.turn L now stamp) := by
  have hlimit {M : LockService} (h : L.SameHoldings M) : a.TurnStep L now (a.checkLimit M now) := by
    unfold checkLimit
    split
    · exact .gaveUp ⟨h.table, h.guards, h.keepers, h.nextNumber, h.extension⟩
    · exact .waits h
  unfold turn
  by_cases hmay : L.mayAttempt a.owner now
  · rw [if_pos hmay]
    have hattempt := L.attempt_cases a.owner a.request now stamp
    generalize L.attempt a.owner a.request now stamp = result at hattempt
    obtain ⟨M, number⟩ := result
    rcases hattempt with ⟨hopen, hsame, hnumber⟩ | ⟨hsame, hnone⟩
    · obtain rfl : number = some L.nextNumber := hnumber
      exact .granted hopen hsame
    · obtain rfl : number = none := hnone
      exact hlimit hsame
  · rw [if_neg hmay]
    exact hlimit (.refl L)

namespace LockedCall

/-- What the call wants. -/
def request (c : LockedCall) : LockRequest := c.acquisition.request

/-- The lock that the call holds, and the number of its guard. -/
def place (c : LockedCall) : Option (String × Nat) :=
  match c.phase with
  | .inside n => some (c.request.id, n)
  | _ => none

/-- The call is over, or gave up waiting. -/
def Ended (c : LockedCall) : Prop := c.phase = .refused ∨ c.phase = .over

/-- What a turn of a call can come to. -/
inductive TurnStep (c : LockedCall) (L : LockService) (now : Instant) :
    LockService × LockedCall → Prop
  | stays {M} (h : L.SameHoldings M) : TurnStep c L now (M, c)
  | refused {M} (hphase : c.phase = .waiting) (h : L.SameHoldings M) :
      TurnStep c L now (M, { c with phase := .refused })
  | enters {M} (hphase : c.phase = .waiting) (hopen : L.Open now c.request)
      (h : (L.taken now c.request).SameHoldings M) :
      TurnStep c L now (M, { c with phase := .inside L.nextNumber })

theorem turnStep (c : LockedCall) (L : LockService) (now : Instant) (stamp : Nat) :
    c.TurnStep L now (c.turn L now stamp) := by
  unfold turn
  cases hphase : c.phase with
  | waiting =>
    have hstep := c.acquisition.turnStep L now stamp
    generalize c.acquisition.turn L now stamp = result at hstep
    cases hstep with
    | waits h => exact .stays h
    | gaveUp h => exact .refused hphase h
    | granted hopen h => exact .enters hphase hopen h
  | _ => exact .stays (.refl L)

end LockedCall

namespace Locking

open LockService

/-- Calls that share a lock service, at an instant. The stamp is that of the
next alarm. -/
structure State where
  service : LockService
  calls : List LockedCall := []
  now : Instant
  stamp : Nat := 0

/-- What can happen. -/
inductive Event
  | start (owner : Nat) (request : LockRequest) (limit : Option Duration)
  | turn (i : Nat)
  -- what a call guards is over, or the caller goes away
  | leave (i : Nat)
  -- the keeper of a guard has its turn
  | wake (guard : Nat)
  -- what others do
  | tryLock (request : LockRequest)
  | attempt (owner : Nat) (request : LockRequest)
  | abandon (owner : Nat)
  | dropGuard (guard : Nat)
  | pass (t : Instant)

namespace State

/-- The service and the calls after an event. -/
def act (σ : State) : Event → LockService × List LockedCall
  | .start owner r limit =>
    (σ.service, σ.calls ++ [{ acquisition := .start owner r limit σ.now σ.stamp }])
  | .turn i =>
    match σ.calls[i]? with
    | none => (σ.service, σ.calls)
    | some c =>
      let (L, c) := c.turn σ.service σ.now σ.stamp
      (L, σ.calls.set i c)
  | .leave i =>
    match σ.calls[i]? with
    | none => (σ.service, σ.calls)
    | some c =>
      let (L, c, _) := c.leave σ.service
      (L, σ.calls.set i c)
  | .wake n => (σ.service.keeperTurn n σ.now σ.stamp, σ.calls)
  | .tryLock r => ((σ.service.tryLock σ.now r).1, σ.calls)
  | .attempt owner r => ((σ.service.attempt owner r σ.now σ.stamp).1, σ.calls)
  | .abandon owner => (σ.service.abandon owner, σ.calls)
  | .dropGuard n => ((σ.service.dropGuard n).1, σ.calls)
  | .pass _ => (σ.service, σ.calls)

/-- The clock after an event. -/
def clock (σ : State) : Event → Instant
  | .pass t => t
  | _ => σ.now

/-- The state after an event. -/
def step (σ : State) (e : Event) : State :=
  ⟨(σ.act e).1, (σ.act e).2, σ.clock e, σ.stamp + 1⟩

/-- The state after events in order. -/
def run (σ : State) (es : List Event) : State := es.foldl step σ

theorem run_append (σ : State) (es fs : List Event) : σ.run (es ++ fs) = (σ.run es).run fs :=
  List.foldl_append

/-- Nobody goes by that name. -/
def Unused (σ : State) (holder : String) : Prop :=
  (∀ c ∈ σ.calls, c.request.holder ≠ holder) ∧
    (∀ e ∈ σ.service.table.leases, e.2.holder ≠ holder) ∧
    (∀ g ∈ σ.service.guards, g.request.holder ≠ holder) ∧
    ∀ k ∈ σ.service.keepers, k.request.holder ≠ holder

/-- What is asked of the events of a run. -/
def Allowed (every : Duration) (σ : State) : Event → Prop
  | .start _ r _ => every.nanos < r.ttl.nanos ∧ σ.Unused r.holder
  | .turn _ | .leave _ | .abandon _ => True
  -- the alarm that the keeper sets rings when the interval is over, not later
  | .wake _ => (Alarm.after σ.now every σ.stamp).due = σ.now + every.nanos
  | .tryLock r | .attempt _ r => ∀ c ∈ σ.calls, c.request.holder ≠ r.holder
  | .dropGuard n => ∀ c ∈ σ.calls, c.phase ≠ .inside n
  -- no keeper oversleeps, and the clock can show the next thirty years
  | .pass t => σ.now ≤ t ∧ t + Instant.farAhead.nanos ≤ Instant.horizon ∧
      ∀ k ∈ σ.service.keepers, k.stopped = false → k.alarm.any fun a => t ≤ a.due

/-- A lease outlasts the interval also where the clock cannot show its end. -/
def Shown (every : Duration) (σ : State) : Prop :=
  every.nanos < Instant.farAhead.nanos ∨
    ∀ c ∈ σ.calls, σ.now + c.request.ttl.nanos ≤ Instant.horizon

/-- Something is so at every event of a run. -/
def Along (P : State → Event → Prop) : State → List Event → Prop
  | _, [] => True
  | σ, e :: es => P σ e ∧ Along P (σ.step e) es

theorem along_append {P : State → Event → Prop} {σ : State} {es fs : List Event} :
    Along P σ (es ++ fs) ↔ Along P σ es ∧ Along P (σ.run es) fs := by
  induction es generalizing σ with
  | nil => exact ⟨fun h => ⟨trivial, h⟩, And.right⟩
  | cons e rest ih =>
    show P σ e ∧ Along P (σ.step e) (rest ++ fs) ↔ _
    rw [ih, ← and_assoc]
    rfl

/-! ## Decisions -/

instance (σ : State) (holder : String) : Decidable (σ.Unused holder) :=
  inferInstanceAs (Decidable (_ ∧ _ ∧ _ ∧ _))

instance (every : Duration) (σ : State) : (e : Event) → Decidable (σ.Allowed every e)
  | .start .. => inferInstanceAs (Decidable (_ ∧ _))
  | .turn _ | .leave _ | .abandon _ => isTrue trivial
  | .wake _ => inferInstanceAs (Decidable (_ = _))
  | .tryLock r | .attempt _ r =>
    inferInstanceAs (Decidable (∀ c ∈ σ.calls, c.request.holder ≠ r.holder))
  | .dropGuard n => inferInstanceAs (Decidable (∀ c ∈ σ.calls, c.phase ≠ .inside n))
  | .pass _ => inferInstanceAs (Decidable (_ ∧ _ ∧ _))

instance (every : Duration) (σ : State) : Decidable (σ.Shown every) :=
  inferInstanceAs (Decidable (_ ∨ _))

instance decidableAlong {P : State → Event → Prop} [∀ σ e, Decidable (P σ e)] :
    (σ : State) → (es : List Event) → Decidable (Along P σ es)
  | _, [] => isTrue trivial
  | σ, e :: es =>
    have := decidableAlong (P := P) (σ.step e) es
    inferInstanceAs (Decidable (P σ e ∧ Along P (σ.step e) es))

end State

end Locking

end Fleet
