import Fleet.Proofs.Lock.Waiters

/-!
# Waiting calls miss no release

* **refusals** — a call that was refused found somebody else's unexpired lease;
  since then the lock has been leased all along, or the call has been told of a
  release (`Refused`), wherever in its loop the call was meanwhile;
* **sleepers** — a sleeper's alarm is set for one retry interval after its last
  attempt (`Sound`), so in a settled state the attempt is more recent than that;
* **the next attempt** — a sleeper tries again when its alarm rings, at the
  latest (`Pending.run`). An expired lease tells nobody, but its end is not
  before the last attempt, and so the next one is soon enough.

`no_release_missed` puts them together.
-/

namespace Fleet.Acquiring.State

open LockService

variable {σ : State} {owner other : Nat} {r : LockRequest} {c : Caller}

/-! ## Refusals -/

/-- A call was refused at its last attempt, because of somebody else's unexpired
lease. The lock has been leased since, or the call has been told of a release. -/
structure Refused (σ : State) (owner : Nat) (r : LockRequest) (notified : Bool) (a : Attempt) :
    Prop where
  last : σ.lastAttempt? owner = some a
  request : a.request = r
  conflict : ∃ l, a.found = some l ∧ a.instant < l.expires ∧ l.holder ≠ r.holder
  leased : (σ.lock.lease? r.id).isSome ∨ notified = true
  fresh : ∀ l, σ.lock.lease? r.id = some l → a.instant ≤ l.expires
  reached : a.instant ≤ σ.now

theorem Refused.mono {τ : State} {told before after : Bool} {a : Attempt}
    (h : σ.Refused owner r before a) (hlast : τ.lastAttempt? owner = σ.lastAttempt? owner)
    (hs : Spares σ.lock τ.lock told) (hb : before = true ∨ told = true → after = true) :
    τ.Refused owner r after a where
  last := hlast.trans h.last
  request := h.request
  conflict := h.conflict
  leased := by
    rcases h.leased with hl | hl
    · exact (hs.leased r.id hl).imp_right fun htold => hb (.inr htold)
    · exact .inr (hb (.inl hl))
  fresh l hl := (hs.fresh r.id l hl).elim (h.fresh l) fun hnow => Nat.le_trans h.reached hnow
  reached := Nat.le_trans h.reached hs.later

/-- A call whose attempt does not take the lock is refused. -/
theorem refused_tries (h : σ.lock.takes? (.tryLock c.request) = none) :
    (σ.tries c).Refused c.owner c.request c.notified
      ⟨c.owner, c.request, σ.now, σ.lock.lease? c.request.id⟩ := by
  have hopen : ¬σ.lock.service.Open σ.now c.request := by
    intro hopen
    have htakes := Leasing.State.takes?_of_open (e := .tryLock c.request) rfl hopen
    rw [h] at htakes
    cases htakes
  obtain ⟨x, hx, hne⟩ := (σ.lock.service.open_or_conflict σ.now c.request).resolve_left hopen
  obtain ⟨l, hl, hlive, rfl⟩ := LockTable.live_of_holder? hx
  have hlease : (σ.tries c).lock.lease? c.request.id = some l := by
    have hsame := Leasing.State.same_of_refused (e := .tryLock c.request) rfl h
    show (σ.lock.serve (.tryLock c.request)).table.lease? _ = _
    rw [hsame.table]
    exact hl
  refine ⟨by rw [lastAttempt?_tries, if_pos rfl], rfl, ⟨l, hl, hlive, hne⟩, .inl ?_, ?_,
    Nat.le_refl _⟩
  · rw [hlease]
    rfl
  · intro l' hl'
    obtain rfl := Option.some.inj (hlease.symm.trans hl')
    exact Nat.le_of_lt hlive

/-! ## Sleepers -/

/-- Every call that was refused knows why, and who sleeps is to be woken one retry
interval after its last attempt. -/
structure Sound (every : Duration) (σ : State) : Prop where
  retry : σ.lock.service.retry = every
  shown : σ.now ≤ Instant.horizon
  -- nobody sleeps and is awake
  apart : ∀ owner c, σ.caller? owner = some c → σ.waiter? owner = none
  awake : ∀ owner c, σ.caller? owner = some c → c.refused = true →
    ∃ a, σ.Refused owner c.request c.notified a ∧ a.instant = σ.now
  asleep : ∀ owner w, σ.waiter? owner = some w →
    σ.now ≤ w.retry.due ∧ ∃ a, σ.Refused owner w.request w.notified a ∧
      w.retry.due ≤ Instant.ceilMilli (a.instant + every.nanos)

section
variable {every : Duration}

/-- Something happens to the table that no call takes part in. -/
theorem Sound.same (h : Sound every σ) {lock : Leasing.State}
    (hline : SameLine σ.lock.service lock.service) (hs : Spares σ.lock lock false)
    (hshown : lock.now ≤ Instant.horizon) (hnow : σ.awake = [] ∨ lock.now = σ.now)
    (hearly : ∀ owner w, σ.waiter? owner = some w → lock.now ≤ w.retry.due) :
    Sound every { σ with lock } := by
  have hwaiter : ∀ owner, ({ σ with lock } : State).waiter? owner = σ.waiter? owner := by
    intro owner
    show lock.service.waiters.find? _ = _
    rw [hline.waiters]
    rfl
  have hkeep {owner r b a} (hr : σ.Refused owner r b a) :
      ({ σ with lock } : State).Refused owner r b a :=
    hr.mono rfl hs fun hb => hb.resolve_right nofun
  refine ⟨hline.retry.trans h.retry, hshown, ?_, ?_, ?_⟩
  · intro owner c hc
    rw [hwaiter]
    exact h.apart owner c hc
  · intro owner c hc hrefused
    obtain ⟨a, ha, hinstant⟩ := h.awake owner c hc hrefused
    refine ⟨a, hkeep ha, ?_⟩
    rcases hnow with hnone | hsame
    · have hc : σ.awake.find? (fun c => c.owner == owner) = some c := hc
      rw [hnone] at hc
      cases hc
    · exact hinstant.trans hsame.symm
  · intro owner w hw
    rw [hwaiter] at hw
    obtain ⟨-, a, ha, hdue⟩ := h.asleep owner w hw
    exact ⟨hearly owner w hw, a, hkeep ha, hdue⟩

/-- A call is given up, or starts over. -/
theorem Sound.leave (h : Sound every σ) (owner : Nat) : Sound every (σ.step (.abandon owner)) := by
  have hs : Spares σ.lock (σ.step (.abandon owner)).lock false :=
    spares_step h.shown (.abandon owner) nofun
  have hkeep {other r b a} (hr : σ.Refused other r b a) :
      (σ.step (.abandon owner)).Refused other r b a :=
    hr.mono rfl hs fun hb => hb.resolve_right nofun
  have hcaller {other c} (hc : (σ.step (.abandon owner)).caller? other = some c) :
      σ.caller? other = some c := by
    have hc : (σ.others owner).find? (fun c => c.owner == other) = some c := hc
    rw [find?_others] at hc
    split at hc
    · cases hc
    · exact hc
  have hwaiter (other : Nat) : (σ.step (.abandon owner)).waiter? other =
      if other = owner then none else σ.waiter? other :=
    σ.lock.service.waiter?_abandon owner other
  refine ⟨h.retry, h.shown, ?_, ?_, ?_⟩
  · intro other c hc
    rw [hwaiter]
    split
    · rfl
    · exact h.apart other c (hcaller hc)
  · intro other c hc hrefused
    obtain ⟨a, ha, hinstant⟩ := h.awake other c (hcaller hc) hrefused
    exact ⟨a, hkeep ha, hinstant⟩
  · intro other w hw
    rw [hwaiter] at hw
    split at hw
    · cases hw
    · obtain ⟨hearly, a, ha, hdue⟩ := h.asleep other w hw
      exact ⟨hearly, a, hkeep ha, hdue⟩

/-- A call begins, or starts over. -/
theorem Sound.register (h : Sound every σ) (owner : Nat) (r : LockRequest) :
    Sound every (σ.step (.register owner r)) := by
  have hleft := h.leave owner
  have hkeep {other q b a} (hr : (σ.step (.abandon owner)).Refused other q b a) :
      (σ.step (.register owner r)).Refused other q b a :=
    ⟨hr.last, hr.request, hr.conflict, hr.leased, hr.fresh, hr.reached⟩
  refine ⟨hleft.retry, hleft.shown, ?_, ?_, ?_⟩
  · intro other c hc
    rw [caller?_register] at hc
    split at hc
    · next heq =>
      show (σ.lock.service.abandon owner).waiter? other = none
      rw [waiter?_abandon, if_pos heq]
    · next hne =>
      refine hleft.apart other c ?_
      show (σ.others owner).find? _ = _
      rw [find?_others, if_neg hne, hc]
  · intro other c hc hrefused
    rw [caller?_register] at hc
    split at hc
    · -- it has not tried yet
      cases hc
      cases hrefused
    · next hne =>
      have hc : (σ.step (.abandon owner)).caller? other = some c := by
        show (σ.others owner).find? _ = _
        rw [find?_others, if_neg hne, hc]
      obtain ⟨a, ha, hinstant⟩ := hleft.awake other c hc hrefused
      exact ⟨a, hkeep ha, hinstant⟩
  · intro other w hw
    obtain ⟨hearly, a, ha, hdue⟩ := hleft.asleep other w hw
    exact ⟨hearly, a, hkeep ha, hdue⟩

/-- A guard is dropped, and everybody is told if that ends a lease. -/
theorem Sound.dropGuard (h : Sound every σ) (n : Nat) : Sound every (σ.step (.dropGuard n)) := by
  have hs : Spares σ.lock (σ.step (.dropGuard n)).lock (σ.lock.service.frees n) := by
    refine spares_step h.shown (.dropGuard n) fun m hm => ?_
    cases hm
    rfl
  have hwaiter (owner : Nat) := σ.lock.service.waiter?_dropGuard n owner
  have hkeep {owner r before after a} (hr : σ.Refused owner r before a)
      (hb : before = true ∨ σ.lock.service.frees n = true → after = true) :
      (σ.step (.dropGuard n)).Refused owner r after a :=
    hr.mono rfl hs hb
  refine ⟨(retry_dropGuard ..).trans h.retry, h.shown, ?_, ?_, ?_⟩
  · intro owner c hc
    show LockService.waiter? (σ.lock.service.dropGuard n).1 owner = none
    have hnone : ∃ c, σ.caller? owner = some c := by
      rw [caller?_dropGuard] at hc
      split at hc
      · obtain ⟨c, hc, -⟩ := Option.map_eq_some_iff.mp hc
        exact ⟨c, hc⟩
      · exact ⟨c, hc⟩
    obtain ⟨c, hc⟩ := hnone
    have hout : σ.lock.service.waiter? owner = none := h.apart owner c hc
    rw [hwaiter, hout]
    split <;> rfl
  · intro owner c hc hrefused
    rw [caller?_dropGuard] at hc
    split at hc
    · obtain ⟨d, hd, rfl⟩ := Option.map_eq_some_iff.mp hc
      obtain ⟨a, ha, hinstant⟩ := h.awake owner d hd hrefused
      exact ⟨a, hkeep ha fun _ => rfl, hinstant⟩
    · next hnot =>
      obtain ⟨a, ha, hinstant⟩ := h.awake owner c hc hrefused
      exact ⟨a, hkeep ha fun hb => hb.resolve_right hnot, hinstant⟩
  · intro owner w hw
    have hw : LockService.waiter? (σ.lock.service.dropGuard n).1 owner = some w := hw
    rw [hwaiter] at hw
    split at hw
    · obtain ⟨v, hv, rfl⟩ := Option.map_eq_some_iff.mp hw
      obtain ⟨hearly, a, ha, hdue⟩ := h.asleep owner v hv
      exact ⟨hearly, a, hkeep ha fun _ => rfl, hdue⟩
    · next hnot =>
      obtain ⟨hearly, a, ha, hdue⟩ := h.asleep owner w hw
      exact ⟨hearly, a, hkeep ha fun hb => hb.resolve_right hnot, hdue⟩

/-- A call tries: it takes the lock, or is refused now. -/
theorem Sound.tries (h : Sound every σ) (hc : σ.caller? owner = some c) :
    Sound every (σ.tries c) := by
  obtain rfl := owner_of_caller? hc
  have hline := sameLine_tryLock σ.lock.service σ.lock.now c.request
  have hwaiter (other : Nat) : (σ.tries c).waiter? other = σ.waiter? other := by
    show (σ.lock.service.tryLock σ.lock.now c.request).1.waiters.find? _ = _
    rw [hline.waiters]
    rfl
  have hs : Spares σ.lock (σ.tries c).lock false := spares_step h.shown (.tryLock c.request) nofun
  have hkeep {other r b a} (hne : other ≠ c.owner) (hr : σ.Refused other r b a) :
      (σ.tries c).Refused other r b a :=
    hr.mono (by rw [lastAttempt?_tries, if_neg hne]) hs fun hb => hb.resolve_right nofun
  refine ⟨hline.retry.trans h.retry, h.shown, ?_, ?_, ?_⟩
  · intro other d hd
    rw [hwaiter]
    rw [caller?_tries] at hd
    split at hd
    · next heq => exact heq ▸ h.apart c.owner c hc
    · exact h.apart other d hd
  · intro other d hd hrefused
    rw [caller?_tries] at hd
    split at hd
    · next heq =>
      split at hd
      · cases hd
      · next hnot =>
        cases hd
        exact ⟨_, heq ▸ refused_tries (by simpa using hnot), rfl⟩
    · next hne =>
      obtain ⟨a, ha, hinstant⟩ := h.awake other d hd hrefused
      exact ⟨a, hkeep hne ha, hinstant⟩
  · intro other w hw
    rw [hwaiter] at hw
    have hne : other ≠ c.owner := by
      rintro rfl
      rw [h.apart c.owner c hc] at hw
      cases hw
    obtain ⟨hearly, a, ha, hdue⟩ := h.asleep other w hw
    exact ⟨hearly, a, hkeep hne ha, hdue⟩

/-- A call that was refused goes to sleep for a retry interval. -/
theorem Sound.rests (h : Sound every σ) (hc : σ.caller? owner = some c)
    (hrefused : c.refused = true) : Sound every (σ.rests c) := by
  obtain rfl := owner_of_caller? hc
  have hwaiter := σ.waiter?_rests (h.apart c.owner c hc)
  have hnow : σ.lock.now ≤ (σ.rests c).lock.now := Nat.le_refl _
  have hs : Spares σ.lock (σ.rests c).lock false := spares_of_same hnow rfl false
  have hkeep {other r b a} (hr : σ.Refused other r b a) : (σ.rests c).Refused other r b a :=
    hr.mono rfl hs fun hb => hb.resolve_right nofun
  have hcaller {other d} (hd : (σ.rests c).caller? other = some d) :
      other ≠ c.owner ∧ σ.caller? other = some d := by
    have hd : (σ.others c.owner).find? (fun c => c.owner == other) = some d := hd
    rw [find?_others] at hd
    split at hd
    · cases hd
    · next hne => exact ⟨hne, hd⟩
  refine ⟨h.retry, h.shown, ?_, ?_, ?_⟩
  · intro other d hd
    obtain ⟨hne, hd⟩ := hcaller hd
    rw [hwaiter, if_neg hne]
    exact h.apart other d hd
  · intro other d hd hrefused
    obtain ⟨a, ha, hinstant⟩ := h.awake other d (hcaller hd).2 hrefused
    exact ⟨a, hkeep ha, hinstant⟩
  · intro other w hw
    rw [hwaiter] at hw
    split at hw
    · next heq =>
      cases hw
      obtain ⟨a, ha, hinstant⟩ := h.awake c.owner c hc hrefused
      refine ⟨?_, a, heq ▸ hkeep ha, ?_⟩
      · exact Nat.le_trans (Instant.le_deadline h.shown _) (Instant.le_ceilMilli _)
      · show Instant.ceilMilli (Instant.deadline σ.now σ.lock.service.retry) ≤ _
        rw [hinstant, h.retry]
        exact Instant.ceilMilli_mono (Instant.deadline_le_add σ.now every)
    · obtain ⟨hearly, a, ha, hdue⟩ := h.asleep other w hw
      exact ⟨hearly, a, hkeep ha, hdue⟩

theorem Sound.step (h : Sound every σ) {e : Event} (htimely : σ.Timely e) :
    Sound every (σ.step e) := by
  have hearly : ∀ owner w, σ.waiter? owner = some w → σ.now ≤ w.retry.due :=
    fun owner w hw => (h.asleep owner w hw).1
  cases e with
  | tryLock r =>
    exact h.same (sameLine_tryLock ..) (spares_step h.shown _ nofun) h.shown (.inr rfl) hearly
  | register owner r => exact h.register owner r
  | attempt owner =>
    rcases σ.step_attempt owner with heq | ⟨c, hc, heq⟩
    · rw [heq]
      exact h
    · rw [heq]
      exact h.tries hc
  | sleep owner =>
    rcases σ.step_sleep owner with heq | ⟨c, hc, hrefused, heq⟩
    · rw [heq]
      exact h
    · rw [heq]
      exact h.rests hc hrefused
  | abandon owner => exact h.leave owner
  | dropGuard n => exact h.dropGuard n
  | wake n =>
    exact h.same (sameLine_keeperTurn ..) (spares_step h.shown _ nofun) h.shown (.inr rfl) hearly
  | pass d =>
    obtain ⟨hnone, hshown, hrings⟩ := htimely
    exact h.same ⟨rfl, rfl⟩ (spares_step h.shown _ nofun) hshown (.inl hnone)
      fun owner w hw => (hrings w (List.mem_of_find?_eq_some hw)).2

theorem Sound.run (h : Sound every σ) {es : List Event} (htimely : σ.OnTime es) :
    Sound every (σ.run es) := by
  induction es generalizing σ with
  | nil => exact h
  | cons e rest ih => exact ih (h.step htimely.1) htimely.2

/-! ## The next attempt -/

/-- A call has not tried since it went to sleep by an alarm: it still sleeps, or it
is awake and has registered. -/
inductive Pending (σ : State) (owner : Nat) (r : LockRequest) (due : Instant) : Prop
  | asleep {w : Waiter} (hw : σ.waiter? owner = some w) (hr : w.request = r)
      (hdue : w.retry.due = due)
  | awake {c : Caller} (hc : σ.caller? owner = some c) (hr : c.request = r)
      (hfresh : c.refused = false)

/-- The call is not given up at an event, nor started over for something else. -/
def Stays (owner : Nat) (r : LockRequest) : Event → Prop
  | .register other q => other = owner → q = r
  | .abandon other => other ≠ owner
  | .tryLock _ | .attempt _ | .sleep _ | .dropGuard _ | .wake _ | .pass _ => True

instance (owner : Nat) (r : LockRequest) : DecidablePred (Stays owner r)
  | .register other q => inferInstanceAs (Decidable (other = owner → q = r))
  | .abandon other => inferInstanceAs (Decidable (other ≠ owner))
  | .tryLock _ | .attempt _ | .sleep _ | .dropGuard _ | .wake _ | .pass _ => isTrue trivial

/-- Between two states the call has tried, by an instant. -/
def TriedBy (σ τ : State) (owner : Nat) (r : LockRequest) (due : Instant) : Prop :=
  ∃ new, τ.log = σ.log ++ new ∧
    ∃ a ∈ new, a.owner = owner ∧ a.request = r ∧ σ.now ≤ a.instant ∧ a.instant ≤ due

/-- The clock never goes back. -/
theorem now_le_step (σ : State) (e : Event) : σ.now ≤ (σ.step e).now := by
  cases e with
  | attempt owner =>
    rcases σ.step_attempt owner with heq | ⟨c, -, heq⟩
    · exact Nat.le_of_eq (congrArg State.now heq).symm
    · exact Nat.le_of_eq (congrArg State.now heq).symm
  | sleep owner =>
    rcases σ.step_sleep owner with heq | ⟨c, -, -, heq⟩
    · exact Nat.le_of_eq (congrArg State.now heq).symm
    · exact Nat.le_of_eq (congrArg State.now heq).symm
  | pass d => exact Nat.le_add_right _ _
  | tryLock | register | abandon | dropGuard | wake => exact Nat.le_refl _

theorem log_step (σ : State) (e : Event) : ∃ new, (σ.step e).log = σ.log ++ new := by
  have hsame : ∃ new, σ.log = σ.log ++ new := ⟨[], (List.append_nil _).symm⟩
  cases e with
  | attempt owner =>
    rcases σ.step_attempt owner with heq | ⟨c, -, heq⟩
    · rw [heq]
      exact hsame
    · rw [heq]
      exact ⟨_, rfl⟩
  | sleep owner =>
    rcases σ.step_sleep owner with heq | ⟨c, -, -, heq⟩
    · rw [heq]
      exact hsame
    · rw [heq]
      exact hsame
  | tryLock | register | abandon | dropGuard | wake | pass => exact hsame

theorem log_run (σ : State) (es : List Event) : ∃ new, (σ.run es).log = σ.log ++ new := by
  induction es generalizing σ with
  | nil => exact ⟨[], (List.append_nil _).symm⟩
  | cons e rest ih =>
    obtain ⟨first, hfirst⟩ := σ.log_step e
    obtain ⟨last, hlast⟩ := ih (σ.step e)
    refine ⟨first ++ last, ?_⟩
    show ((σ.step e).run rest).log = _
    rw [hlast, hfirst, List.append_assoc]

variable {due : Instant}

/-- Nothing happens to who sleeps and who is awake. -/
theorem Pending.same (h : σ.Pending owner r due) {lock : Leasing.State}
    (hline : SameLine σ.lock.service lock.service) :
    ({ σ with lock } : State).Pending owner r due := by
  cases h with
  | asleep hw hr hdue =>
    refine .asleep ?_ hr hdue
    show lock.service.waiters.find? _ = _
    rw [hline.waiters]
    exact hw
  | awake hc hr hfresh => exact .awake hc hr hfresh

/-- A call that starts over for the same lock is pending, and so are the others. -/
theorem Pending.register (h : σ.Pending owner r due) {q : LockRequest}
    (hsame : other = owner → q = r) : (σ.step (.register other q)).Pending owner r due := by
  by_cases heq : owner = other
  · refine .awake (c := ⟨other, q, false, false⟩) ?_ (hsame heq.symm) rfl
    rw [caller?_register, if_pos heq]
  · cases h with
    | asleep hw hr hdue =>
      refine .asleep ?_ hr hdue
      show (σ.lock.service.abandon other).waiter? owner = _
      rw [waiter?_abandon, if_neg heq]
      exact hw
    | awake hc hr hfresh =>
      refine .awake ?_ hr hfresh
      rw [caller?_register, if_neg heq]
      exact hc

/-- Another call is given up. -/
theorem Pending.abandon (h : σ.Pending owner r due) (hne : other ≠ owner) :
    (σ.step (.abandon other)).Pending owner r due := by
  cases h with
  | asleep hw hr hdue =>
    refine .asleep ?_ hr hdue
    show (σ.lock.service.abandon other).waiter? owner = _
    rw [waiter?_abandon, if_neg hne.symm]
    exact hw
  | awake hc hr hfresh =>
    refine .awake ?_ hr hfresh
    show (σ.others other).find? _ = _
    rw [find?_others, if_neg hne.symm]
    exact hc

/-- To be told of a release is no attempt. -/
theorem Pending.dropGuard (h : σ.Pending owner r due) (n : Nat) :
    (σ.step (.dropGuard n)).Pending owner r due := by
  cases h with
  | @asleep w hw hr hdue =>
    have hw : σ.lock.service.waiter? owner = some w := hw
    have hnext := σ.lock.service.waiter?_dropGuard n owner
    rw [hw] at hnext
    split at hnext
    · exact .asleep hnext hr hdue
    · exact .asleep hnext hr hdue
  | @awake c hc hr hfresh =>
    have hnext := σ.caller?_dropGuard n owner
    rw [hc] at hnext
    split at hnext
    · exact .awake hnext hr hfresh
    · exact .awake hnext hr hfresh

/-- A call tries, or another one does. -/
theorem Pending.tries (h : σ.Pending owner r due) (hnow : σ.now ≤ due)
    (hc : σ.caller? other = some c) :
    (σ.tries c).Pending owner r due ∨ σ.TriedBy (σ.tries c) owner r due := by
  obtain rfl := owner_of_caller? hc
  cases h with
  | @asleep w hw hr hdue =>
    refine .inl (.asleep ?_ hr hdue)
    show (σ.lock.service.tryLock σ.lock.now c.request).1.waiters.find? _ = _
    rw [(sameLine_tryLock ..).waiters]
    exact hw
  | @awake d hd hr hfresh =>
    by_cases heq : owner = c.owner
    · subst heq
      obtain rfl := Option.some.inj (hc.symm.trans hd)
      refine .inr ⟨_, rfl, _, List.mem_singleton_self _, rfl, hr, Nat.le_refl _, hnow⟩
    · refine .inl (.awake ?_ hr hfresh)
      rw [caller?_tries, if_neg heq]
      exact hd

/-- Another call goes to sleep. -/
theorem Pending.rests (h : σ.Pending owner r due) (hsound : Sound every σ)
    (hc : σ.caller? other = some c) (hrefused : c.refused = true) :
    (σ.rests c).Pending owner r due := by
  obtain rfl := owner_of_caller? hc
  have hout := hsound.apart c.owner c hc
  cases h with
  | @asleep w hw hr hdue =>
    have hne : owner ≠ c.owner := by
      rintro rfl
      cases hout.symm.trans hw
    refine .asleep ?_ hr hdue
    rw [waiter?_rests σ hout, if_neg hne]
    exact hw
  | @awake d hd hr hfresh =>
    have hne : owner ≠ c.owner := by
      rintro rfl
      obtain rfl := Option.some.inj (hc.symm.trans hd)
      cases hrefused.symm.trans hfresh
    refine .awake ?_ hr hfresh
    show (σ.others c.owner).find? _ = _
    rw [find?_others, if_neg hne]
    exact hd

/-- A pending call tries, or is still pending and not late. -/
theorem Pending.step (h : σ.Pending owner r due) (hsound : Sound every σ) (hnow : σ.now ≤ due)
    {e : Event} (htimely : σ.Timely e) (hstays : Stays owner r e) :
    ((σ.step e).Pending owner r due ∧ (σ.step e).now ≤ due) ∨
      σ.TriedBy (σ.step e) owner r due := by
  cases e with
  | tryLock q => exact .inl ⟨h.same (sameLine_tryLock ..), hnow⟩
  | register other q => exact .inl ⟨h.register hstays, hnow⟩
  | attempt other =>
    rcases σ.step_attempt other with heq | ⟨c, hc, heq⟩
    · rw [heq]
      exact .inl ⟨h, hnow⟩
    · rw [heq]
      exact (h.tries hnow hc).imp_left fun hpending => ⟨hpending, hnow⟩
  | sleep other =>
    rcases σ.step_sleep other with heq | ⟨c, hc, hrefused, heq⟩
    · rw [heq]
      exact .inl ⟨h, hnow⟩
    · rw [heq]
      exact .inl ⟨h.rests hsound hc hrefused, hnow⟩
  | abandon other => exact .inl ⟨h.abandon hstays, hnow⟩
  | dropGuard n => exact .inl ⟨h.dropGuard n, hnow⟩
  | wake n => exact .inl ⟨h.same (sameLine_keeperTurn ..), hnow⟩
  | pass d =>
    refine .inl ⟨h.same ⟨rfl, rfl⟩, ?_⟩
    obtain ⟨hnone, -, hrings⟩ := htimely
    cases h with
    | asleep hw _ hdue => exact hdue ▸ (hrings _ (List.mem_of_find?_eq_some hw)).2
    | awake hc =>
      have hc : σ.awake.find? _ = some _ := hc
      rw [hnone] at hc
      cases hc

theorem Pending.run (h : σ.Pending owner r due) (hsound : Sound every σ) (hnow : σ.now ≤ due)
    {es : List Event} (htimely : σ.OnTime es) (hstays : ∀ e ∈ es, Stays owner r e) :
    (σ.run es).Pending owner r due ∨ σ.TriedBy (σ.run es) owner r due := by
  induction es generalizing σ with
  | nil => exact .inl h
  | cons e rest ih =>
    have hlater : ∀ e ∈ rest, Stays owner r e := fun e he => hstays e (List.mem_cons_of_mem _ he)
    have hfirst : Stays owner r e := hstays e List.mem_cons_self
    rcases h.step hsound hnow htimely.1 hfirst with ⟨hnext, hearly⟩ | ⟨new, hnew, a, ha, hall⟩
    · refine (ih hnext (hsound.step htimely.1) hearly htimely.2 hlater).imp_right ?_
      rintro ⟨last, hlast, a, ha, howner, hr, hlate, hby⟩
      obtain ⟨new, hnew⟩ := σ.log_step e
      have hlog : ((σ.step e).run rest).log = σ.log ++ (new ++ last) := by
        rw [hlast, hnew, List.append_assoc]
      exact ⟨new ++ last, hlog, a, List.mem_append_right new ha, howner, hr,
        Nat.le_trans (σ.now_le_step e) hlate, hby⟩
    · -- what is logged stays logged
      obtain ⟨last, hlast⟩ := (σ.step e).log_run rest
      have hlog : ((σ.step e).run rest).log = σ.log ++ (new ++ last) := by
        rw [hlast, hnew, List.append_assoc]
      exact .inr ⟨new ++ last, hlog, a, List.mem_append_left last ha, hall⟩

/-- In a settled state no call is pending whose alarm is due. -/
theorem Pending.not_settled (h : σ.Pending owner r due) (hdue : due ≤ σ.now) : ¬σ.Settled := by
  rintro ⟨hnone, hrest⟩
  cases h with
  | asleep hw _ halarm =>
    have hrests := hrest _ (List.mem_of_find?_eq_some hw)
    simp [Waiter.isDue, Alarm.rings, halarm, hdue] at hrests
  | awake hc =>
    have hc : σ.awake.find? _ = some _ := hc
    rw [hnone] at hc
    cases hc

end

/-- A lock service that nobody has used yet. -/
def initial (retry : Duration) (extension : Option Duration) (now : Instant) : State :=
  { lock := ⟨{ retry, extension }, now, 0⟩ }

theorem sound_initial (every : Duration) (extension : Option Duration) {start : Instant}
    (hstart : start ≤ Instant.horizon) : Sound every (initial every extension start) := by
  refine ⟨rfl, hstart, ?_, ?_, ?_⟩
  · intro owner c hc
    cases hc
  · intro owner c hc
    cases hc
  · intro owner w hw
    cases hw

/-- **No release is missed.** Take any number of calls that wait for locks, and
any run in which they register, try and sleep, in any order between each other and
with whatever else happens to the table. In every settled state the lock that a
call waits for is leased; its last attempt found the unexpired lease of somebody
else, and is less than a retry interval ago, as the clock counts it. And where the
lease on the lock of a call that sleeps has expired, the call tries again within a
retry interval after that, if it is not given up. -/
theorem no_release_missed (every : Duration) (extension : Option Duration) {start : Instant}
    {es : List Event} (hstart : start ≤ Instant.horizon)
    (htimely : (initial every extension start).OnTime es) :
    let σ := (initial every extension start).run es
    (σ.Settled → ∀ owner w, σ.waiter? owner = some w →
      (σ.lock.lease? w.request.id).isSome ∧
        ∃ a, σ.lastAttempt? owner = some a ∧ a.request = w.request ∧
          (∃ l, a.found = some l ∧ a.instant < l.expires ∧ l.holder ≠ w.request.holder) ∧
          σ.now < Instant.ceilMilli (a.instant + every.nanos) ∧
          (Instant.ceilMilli σ.now = σ.now → σ.now < a.instant + every.nanos)) ∧
      ∀ owner w l, σ.waiter? owner = some w → σ.lock.lease? w.request.id = some l →
        l.expires ≤ σ.now → ∀ fs, σ.OnTime fs → (∀ e ∈ fs, Stays owner w.request e) →
          (σ.run fs).Settled → Instant.ceilMilli (l.expires + every.nanos) ≤ (σ.run fs).now →
            ∃ new, (σ.run fs).log = σ.log ++ new ∧
              ∃ a ∈ new, a.owner = owner ∧ a.request = w.request ∧ l.expires ≤ a.instant ∧
                a.instant ≤ Instant.ceilMilli (l.expires + every.nanos) := by
  intro σ
  have hsound : Sound every σ := (sound_initial every extension hstart).run htimely
  refine ⟨?_, ?_⟩
  · intro hsettled owner w hw
    obtain ⟨-, a, ha, hdue⟩ := hsound.asleep owner w hw
    have hrests := hsettled.2 w (List.mem_of_find?_eq_some hw)
    obtain ⟨hnotified, hasleep⟩ : w.notified = false ∧ w.retry.rings σ.now = false := by
      simpa [Waiter.isDue] using hrests
    have hnow : σ.now < Instant.ceilMilli (a.instant + every.nanos) :=
      Nat.lt_of_lt_of_le (Nat.lt_of_not_le (of_decide_eq_false hasleep)) hdue
    refine ⟨ha.leased.resolve_right fun h => ?_, a, ha.last, ha.request, ha.conflict, hnow, ?_⟩
    · cases hnotified.symm.trans h
    · -- at a whole millisecond it has not come to the end of the interval either
      intro hwhole
      refine Nat.lt_of_not_le fun hover => ?_
      have hceil := Instant.ceilMilli_mono hover
      rw [hwhole] at hceil
      exact Nat.not_lt_of_le hceil hnow
  · intro owner w l hw hl hexpired fs hfs hstays hsettled hlate
    obtain ⟨hearly, a, ha, hdue⟩ := hsound.asleep owner w hw
    have hby : w.retry.due ≤ Instant.ceilMilli (l.expires + every.nanos) :=
      Nat.le_trans hdue (Instant.ceilMilli_mono (Nat.add_le_add_right (ha.fresh l hl) _))
    have hpending : σ.Pending owner w.request w.retry.due := .asleep hw rfl rfl
    rcases hpending.run hsound hearly hfs hstays with hstill | htried
    · exact absurd hsettled (hstill.not_settled (Nat.le_trans hby hlate))
    · obtain ⟨new, hnew, b, hb, howner, hr, hlater, hdone⟩ := htried
      exact ⟨new, hnew, b, hb, howner, hr, Nat.le_trans hexpired hlater, Nat.le_trans hdone hby⟩

/-- A lock is given back after a call was refused and before it sleeps. The call is
told, and takes the lock at its next attempt. Another call waits until the lease
has expired, and finds the lock free when its alarm rings. -/
theorem no_release_missed_in_between :
    let every := Duration.ofMillis 100
    let σ₀ := initial every none 0
    let b : LockRequest := ⟨"k", "b", .ofMillis 120⟩
    let c : LockRequest := ⟨"k", "c", .ofSecs 1⟩
    let tries (owner : Nat) (r : LockRequest) : List Event := [.register owner r, .attempt owner]
    let es : List Event :=
      [.tryLock ⟨"k", "a", .ofSecs 1⟩] ++ tries 0 b ++ [.dropGuard 0, .sleep 0] ++ tries 0 b ++
        tries 1 c ++ [.sleep 1, .pass (.ofMillis 100)] ++ tries 1 c ++
        [.sleep 1, .pass (.ofMillis 50)]
    let fs : List Event := [.pass (.ofMillis 50)] ++ tries 1 c ++ [.pass (.ofMillis 20)]
    let σ := σ₀.run es
    let w : Waiter := ⟨1, c, ⟨.ofMillis 200, 13⟩, false⟩
    let l : Lease := ⟨"b", .ofMillis 120⟩
    (0 ≤ Instant.horizon ∧ σ₀.OnTime es ∧ σ.Settled) ∧
      (σ.waiter? 1 = some w ∧ σ.lock.lease? "k" = some l ∧ l.expires ≤ σ.now) ∧
      (σ.OnTime fs ∧ (∀ e ∈ fs, Stays 1 c e) ∧ (σ.run fs).Settled ∧
        Instant.ceilMilli (l.expires + every.nanos) ≤ (σ.run fs).now) ∧
      (∃ a, σ.lastAttempt? 1 = some a ∧ σ.now < Instant.ceilMilli (a.instant + every.nanos)) ∧
      ∃ new, (σ.run fs).log = σ.log ++ new ∧
        ∃ a ∈ new, a.owner = 1 ∧ a.request = c ∧ l.expires ≤ a.instant ∧
          a.instant ≤ Instant.ceilMilli (l.expires + every.nanos) := by
  intro every σ₀ b c tries es fs σ w l
  have hclock : 0 ≤ Instant.horizon := Nat.zero_le _
  have htimely : σ₀.OnTime es := by decide +kernel
  have hsettled : σ.Settled := by decide +kernel
  have hw : σ.waiter? 1 = some w := by decide +kernel
  have hl : σ.lock.lease? "k" = some l := by decide +kernel
  have hexpired : l.expires ≤ σ.now := by decide +kernel
  have hlater : σ.OnTime fs ∧ (∀ e ∈ fs, Stays 1 c e) ∧ (σ.run fs).Settled ∧
      Instant.ceilMilli (l.expires + every.nanos) ≤ (σ.run fs).now := by decide +kernel
  obtain ⟨hlast, hnext⟩ := no_release_missed every none hclock htimely
  obtain ⟨-, a, ha, -, -, hrecent, -⟩ := hlast hsettled 1 w hw
  exact ⟨⟨hclock, htimely, hsettled⟩, ⟨hw, hl, hexpired⟩, hlater, ⟨a, ha, hrecent⟩,
    hnext 1 w l hw hl hexpired fs hlater.1 hlater.2.1 hlater.2.2.1 hlater.2.2.2⟩

end Fleet.Acquiring.State
