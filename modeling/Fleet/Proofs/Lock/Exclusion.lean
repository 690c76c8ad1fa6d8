import Fleet.Proofs.Lock.Calls

/-!
# Locked calls exclude each other

In every run whose clock wakes keepers on time,

* **inside** — at most one call is inside for each lock, and nobody else can
  take the lock then;
* **afterwards** — however a call ended, no lease is under its holder, then or
  at any later time, and no keeper runs under it

(`calls_exclude`). Both need that a lease whose end the clock cannot show
outlasts the interval too (`State.Shown`): it is for thirty years only, and with
an interval as long as that two calls meet (`calls_meet_after_thirty_years`).
-/

namespace Fleet

namespace Locking

open LockService

namespace State

/-! ## The invariant -/

/-- What is true of every state of a run: all that is under the holder of a call
is what it holds while it is inside, and that is kept. -/
structure Sound (every : Duration) (σ : State) : Prop where
  numbered : σ.service.Numbered
  extension : σ.service.extension = some every
  clock : σ.now + Instant.farAhead.nanos ≤ Instant.horizon
  longer : ∀ c ∈ σ.calls, every.nanos < c.request.ttl.nanos
  distinct : (σ.calls.map fun c => c.request.holder).Nodup
  confined : ∀ c ∈ σ.calls, σ.service.Confined c.request.holder c.place
  kept : ∀ c ∈ σ.calls, ∀ n, c.phase = .inside n →
    ∃ expires alarm, σ.service.Kept every σ.now c.request n expires alarm

theorem place_of_inside {c : LockedCall} {n : Nat} (h : c.phase = .inside n) :
    c.place = some (c.request.id, n) := by
  simp [LockedCall.place, h]

section

variable {every : Duration} {σ : State}

theorem lasts {now : Instant} {r : LockRequest}
    (hclock : now + Instant.farAhead.nanos ≤ Instant.horizon)
    (hlonger : every.nanos < r.ttl.nanos)
    (hshown : every.nanos < Instant.farAhead.nanos ∨ now + r.ttl.nanos ≤ Instant.horizon) :
    now + every.nanos < Instant.deadline now r.ttl := by
  unfold Instant.deadline Instant.deadline? Instant.add?
  by_cases hend : now + r.ttl.nanos ≤ Instant.horizon
  · simp [hend, hlonger]
  · simp [hend, hclock, hshown.resolve_right hend]

theorem Sound.index_eq (h : Sound every σ) {i j : Nat} {c d : LockedCall}
    (hi : σ.calls[i]? = some c) (hj : σ.calls[j]? = some d)
    (hholder : c.request.holder = d.request.holder) : i = j := by
  obtain ⟨hlt, -⟩ := List.getElem?_eq_some_iff.mp hi
  refine (List.getElem?_inj (by simpa using hlt) h.distinct).mp ?_
  simp [hi, hj, hholder]

theorem Sound.lasts (h : Sound every σ) (hshown : σ.Shown every) {c : LockedCall}
    (hc : c ∈ σ.calls) : σ.now + every.nanos < Instant.deadline σ.now c.request.ttl :=
  State.lasts h.clock (h.longer c hc) (hshown.imp id fun hs => hs c hc)

/-! ## Steps -/

theorem inside_of_place {c : LockedCall} {id : String} {n : Nat} (h : c.place = some (id, n)) :
    c.phase = .inside n ∧ id = c.request.id := by
  unfold LockedCall.place at h
  split at h
  · next hphase => simp_all
  · cases h

/-- What the service does for others leaves the calls as they are. -/
theorem Sound.serve (h : Sound every σ) {L : LockService} (hnumbered : L.Numbered)
    (hextension : L.extension = σ.service.extension)
    (hconfined : ∀ c ∈ σ.calls, L.Confined c.request.holder c.place)
    (hkept : ∀ c ∈ σ.calls, ∀ n, c.phase = .inside n →
      ∃ expires alarm, L.Kept every σ.now c.request n expires alarm) (stamp : Nat) :
    Sound every ⟨L, σ.calls, σ.now, stamp⟩ :=
  ⟨hnumbered, hextension.trans h.extension, h.clock, h.longer, h.distinct, hconfined, hkept⟩

theorem Sound.same (h : Sound every σ) {L : LockService} (hL : σ.service.SameHoldings L)
    (stamp : Nat) : Sound every ⟨L, σ.calls, σ.now, stamp⟩ := by
  refine h.serve (hL.numbered h.numbered) hL.extension (fun c hc => hL.confined (h.confined c hc))
    (fun c hc n hphase => ?_) stamp
  obtain ⟨expires, alarm, hkept⟩ := h.kept c hc n hphase
  exact ⟨expires, alarm, hL.kept hkept⟩

/-- Somebody else takes a lock that is open. -/
theorem Sound.taken (h : Sound every σ) {r : LockRequest} (hopen : σ.service.Open σ.now r)
    (hother : ∀ c ∈ σ.calls, c.request.holder ≠ r.holder) (stamp : Nat) :
    Sound every ⟨σ.service.taken σ.now r, σ.calls, σ.now, stamp⟩ := by
  refine h.serve (h.numbered.taken σ.now r) rfl
    (fun c hc => (h.confined c hc).taken (hother c hc).symm) (fun c hc n hphase => ?_) stamp
  obtain ⟨expires, alarm, hkept⟩ := h.kept c hc n hphase
  exact ⟨expires, alarm, hkept.taken hopen (hother c hc).symm⟩

theorem Sound.tryLock (h : Sound every σ) {r : LockRequest}
    (hother : ∀ c ∈ σ.calls, c.request.holder ≠ r.holder) (stamp : Nat) :
    Sound every ⟨(σ.service.tryLock σ.now r).1, σ.calls, σ.now, stamp⟩ := by
  rcases σ.service.open_or_conflict σ.now r with hopen | ⟨x, hx, hne⟩
  · rw [tryLock_of_open hopen]
    exact h.taken hopen hother stamp
  · rw [tryLock_of_holder hx hne]
    exact h.same (.refl _) stamp

theorem Sound.attempt (h : Sound every σ) {r : LockRequest}
    (hother : ∀ c ∈ σ.calls, c.request.holder ≠ r.holder) (owner stamp : Nat) :
    Sound every ⟨(σ.service.attempt owner r σ.now σ.stamp).1, σ.calls, σ.now, stamp⟩ := by
  rcases σ.service.attempt_cases owner r σ.now σ.stamp with ⟨hopen, hsame, -⟩ | ⟨hsame, -⟩
  · exact (h.taken hopen hother stamp).same hsame stamp
  · exact h.same hsame stamp

/-- Somebody else drops a guard. -/
theorem Sound.dropGuard (h : Sound every σ) {n : Nat}
    (hother : ∀ c ∈ σ.calls, c.phase ≠ .inside n) (stamp : Nat) :
    Sound every ⟨(σ.service.dropGuard n).1, σ.calls, σ.now, stamp⟩ := by
  cases hg : σ.service.guard? n with
  | none =>
    rw [dropGuard_of_none hg]
    exact h.same (.refl _) stamp
  | some g =>
    obtain ⟨hnumber, hmem⟩ := number_of_guard? hg
    have hdropped : Sound every ⟨σ.service.dropped g, σ.calls, σ.now, stamp⟩ := by
      refine h.serve (h.numbered.dropped g) rfl (fun c hc => (h.confined c hc).dropped g)
        (fun c hc m hphase => ?_) stamp
      obtain ⟨expires, alarm, hkept⟩ := h.kept c hc m hphase
      have hne : g.number ≠ m := by
        rintro rfl
        exact hother c hc (hnumber ▸ hphase)
      have hholder : g.request.holder ≠ c.request.holder := by
        intro heq
        obtain ⟨id, hplace⟩ := (h.confined c hc).guards g hmem heq
        rw [place_of_inside hphase] at hplace
        simp_all
      exact ⟨expires, alarm, hkept.dropped hne hholder⟩
    exact hdropped.same (dropGuard_of_guard hg) stamp

theorem Sound.wake (h : Sound every σ) (hshown : σ.Shown every)
    (hexact : (Alarm.after σ.now every σ.stamp).due = σ.now + every.nanos) (n stamp : Nat) :
    Sound every ⟨σ.service.keeperTurn n σ.now σ.stamp, σ.calls, σ.now, stamp⟩ := by
  have hstep := σ.service.keeperStep n σ.now σ.stamp
  -- a keeper that runs under the holder of a call is the one of its guard
  have hown : ∀ c ∈ σ.calls, ∀ k, σ.service.keeper? n = some k → k.stopped = false →
      k.request.holder = c.request.holder → c.place = some (k.request.id, n) := by
    intro c hc k hk hruns hholder
    obtain ⟨hnumber, hmem⟩ := number_of_keeper? hk
    obtain ⟨id, hplace⟩ := (h.confined c hc).keepers k hmem hruns hholder
    rw [hnumber] at hplace
    obtain ⟨hphase, rfl⟩ := inside_of_place hplace
    obtain ⟨expires, alarm, hkept⟩ := h.kept c hc n hphase
    obtain rfl := Option.some.inj (hkept.keeper.symm.trans hk)
    exact hplace
  refine h.serve (h.numbered.keeperStep hstep) hstep.extension
    (fun c hc => (h.confined c hc).keeperStep hstep (hown c hc)) (fun c hc m hphase => ?_) stamp
  obtain ⟨expires, alarm, hkept⟩ := h.kept c hc m hphase
  refine hkept.keeperStep hstep hexact (h.lasts hshown hc) fun k hk hruns hholder => ?_
  have hplace := hown c hc k hk hruns hholder
  rw [place_of_inside hphase] at hplace
  simp_all

theorem Sound.pass (h : Sound every σ) {t : Instant}
    (hclock : t + Instant.farAhead.nanos ≤ Instant.horizon)
    (hawake : ∀ k ∈ σ.service.keepers, k.stopped = false → k.alarm.any fun a => t ≤ a.due)
    (stamp : Nat) : Sound every ⟨σ.service, σ.calls, t, stamp⟩ := by
  refine ⟨h.numbered, h.extension, hclock, h.longer, h.distinct, h.confined,
    fun c hc n hphase => ?_⟩
  obtain ⟨expires, alarm, hkept⟩ := h.kept c hc n hphase
  refine ⟨expires, alarm, hkept.pass fun k hk hruns => ?_⟩
  have hany := hawake k hk hruns
  rw [Option.any_eq_true] at hany
  obtain ⟨a, halarm, hle⟩ := hany
  exact ⟨a, halarm, by simpa using hle⟩

theorem Unused.confined {holder : String} (h : σ.Unused holder) :
    σ.service.Confined holder none := by
  obtain ⟨-, hleases, hguards, hkeepers⟩ := h
  refine ⟨fun id l hl hholder => ?_, fun g hg hholder => ?_, fun k hk _ hholder => ?_⟩
  · exact absurd hholder (hleases _ (Registry.mem_of_get? hl))
  · exact absurd hholder (hguards g hg)
  · exact absurd hholder (hkeepers k hk)

theorem Sound.start (h : Sound every σ) {c : LockedCall} (hphase : c.phase = .waiting)
    (hlonger : every.nanos < c.request.ttl.nanos) (hunused : σ.Unused c.request.holder)
    (stamp : Nat) : Sound every ⟨σ.service, σ.calls ++ [c], σ.now, stamp⟩ := by
  have hmem {d : LockedCall} (hd : d ∈ σ.calls ++ [c]) : d ∈ σ.calls ∨ d = c := by simpa using hd
  have hdistinct : ((σ.calls ++ [c]).map fun c => c.request.holder).Nodup := by
    rw [List.map_append, List.nodup_append]
    refine ⟨h.distinct, by simp, ?_⟩
    rintro holder hholder other hother rfl
    obtain ⟨d, hd, rfl⟩ := List.mem_map.mp hholder
    exact hunused.1 d hd (by simpa using hother)
  refine ⟨h.numbered, h.extension, h.clock, fun d hd => ?_, hdistinct, fun d hd => ?_,
    fun d hd n hinside => ?_⟩
  · rcases hmem hd with hd | rfl
    · exact h.longer d hd
    · exact hlonger
  · rcases hmem hd with hd | rfl
    · exact h.confined d hd
    · simpa [LockedCall.place, hphase] using hunused.confined
  · rcases hmem hd with hd | rfl
    · exact h.kept d hd n hinside
    · rw [hphase] at hinside
      cases hinside

/-- A call moves on, and those under other holders are left alone. -/
theorem Sound.change (h : Sound every σ) {i : Nat} {c d : LockedCall} (hi : σ.calls[i]? = some c)
    (hd : d.request = c.request) {L : LockService} (hnumbered : L.Numbered)
    (hextension : L.extension = σ.service.extension)
    (hconfined : L.Confined d.request.holder d.place)
    (hkept : ∀ n, d.phase = .inside n →
      ∃ expires alarm, L.Kept every σ.now d.request n expires alarm)
    (hothers : ∀ e ∈ σ.calls, e.request.holder ≠ c.request.holder →
      L.Confined e.request.holder e.place ∧ ∀ n, e.phase = .inside n →
        ∃ expires alarm, L.Kept every σ.now e.request n expires alarm) (stamp : Nat) :
    Sound every ⟨L, σ.calls.set i d, σ.now, stamp⟩ := by
  have hmem {e : LockedCall} (he : e ∈ σ.calls.set i d) :
      e = d ∨ e ∈ σ.calls ∧ e.request.holder ≠ c.request.holder := by
    obtain ⟨j, hj⟩ := List.mem_iff_getElem?.mp he
    rw [List.getElem?_set] at hj
    split at hj
    · next hij =>
      split at hj
      · exact .inl (Option.some.inj hj).symm
      · cases hj
    · next hij =>
      refine .inr ⟨List.mem_of_getElem? hj, fun hholder => hij ?_⟩
      exact (h.index_eq hj hi hholder).symm
  have hholders : ((σ.calls.set i d).map fun c => c.request.holder) =
      σ.calls.map fun c => c.request.holder := by
    rw [List.map_set]
    apply List.ext_getElem?
    intro j
    rw [List.getElem?_set]
    split
    · next hij =>
      subst hij
      obtain ⟨hlt, rfl⟩ := List.getElem?_eq_some_iff.mp hi
      simp [hlt, hd]
    · rfl
  refine ⟨hnumbered, hextension.trans h.extension, h.clock, fun e he => ?_,
    hholders ▸ h.distinct, fun e he => ?_, fun e he n hphase => ?_⟩
  · rcases hmem he with rfl | ⟨he, -⟩
    · rw [hd]
      exact h.longer c (List.mem_of_getElem? hi)
    · exact h.longer e he
  · rcases hmem he with rfl | ⟨he, hne⟩
    · exact hconfined
    · exact (hothers e he hne).1
  · rcases hmem he with rfl | ⟨he, hne⟩
    · exact hkept n hphase
    · exact (hothers e he hne).2 n hphase

/-- A call that is not inside moves on without touching what is held. -/
theorem Sound.change_same (h : Sound every σ) {i : Nat} {c : LockedCall} (hi : σ.calls[i]? = some c)
    {L : LockService} (hL : σ.service.SameHoldings L) {phase : LockedPhase}
    (hplace : c.place = none) (hphase : ∀ n, phase ≠ .inside n) (stamp : Nat) :
    Sound every ⟨L, σ.calls.set i { c with phase }, σ.now, stamp⟩ := by
  have hsame := h.same hL stamp
  refine h.change (d := { c with phase }) hi rfl hsame.numbered hL.extension ?_
    (fun n hn => absurd hn (hphase n)) (fun e he _ => ⟨hsame.confined e he, hsame.kept e he⟩) stamp
  have hconfined := hsame.confined c (List.mem_of_getElem? hi)
  rw [hplace] at hconfined
  have hnone : LockedCall.place { c with phase } = none := by
    unfold LockedCall.place
    split
    · next n hn => exact absurd hn (hphase n)
    · rfl
  rw [hnone]
  exact hconfined

theorem Sound.turn (h : Sound every σ) (hshown : σ.Shown every) {i : Nat} {c : LockedCall}
    (hi : σ.calls[i]? = some c) (stamp : Nat) :
    Sound every ⟨(c.turn σ.service σ.now σ.stamp).1,
      σ.calls.set i (c.turn σ.service σ.now σ.stamp).2, σ.now, stamp⟩ := by
  have hc := List.mem_of_getElem? hi
  have hwaiting (hphase : c.phase = .waiting) : c.place = none := by
    simp [LockedCall.place, hphase]
  have hstep := c.turnStep σ.service σ.now σ.stamp
  generalize c.turn σ.service σ.now σ.stamp = result at hstep
  cases hstep with
  | stays hsame =>
    have h' := h.same hsame stamp
    exact h.change hi rfl h'.numbered hsame.extension (h'.confined c hc) (h'.kept c hc)
      (fun e he _ => ⟨h'.confined e he, h'.kept e he⟩) stamp
  | refused hphase hsame =>
    exact h.change_same hi hsame (hwaiting hphase) (by simp) stamp
  | @enters L hphase hopen hsame =>
    have hnone := h.confined c hc
    rw [hwaiting hphase] at hnone
    refine h.change (d := { c with phase := .inside σ.service.nextNumber }) hi rfl
      (hsame.numbered (h.numbered.taken σ.now c.request)) hsame.extension
      (hsame.confined hnone.taken_self) (fun n hn => ?_)
      (fun e he hne => ⟨?_, fun n hn => ?_⟩) stamp
    · obtain rfl := LockedPhase.inside.inj hn
      exact ⟨_, _, hsame.kept (kept_taken h.numbered h.extension (h.lasts hshown hc))⟩
    · exact hsame.confined ((h.confined e he).taken hne.symm)
    · obtain ⟨expires, alarm, hkept⟩ := h.kept e he n hn
      exact ⟨expires, alarm, hsame.kept (hkept.taken hopen hne.symm)⟩

theorem Sound.leave (h : Sound every σ) {i : Nat} {c : LockedCall} (hi : σ.calls[i]? = some c)
    (stamp : Nat) :
    Sound every ⟨(c.leave σ.service).1, σ.calls.set i (c.leave σ.service).2.1, σ.now, stamp⟩ := by
  have hc := List.mem_of_getElem? hi
  unfold LockedCall.leave LockedCall.letGo
  cases hphase : c.phase with
  | waiting =>
    exact h.change_same hi (sameHoldings_abandon ..) (by simp [LockedCall.place, hphase])
      (by simp) stamp
  | inside n =>
    obtain ⟨expires, alarm, hkept⟩ := h.kept c hc n hphase
    have hsame := dropGuard_of_guard hkept.guard
    have hconfined := h.confined c hc
    rw [place_of_inside hphase] at hconfined
    refine h.change (d := { c with phase := .over }) hi rfl
      (hsame.numbered (h.numbered.dropped _)) hsame.extension
      (hsame.confined hconfined.dropped_self) (by simp) (fun e he hne => ⟨?_, fun m hm => ?_⟩) stamp
    · exact hsame.confined ((h.confined e he).dropped _)
    · obtain ⟨expires', alarm', hkept'⟩ := h.kept e he m hm
      have hnumber : n ≠ m := by
        rintro rfl
        have hguard := hkept.guard.symm.trans hkept'.guard
        simp only [Option.some.injEq, Guard.mk.injEq, true_and] at hguard
        exact hne (by rw [hguard])
      exact ⟨expires', alarm', hsame.kept (hkept'.dropped hnumber hne.symm)⟩
  | _ =>
    exact h.change_same hi (.refl _) (by simp [LockedCall.place, hphase]) (by simp) stamp

theorem Sound.step (h : Sound every σ) (hshown : σ.Shown every) {e : Event}
    (hallowed : σ.Allowed every e) : Sound every (σ.step e) := by
  cases e with
  | start owner r limit =>
    exact h.start (c := { acquisition := .start owner r limit σ.now σ.stamp }) rfl hallowed.1
      hallowed.2 (σ.stamp + 1)
  | turn i =>
    cases hi : σ.calls[i]? with
    | none => simpa [State.step, act, State.clock, hi] using h.same (.refl _) (σ.stamp + 1)
    | some c => simpa [State.step, act, State.clock, hi] using h.turn hshown hi (σ.stamp + 1)
  | leave i =>
    cases hi : σ.calls[i]? with
    | none => simpa [State.step, act, State.clock, hi] using h.same (.refl _) (σ.stamp + 1)
    | some c => simpa [State.step, act, State.clock, hi] using h.leave hi (σ.stamp + 1)
  | wake n => exact h.wake hshown hallowed n (σ.stamp + 1)
  | tryLock r => exact h.tryLock hallowed (σ.stamp + 1)
  | attempt owner r => exact h.attempt hallowed owner (σ.stamp + 1)
  | abandon owner => exact h.same (sameHoldings_abandon ..) (σ.stamp + 1)
  | dropGuard n => exact h.dropGuard hallowed (σ.stamp + 1)
  | pass t => exact h.pass hallowed.2.1 hallowed.2.2 (σ.stamp + 1)

theorem Sound.run (h : Sound every σ) {es : List Event}
    (hes : σ.Along (fun σ e => σ.Allowed every e ∧ σ.Shown every) es) :
    Sound every (σ.run es) := by
  induction es generalizing σ with
  | nil => exact h
  | cons e rest ih => exact ih (h.step hes.1.2 hes.1.1) hes.2

/-- A call that ended does not go on. -/
theorem ended_step {i : Nat} {c : LockedCall} (hi : σ.calls[i]? = some c) (hended : c.Ended)
    (e : Event) :
    ∃ d, (σ.step e).calls[i]? = some d ∧ d.Ended ∧ d.request = c.request := by
  obtain ⟨hlt, hget⟩ := List.getElem?_eq_some_iff.mp hi
  cases e with
  | start => exact ⟨c, by simpa [State.step, act, List.getElem?_append_left hlt], hended, rfl⟩
  | turn j =>
    by_cases hj : j = i
    · subst hj
      have hturn : (c.turn σ.service σ.now σ.stamp).2 = c := by
        rcases hended with hphase | hphase <;> simp [LockedCall.turn, hphase]
      exact ⟨c, by simp [State.step, act, hlt, hget, hturn], hended, rfl⟩
    · refine ⟨c, ?_, hended, rfl⟩
      cases hcall : σ.calls[j]? <;> simp [State.step, act, hcall, List.getElem?_set_ne hj, hi]
  | leave j =>
    by_cases hj : j = i
    · subst hj
      exact ⟨{ c with phase := .over }, by simp [State.step, act, LockedCall.leave, hlt, hget],
        .inr rfl, rfl⟩
    · refine ⟨c, ?_, hended, rfl⟩
      cases hcall : σ.calls[j]? <;> simp [State.step, act, hcall, List.getElem?_set_ne hj, hi]
  | _ => exact ⟨c, hi, hended, rfl⟩

theorem ended_run {i : Nat} {c : LockedCall} (hi : σ.calls[i]? = some c) (hended : c.Ended)
    (es : List Event) :
    ∃ d, (σ.run es).calls[i]? = some d ∧ d.Ended ∧ d.request = c.request := by
  induction es generalizing σ c with
  | nil => exact ⟨c, hi, hended, rfl⟩
  | cons e rest ih =>
    obtain ⟨d, hd, hdended, hdrequest⟩ := ended_step hi hended e
    obtain ⟨f, hf, hfended, hfrequest⟩ := ih hd hdended
    exact ⟨f, hf, hfended, hfrequest.trans hdrequest⟩

theorem Sound.confined_of_ended (h : Sound every σ) {c : LockedCall} (hc : c ∈ σ.calls)
    (hended : c.Ended) : σ.service.Confined c.request.holder none := by
  have hconfined := h.confined c hc
  have hplace : c.place = none := by
    rcases hended with hphase | hphase <;> simp [LockedCall.place, hphase]
  rwa [hplace] at hconfined

end

/-- A lock service that extends its leases, before anything has happened. -/
def initial (every retry : Duration) (now : Instant) : State :=
  { service := { retry, extension := some every }, now }

theorem sound_initial {every : Duration} (retry : Duration) {now : Instant}
    (hclock : now + Instant.farAhead.nanos ≤ Instant.horizon) :
    Sound every (initial every retry now) where
  numbered := ⟨by simp [initial], by simp [initial]⟩
  extension := rfl
  clock := hclock
  longer := by simp [initial]
  distinct := by simp [initial]
  confined := by simp [initial]
  kept := by simp [initial]

/-! ## Exclusion -/

/-- Calls exclude each other and everybody else from the lock that they are
inside for, and leave nothing behind. -/
theorem calls_exclude {every retry : Duration} {now : Instant} {es fs : List Event}
    (hclock : now + Instant.farAhead.nanos ≤ Instant.horizon)
    (hrun : (initial every retry now).Along (fun σ e => σ.Allowed every e ∧ σ.Shown every)
      (es ++ fs)) :
    let σ := (initial every retry now).run es
    (∀ (i j : Nat) (c d : LockedCall) (n m : Nat), σ.calls[i]? = some c → σ.calls[j]? = some d →
      c.phase = .inside n → d.phase = .inside m → c.request.id = d.request.id → i = j) ∧
    (∀ c ∈ σ.calls, ∀ n, c.phase = .inside n → ∀ r : LockRequest, r.id = c.request.id →
      r.holder ≠ c.request.holder →
        σ.service.tryLock σ.now r = (σ.service, .error (.conflict r.id c.request.holder))) ∧
    ∀ (i : Nat) (c : LockedCall), σ.calls[i]? = some c → c.Ended →
      (∀ id l, (σ.run fs).service.table.lease? id = some l → l.holder ≠ c.request.holder) ∧
      ∀ k ∈ (σ.run fs).service.keepers, k.request.holder = c.request.holder → k.stopped := by
  intro σ
  obtain ⟨hes, hfs⟩ := along_append.mp hrun
  have hsound : Sound every σ := (sound_initial retry hclock).run hes
  refine ⟨fun i j c d n m hi hj hc hd hid => ?_, fun c hc n hphase r hid hne => ?_,
    fun i c hi hended => ?_⟩
  · obtain ⟨expires, alarm, hkept⟩ := hsound.kept c (List.mem_of_getElem? hi) n hc
    obtain ⟨expires', alarm', hkept'⟩ := hsound.kept d (List.mem_of_getElem? hj) m hd
    have hlease := hkept'.lease
    rw [← hid, hkept.lease] at hlease
    exact hsound.index_eq hi hj (congrArg Lease.holder (Option.some.inj hlease))
  · obtain ⟨expires, alarm, hkept⟩ := hsound.kept c hc n hphase
    exact hkept.tryLock hid hne
  · obtain ⟨d, hd, hdended, hrequest⟩ := ended_run hi hended fs
    have hnone := (hsound.run hfs).confined_of_ended (List.mem_of_getElem? hd) hdended
    rw [hrequest] at hnone
    refine ⟨fun id l hl hholder => ?_, fun k hk hholder => ?_⟩
    · simpa using hnone.leases id l hl hholder
    · by_cases hruns : k.stopped
      · exact hruns
      · simpa using hnone.keepers k hk (by simpa using hruns) hholder

/-- One call is inside for longer than its lease while another one waits; then
the first call leaves and the second one goes in. Somebody else cannot take the
lock, and the first call leaves no lease behind. -/
theorem calls_exclude_two_calls :
    let every := Duration.ofSecs 1
    let σ₀ := initial every (.ofMillis 100) 0
    let es : List Event :=
      [.start 0 ⟨"k", "a", .ofSecs 2⟩ none, .start 1 ⟨"k", "b", .ofSecs 2⟩ none,
        .turn 0, .wake 0, .turn 1, .pass (.ofMillis 1000), .wake 0, .pass (.ofMillis 2000), .wake 0,
        .tryLock ⟨"k", "c", .ofSecs 2⟩, .leave 0, .turn 1]
    let fs : List Event := [.wake 0, .wake 1, .pass (.ofMillis 3000)]
    let σ := σ₀.run es
    (0 + Instant.farAhead.nanos ≤ Instant.horizon ∧
      σ₀.Along (fun σ e => σ.Allowed every e ∧ σ.Shown every) (es ++ fs) ∧
      σ.calls.map (fun c => (c.request.holder, c.phase)) = [("a", .over), ("b", .inside 1)]) ∧
    (∀ c ∈ σ.calls, ∀ n, c.phase = .inside n → ∀ r : LockRequest, r.id = c.request.id →
      r.holder ≠ c.request.holder →
        σ.service.tryLock σ.now r = (σ.service, .error (.conflict r.id c.request.holder))) ∧
    ∀ id l, (σ.run fs).service.table.lease? id = some l → l.holder ≠ "a" := by
  intro every σ₀ es fs σ
  have hclock : 0 + Instant.farAhead.nanos ≤ Instant.horizon := by decide
  have hrun : σ₀.Along (fun σ e => σ.Allowed every e ∧ σ.Shown every) (es ++ fs) := by
    decide +kernel
  have hfirst : σ.calls[0]? = some ⟨⟨0, ⟨"k", "a", .ofSecs 2⟩, none⟩, .over⟩ := by decide +kernel
  obtain ⟨-, htaken, hended⟩ := calls_exclude hclock hrun
  exact ⟨⟨hclock, hrun, by decide +kernel⟩, htaken, (hended 0 _ hfirst (.inr rfl)).1⟩

/-- A lease for longer than the clock can show lasts thirty years. With an
interval of thirty years the keeper is woken on time and finds the lease expired.
Then somebody else can take the lock, and a second call goes in while the first
one is inside. -/
theorem calls_meet_after_thirty_years :
    let every := Duration.ofSecs (60 * 60 * 24 * 365 * 30)
    let σ₀ := initial every every 0
    let es : List Event := [.start 0 ⟨"k", "a", .longest⟩ none, .turn 0, .wake 0,
      .pass every.nanos, .wake 0]
    let fs : List Event := [.start 1 ⟨"k", "b", .longest⟩ none, .turn 1]
    let σ := σ₀.run es
    every.nanos < Duration.longest.nanos ∧
      σ₀.Along (fun σ e => σ.Allowed every e) (es ++ fs) ∧
      σ.calls.map (fun c => (c.request.id, c.phase)) = [("k", .inside 0)] ∧
      (σ.service.tryLock σ.now ⟨"k", "b", .ofSecs 30⟩).2.isOk = true ∧
      (σ.run fs).calls.map (fun c => (c.request.id, c.phase)) =
        [("k", .inside 0), ("k", .inside 1)] := by
  decide +kernel

end State

end Locking

end Fleet
