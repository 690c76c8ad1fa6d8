import Fleet.Proofs.Engine.Standing

/-!
# No wake-up is lost

A worker that found no free host looks again only when it is given a permit,
so every event that may bring an end to its waiting has to leave one.

* **signals** — an event that leaves no permit takes no request out and frees
  no host (`quiet_step`); from this, a worker that waits without a permit
  waits for good reason in every reachable state (`signalled_run`);
* **growth** — `hints` counts how often the population has been asked to grow
  since the worker came to the host that it looks for; it is one while the
  worker waits (`hinted_run`);
* **work** — while the engine is not stopped, a request that is not fulfilled
  is queued or the worker is at it (`owed_run`).
-/

namespace Fleet

/-! ## Ways back that free nothing -/

namespace Ledger

theorem reclaim_of_not {L : Ledger} {d : String} (h : (L.reclaim d).2 = false) :
    (L.reclaim d).1 = L := by
  unfold reclaim at h ⊢
  split
  · rfl
  · next host hd =>
    rw [hd] at h
    dsimp only at h
    split
    · rfl
    · next hout =>
      rw [if_neg hout] at h
      cases h

theorem free_releaseDevice_of_not {L : Ledger} {d : String} (h : (L.releaseDevice d).2 = false) :
    (L.releaseDevice d).1.free = L.free := by
  unfold releaseDevice at h ⊢
  rw [reclaim_of_not h, free_detach]

/-- If no request was taken out, nothing happened. -/
theorem releaseAll_of_zero {L : Ledger} {ids : List String} (h : (L.releaseAll ids).2 = 0) :
    (L.releaseAll ids).1 = L := by
  induction ids generalizing L with
  | nil => rfl
  | cons id rest ih =>
    unfold releaseAll at h ⊢
    split
    · next hnone =>
      rw [hnone] at h
      exact ih h
    · next M n hsome =>
      rw [hsome] at h
      cases h

theorem free_extend? {L M : Ledger} {id : String} {term : Duration} {found : Bool}
    (h : L.extend? id term = some (M, found)) : M.free = L.free := by
  unfold extend? at h
  split at h
  · cases h; rfl
  · obtain ⟨t, -, heq⟩ := Option.map_eq_some_iff.mp h
    cases heq
    rfl

theorem free_applyChange_of_not {L : Ledger} {c : Change} (h : (L.applyChange c).2 = false)
    (hfree : L.free = []) : (L.applyChange c).1.free = [] := by
  unfold applyChange at h ⊢
  cases c with
  | added host =>
    dsimp only at h ⊢
    split
    · exact hfree
    · next hnew =>
      rw [if_neg hnew] at h
      have hleased : L.isLeased host.deviceId = true := by simpa using h
      rw [if_pos hleased, hfree]
      rfl
  | removed host =>
    dsimp only
    split
    · rw [hfree]
      rfl
    · exact hfree

end Ledger

namespace Engine

/-! ## Signals -/

/-- If no permit is left, no request has expired. -/
theorem ledger_releaseExpired {σ : Engine} {now : Instant}
    (hq : (σ.releaseExpired now).1.permit = false) :
    (σ.releaseExpired now).1.ledger = σ.ledger := by
  have hq : (σ.permit || decide (0 < (σ.ledger.releaseExpired now).2)) = false := hq
  have hzero : ¬0 < (σ.ledger.releaseExpired now).2 :=
    of_decide_eq_false (Bool.or_eq_false_iff.mp hq).2
  exact Ledger.releaseAll_of_zero (by unfold Ledger.releaseExpired at hzero; omega)

/-- An event that leaves no permit takes no request out and frees no host. -/
theorem quiet_step {σ : Engine} {e : Event} (hL : σ.ledger.Sound) (he : e ≠ .work)
    (hq : (σ.step e).permit = false) :
    (∀ id, (σ.ledger.describe? id).isSome → ((σ.step e).ledger.describe? id).isSome) ∧
      (σ.ledger.free = [] → (σ.step e).ledger.free = []) := by
  cases e with
  | submit now r =>
    by_cases h : σ.Admits r
    · rw [step_submit h]
      refine ⟨fun id hlive => ?_, fun hfree => hfree⟩
      show ((σ.ledger.submit r.id _).describe? id).isSome
      rw [Ledger.describe?_submit]
      split
      · rfl
      · exact hlive
    · rw [step_submit_of_not h]
      exact ⟨fun _ hlive => hlive, fun hfree => hfree⟩
  | release id =>
    -- this one leaves a permit even if the request is not there
    have hq : (σ.permit || true) = false := hq
    rw [Bool.or_true] at hq
    cases hq
  | releaseDevice d =>
    have hq : (σ.permit || (σ.ledger.releaseDevice d).2) = false := hq
    refine ⟨fun id hlive => ?_, fun hfree => ?_⟩
    · show ((σ.ledger.releaseDevice d).1.describe? id).isSome
      rw [Ledger.describe?_releaseDevice hL, Option.isSome_map]
      exact hlive
    · show (σ.ledger.releaseDevice d).1.free = []
      rw [Ledger.free_releaseDevice_of_not (Bool.or_eq_false_iff.mp hq).2]
      exact hfree
  | releaseExpired now =>
    have hsame : (σ.step (.releaseExpired now)).ledger = σ.ledger := ledger_releaseExpired hq
    rw [hsame]
    exact ⟨fun _ hlive => hlive, fun hfree => hfree⟩
  | extend other =>
    have hstep : (σ.step (.extend other)).ledger =
        (σ.ledger.extend? other σ.term).elim σ.ledger Prod.fst :=
      congrArg Engine.ledger (σ.extend_eq other)
    rw [hstep]
    cases hx : σ.ledger.extend? other σ.term with
    | none => exact ⟨fun _ hlive => hlive, fun hfree => hfree⟩
    | some p =>
      refine ⟨fun id hlive => ?_, fun hfree => ?_⟩
      · show (p.1.describe? id).isSome
        rw [Ledger.describe?_extend? hx]
        exact hlive
      · exact (Ledger.free_extend? hx).trans hfree
  | change c =>
    have hq : (σ.permit || (σ.ledger.applyChange c).2) = false := hq
    refine ⟨fun id hlive => ?_, ?_⟩
    · show ((σ.ledger.applyChange c).1.describe? id).isSome
      rw [Ledger.describe?_congr (Ledger.entries_applyChange _ c)]
      exact hlive
    · exact Ledger.free_applyChange_of_not (Bool.or_eq_false_iff.mp hq).2
  | stop => exact ⟨fun _ hlive => hlive, fun hfree => hfree⟩
  | work => exact absurd rfl he
  | reap now stamp =>
    obtain ⟨reaper, looks, h⟩ := σ.reaperTurn_eq now stamp
    have hstep : σ.step (.reap now stamp) = _ := h
    have hsame : (σ.step (.reap now stamp)).ledger = σ.ledger := by
      rw [hstep] at hq ⊢
      split at hq
      · next hlooks =>
        rw [if_pos hlooks]
        exact ledger_releaseExpired hq
      · next hlooks => rw [if_neg hlooks]
    rw [hsame]
    exact ⟨fun _ hlive => hlive, fun hfree => hfree⟩

/-- A permit is kept until the worker uses it. -/
theorem permit_step {σ : Engine} {e : Event} (he : e ≠ .work) (hp : σ.permit = true) :
    (σ.step e).permit = true := by
  cases e with
  | submit now r =>
    by_cases h : σ.Admits r
    · rw [step_submit h]
      exact hp
    · rw [step_submit_of_not h]
      exact hp
  | extend id =>
    show ((σ.extend? id).elim σ Prod.fst).permit = true
    rw [extend_eq]
    exact hp
  | stop => exact hp
  | work => exact absurd rfl he
  | release | releaseDevice | releaseExpired | change =>
    show (σ.permit || _) = true
    rw [hp, Bool.true_or]
  | reap now stamp =>
    show (σ.reaperTurn now stamp).permit = true
    obtain ⟨reaper, looks, h⟩ := σ.reaperTurn_eq now stamp
    rw [h]
    split
    · show (σ.permit || _) = true
      rw [hp, Bool.true_or]
    · exact hp

/-- A worker that waits has a permit, or its request is still there and no host
is free. -/
def Signalled (σ : Engine) : Prop :=
  ∀ r n, σ.worker = .parked r n →
    σ.permit = true ∨ ((σ.ledger.describe? r.id).isSome ∧ σ.ledger.free = [])

theorem signalled_move {σ τ : Engine} {asks : Bool} (hm : Move σ τ asks) : τ.Signalled := by
  intro r n hw
  cases hm with
  | leave | takeUp | abandon | resume => cases hw
  | skip hidle =>
    have hw : σ.worker = .parked r n := hw
    rw [hidle] at hw
    cases hw
  | @park r n hinted s hseek hs hfree =>
    cases hw
    exact Or.inr ⟨by rw [hs]; rfl, hfree⟩
  | @grant r n =>
    have hw : (if n + 1 = r.amount then Worker.idle else .seeking r (n + 1) false) = _ := hw
    split at hw <;> cases hw

theorem signalled_step {σ : Engine} (e : Event) (hL : σ.ledger.Sound) (h : σ.Signalled) :
    (σ.step e).Signalled := by
  by_cases he : e = .work
  · subst he
    rcases σ.step_work with ⟨-, heq⟩ | hm
    · rw [heq]
      exact h
    · exact signalled_move hm
  · -- the worker was waiting before, and the event left a permit or was quiet
    intro r n hw
    rw [worker_step he] at hw
    cases hq : (σ.step e).permit with
    | true => exact Or.inl rfl
    | false =>
      obtain ⟨hstays, hnone⟩ := quiet_step hL he hq
      rcases h r n hw with hp | ⟨hlive, hfree⟩
      · rw [permit_step he hp] at hq
        cases hq
      · exact Or.inr ⟨hstays r.id hlive, hnone hfree⟩

theorem signalled_run (d : EngineDraft) (members : List Host) (es : List Event) :
    ((d.engine members).run es).Signalled := by
  have hstart : (d.engine members).Signalled := fun r n hw => by cases hw
  exact reachable_induct hstart (fun σ e hL h => signalled_step e hL h) es

/-! ## Growth -/

/-- How often the population has been asked to grow since the worker came to
the host that it looks for, after a run that starts with `n` such calls. -/
def hints (σ : Engine) (n : Nat) : List Event → Nat
  | [] => n
  | e :: es =>
    let stays := (σ.step e).worker.serving? = σ.worker.serving?
    (σ.step e).hints (if stays then n + (σ.asks e).toNat else 0) es

/-- What the worker remembers of the calls for the host that it looks for. -/
def Hinted (n : Nat) : Worker → Prop
  | .seeking _ _ hinted => n = hinted.toNat
  | .parked _ _ => n = 1
  | .idle => True
  | .gone => True

theorem hinted_move {σ τ : Engine} {asks : Bool} {n : Nat} (hm : Move σ τ asks)
    (h : Hinted n σ.worker) :
    Hinted (if τ.worker.serving? = σ.worker.serving? then n + asks.toNat else 0) τ.worker := by
  cases hm with
  | leave | abandon => trivial
  | skip hw => 
    show Hinted _ σ.worker
    rw [hw]
    trivial
  | takeUp hw =>
    -- the worker comes to another host, and the count starts again
    rw [if_neg (by rw [hw]; exact Option.some_ne_none _)]
    rfl
  | @park r k hinted s hw =>
    rw [hw] at h
    have h : n = hinted.toNat := h
    rw [if_pos (by rw [hw]; rfl), h]
    -- the worker asks now if it has not asked before
    cases hinted <;> rfl
  | @grant r k hinted s host rest hw =>
    by_cases hlast : k + 1 = r.amount
    · have hidle : (σ.leasedOut r k s host rest).worker = .idle := if_pos hlast
      rw [hidle]
      trivial
    · have hnext : (σ.leasedOut r k s host rest).worker = .seeking r (k + 1) false := if_neg hlast
      have hmoves : Worker.serving? (.seeking r (k + 1) false) ≠ σ.worker.serving? := by
        rw [hw]
        simp [Worker.serving?]
      rw [hnext, if_neg hmoves]
      rfl
  | @resume r k hw =>
    rw [hw] at h
    have h : n = 1 := h
    rw [if_pos (by rw [hw]; rfl), h]
    rfl

theorem hinted_run {σ : Engine} {n : Nat} (h : Hinted n σ.worker) (es : List Event) :
    Hinted (σ.hints n es) (σ.run es).worker := by
  induction es generalizing σ n with
  | nil => exact h
  | cons e rest ih =>
    refine ih ?_
    by_cases he : e = .work
    · subst he
      rcases σ.step_work with ⟨hwait, heq⟩ | hm
      · have hno : σ.asks .work = false := by
          unfold asks
          rw [hwait]
          rfl
        rw [heq, if_pos rfl, hno]
        exact h
      · exact hinted_move hm h
    · have hno : σ.asks e = false := by
        cases e with
        | work => exact absurd rfl he
        | submit | release | releaseDevice | releaseExpired | extend | change | stop | reap => rfl
      rw [worker_step he, if_pos rfl, hno]
      exact h

/-! ## Work -/

theorem stopped_step {σ : Engine} {e : Event} (h : (σ.step e).stopped = false) :
    σ.stopped = false := by
  cases e with
  | submit now r =>
    by_cases ha : σ.Admits r
    · exact ha.running
    · rw [step_submit_of_not ha] at h
      exact h
  | extend id =>
    have hsame := congrArg Engine.stopped (σ.extend_eq id)
    exact hsame.symm.trans h
  | stop => cases h
  | work =>
    rcases σ.step_work with ⟨-, heq⟩ | hm
    · rw [heq] at h
      exact h
    · generalize σ.step .work = τ, σ.asks .work = asks at hm h
      cases hm <;> exact h
  | reap now stamp =>
    obtain ⟨reaper, looks, heq⟩ := σ.reaperTurn_eq now stamp
    have h : (σ.reaperTurn now stamp).stopped = false := h
    rw [heq] at h
    split at h
    · exact h
    · exact h
  | release | releaseDevice | releaseExpired | change => exact h

/-- A request that is not fulfilled is queued, or the worker is at it. -/
def Standing.Owed (S : Standing) : Prop :=
  S.snapshot.status = .succeeded ∨ S.queued ≠ [] ∨ S.serving?.isSome

/-- A worker that does not leave does not forget a request. -/
theorem Progress.owed {S T : Standing} {leased withdrawn : Bool}
    (h : Progress false S leased withdrawn T) (hS : S.Owed) : T.Owed := by
  cases h with
  | rest => exact hS
  | withdraw => exact hS
  | takeUp => exact Or.inr (Or.inr rfl)
  | @grant q r n s d =>
    by_cases hlast : n + 1 = r.amount
    · refine Or.inl ?_
      show (if n + 1 = r.amount then Status.succeeded else .provisioning) = .succeeded
      rw [if_pos hlast]
    · refine Or.inr (Or.inr ?_)
      show (if n + 1 = r.amount then none else some (r, n + 1)).isSome
      rw [if_neg hlast]
      rfl
  | leave hstop => cases hstop

/-- Unless the engine is stopped, every request is fulfilled or in hand. -/
def OwesAll (σ : Engine) : Prop :=
  σ.stopped = false → ∀ id s, σ.ledger.describe? id = some s → (σ.standing id s).Owed

theorem owesAll_step {σ : Engine} (e : Event) (hL : σ.ledger.Sound) (h : σ.OwesAll) :
    (σ.step e).OwesAll := by
  intro hrun id t ht
  have hrun := stopped_step hrun
  cases hs : σ.ledger.describe? id with
  | some s =>
    have hprogress := progress_step hL hs ht
    rw [hrun] at hprogress
    exact hprogress.owed (h hrun id s hs)
  | none =>
    -- a request that was not there before has just been queued
    obtain ⟨now, r, rfl, rfl, ha⟩ := exists_submit_of_unknown hL hs (by rw [ht]; rfl)
    rw [describe?_submit ha] at ht
    rw [← Option.some.inj ht, standing_submit ha]
    exact Or.inr (Or.inl (List.append_ne_nil_of_right_ne_nil _ (List.cons_ne_nil _ _)))

theorem owesAll_run (d : EngineDraft) (members : List Host) (es : List Event) :
    ((d.engine members).run es).OwesAll := by
  have hstart : (d.engine members).OwesAll := by
    intro _ id s hs
    have hnone : (d.engine members).ledger.describe? id = none :=
      Ledger.describe?_ofHosts members id
    rw [hnone] at hs
    cases hs
  exact reachable_induct hstart (fun σ e hL h => owesAll_step e hL h) es

/-- A worker that waits for a request has an empty queue. -/
theorem queue_of_waiting {σ : Engine} (hw : σ.worker = .idle) (hready : σ.workerReady = false)
    (hrun : σ.stopped = false) : σ.queue = [] := by
  cases hq : σ.queue with
  | nil => rfl
  | cons r rest =>
    have hnone : σ.workerStep? = none := by
      cases h : σ.workerStep? with
      | none => rfl
      | some p =>
        unfold workerReady at hready
        rw [h] at hready
        cases hready
    unfold workerStep? at hnone
    rw [hw, hrun, hq] at hnone
    dsimp only at hnone
    split at hnone
    · next hstop => cases hstop
    · split at hnone <;> cases hnone

/-- **No wake-up is lost.** While the engine is not stopped, a worker that waits
for a host without a permit waits for a request that is still there, no host is
free, and the population has been asked to grow once for this host; and when
the worker waits for a request, none is queued and all that are there are
fulfilled. -/
theorem no_wakeup_lost (d : EngineDraft) (members : List Host) (es : List Event)
    (hrun : ((d.engine members).run es).stopped = false) :
    let σ := d.engine members
    let τ := σ.run es
    (∀ r n, τ.worker = .parked r n → τ.permit = false →
      (τ.ledger.describe? r.id).isSome ∧ τ.ledger.free = [] ∧ σ.hints 0 es = 1) ∧
    (τ.worker = .idle → τ.workerReady = false →
      τ.queue = [] ∧ ∀ id s, τ.ledger.describe? id = some s → s.status = .succeeded) := by
  intro σ τ
  refine ⟨?_, ?_⟩
  · intro r n hw hp
    have hhints : Hinted (σ.hints 0 es) τ.worker := hinted_run (σ := σ) trivial es
    rw [hw] at hhints
    rcases signalled_run d members es r n hw with hpermit | ⟨hlive, hfree⟩
    · rw [hp] at hpermit
      cases hpermit
    · exact ⟨hlive, hfree, hhints⟩
  · intro hw hready
    have hqueue : τ.queue = [] := queue_of_waiting hw hready hrun
    refine ⟨hqueue, ?_⟩
    intro id s hs
    -- with an empty queue and no request in hand only fulfilment is left
    rcases owesAll_run d members es hrun id s hs with hdone | hqueued | hserving
    · exact hdone
    · refine absurd ?_ hqueued
      show τ.queue.filter _ = []
      rw [hqueue]
      rfl
    · have hserving : (τ.serving? id).isSome := hserving
      rw [serving?_of_none (by rw [hw]; rfl)] at hserving
      cases hserving

/-- A request waits while another one has the only host, and is served when that
one is released. -/
theorem no_wakeup_lost_one_host :
    let σ := ({} : EngineDraft).engine [Host.conventional "host-1"]
    let b : Request := ⟨"b", 1, by decide⟩
    let es : List Event := [.submit 0 ⟨"a", 1, by decide⟩, .work, .work, .submit 0 b, .work, .work]
    let fs : List Event := es ++ [.release "a", .work, .work]
    let τ := σ.run es
    let υ := σ.run fs
    (τ.stopped = false ∧ τ.worker = .parked b 0 ∧ τ.permit = false ∧
      (τ.ledger.describe? b.id).isSome ∧ τ.ledger.free = [] ∧ σ.hints 0 es = 1) ∧
    (υ.worker = .idle ∧ υ.workerReady = false ∧ υ.queue = [] ∧
      ∀ id s, υ.ledger.describe? id = some s → s.status = .succeeded) := by
  intro σ b es fs τ υ
  have hrun : τ.stopped = false := by decide
  have hparked : τ.worker = .parked b 0 := by decide
  have hp : τ.permit = false := by decide
  have hidle : υ.worker = .idle := by decide
  have hready : υ.workerReady = false := by decide
  have hwaiting := no_wakeup_lost {} [Host.conventional "host-1"] es hrun
  have hdone := no_wakeup_lost {} [Host.conventional "host-1"] fs (by decide)
  -- with the states spelled out there is nothing to evaluate
  simp only [σ, τ, υ] at *
  exact ⟨⟨hrun, hparked, hp, hwaiting.1 b 0 hparked hp⟩, hidle, hready, hdone.2 hidle hready⟩

end Engine

end Fleet
