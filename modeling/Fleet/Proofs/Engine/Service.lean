import Fleet.Proofs.Engine.Standing
import Mathlib.Data.Fintype.EquivFin

/-!
# Every queued request can be served

While an engine runs, its worker can get through the queue: whenever it looks
for a host in vain, a new one can join the population. None of this takes a
request out.

* **reaching** — `Reaches` relates an engine to the ones that it can become
  while a request stays entered;
* **one request** — `exists_finished`: the worker can finish the request that
  it is at;
* **the queue** — `exists_idle`, `exists_dequeued` and `exists_drained` get the
  worker past what it is at, the first queued request, and any number of them.
-/

namespace Fleet

/-- A host can join whose device is neither leased nor in the directory. -/
theorem Ledger.exists_newcomer (L : Ledger) :
    ∃ h, (L.applyChange (.added h)).1.free ≠ [] ∧ (L.applyChange (.added h)).2 = true := by
  obtain ⟨d, hd⟩ := Infinite.exists_notMem_finset (L.leased ++ L.directory.names).toFinset
  rw [List.mem_toFinset, List.mem_append, not_or] at hd
  obtain ⟨hleased, hnames⟩ := hd
  have hnew : ¬L.directory.get? (Host.conventional d).deviceId = some (Host.conventional d) := by
    rw [show L.directory.get? (Host.conventional d).deviceId = none from
      Registry.get?_eq_none_iff.mpr hnames]
    exact (Option.some_ne_none _).symm
  have hout : ¬L.isLeased (Host.conventional d).deviceId = true :=
    fun hin => hleased (isLeased_iff.mp hin)
  refine ⟨Host.conventional d, ?_⟩
  unfold applyChange
  dsimp only
  rw [if_neg hnew, if_neg hout, Bool.eq_false_iff.mpr hout]
  exact ⟨List.append_ne_nil_of_right_ne_nil _ (List.cons_ne_nil _ _), rfl⟩

namespace Engine

/-! ## Reaching -/

theorem live_of_keeps {σ : Engine} {id : String} {es : List Event} (h : σ.keeps id es = true) :
    (σ.ledger.describe? id).isSome := by
  cases es with
  | nil => exact h
  | cons e rest => exact (Bool.and_eq_true_iff.mp h).1

theorem keeps_append {σ : Engine} {id : String} {es fs : List Event} :
    σ.keeps id (es ++ fs) = true ↔ σ.keeps id es = true ∧ (σ.run es).keeps id fs = true := by
  induction es generalizing σ with
  | nil =>
    show σ.keeps id fs = true ↔ _
    exact ⟨fun h => ⟨live_of_keeps h, h⟩, fun h => h.2⟩
  | cons e rest ih =>
    show (_ && (σ.step e).keeps id (rest ++ fs)) = true ↔
      (_ && (σ.step e).keeps id rest) = true ∧ _
    rw [Bool.and_eq_true, Bool.and_eq_true, ih, and_assoc]
    rfl

/-- What an engine can become while a request stays entered. -/
def Reaches (id : String) (σ τ : Engine) : Prop :=
  ∃ es, σ.keeps id es = true ∧ σ.run es = τ

theorem Reaches.refl {σ : Engine} {id : String} (h : (σ.ledger.describe? id).isSome) :
    Reaches id σ σ :=
  ⟨[], h, rfl⟩

theorem Reaches.trans {σ τ υ : Engine} {id : String} (h : Reaches id σ τ) (k : Reaches id τ υ) :
    Reaches id σ υ := by
  obtain ⟨es, hes, rfl⟩ := h
  obtain ⟨fs, hfs, rfl⟩ := k
  exact ⟨es ++ fs, keeps_append.mpr ⟨hes, hfs⟩, run_append σ es fs⟩

theorem Reaches.step {σ : Engine} {id : String} (e : Event)
    (hbefore : (σ.ledger.describe? id).isSome) (hafter : ((σ.step e).ledger.describe? id).isSome) :
    Reaches id σ (σ.step e) :=
  ⟨[e], Bool.and_eq_true_iff.mpr ⟨hbefore, hafter⟩, rfl⟩

theorem Reaches.move {σ τ : Engine} {id : String} {asks : Bool} (hm : Move σ τ asks)
    (hlive : (σ.ledger.describe? id).isSome) : Reaches id σ τ := by
  have hstep : σ.step .work = τ := step_of_move hm
  have hafter : (τ.ledger.describe? id).isSome := (isSome_describe?_move hm id).trans hlive
  rw [← hstep] at hafter ⊢
  exact .step .work hlive hafter

/-! ## Hosts -/

/-- An engine that runs, with a request entered and a queue. -/
structure Running (σ : Engine) (id : String) (queue : List Request) : Prop where
  running : σ.stopped = false
  live : (σ.ledger.describe? id).isSome
  queue_eq : σ.queue = queue

/-- A request has all its hosts. -/
def Fulfilled (σ : Engine) (id : String) : Prop :=
  ∃ s, σ.ledger.describe? id = some s ∧ s.status = .succeeded

section
variable {σ : Engine} {id : String} {queue : List Request}

theorem Running.ne_of_unknown {other : String} (h : σ.Running id queue)
    (hs : σ.ledger.describe? other = none) : other ≠ id := by
  obtain ⟨s, hlive⟩ := Option.isSome_iff_exists.mp h.live
  exact Engine.ne_of_unknown hs hlive

/-- A host can join that is free and wakes the worker. -/
theorem exists_offer (h : σ.Running id queue) :
    ∃ τ, Reaches id σ τ ∧ τ.Running id queue ∧ τ.worker = σ.worker ∧ τ.ledger.free ≠ [] ∧
      τ.permit = true := by
  obtain ⟨host, hfree, hfreed⟩ := σ.ledger.exists_newcomer
  have hlive : ((σ.step (.change (.added host))).ledger.describe? id).isSome := by
    show ((σ.ledger.applyChange (.added host)).1.describe? id).isSome
    rw [Ledger.describe?_congr (Ledger.entries_applyChange ..)]
    exact h.live
  refine ⟨_, .step (.change (.added host)) h.live hlive, ⟨h.running, hlive, h.queue_eq⟩, rfl,
    hfree, ?_⟩
  show (σ.permit || (σ.ledger.applyChange (.added host)).2) = true
  rw [hfreed, Bool.or_true]

/-! ## One request -/

/-- The worker can lease one more host to the request that it is at, unless the
request is gone. -/
theorem exists_granted {r : Request} {n : Nat} {hinted : Bool} (h : σ.Running id queue)
    (hw : σ.worker = .seeking r n hinted) (hn : n < r.amount) :
    ∃ τ, Reaches id σ τ ∧ τ.Running id queue ∧
      ((τ.worker = .idle ∧ (r.id = id → τ.Fulfilled id)) ∨
        (n + 1 < r.amount ∧ τ.worker = .seeking r (n + 1) false)) := by
  obtain ⟨υ, hreach, hυ, hsame, hfree, -⟩ := exists_offer h
  have hw : υ.worker = .seeking r n hinted := hsame.trans hw
  cases hs : υ.ledger.describe? r.id with
  | none =>
    exact ⟨_, hreach.trans (.move (.abandon hw hs) hυ.live), ⟨hυ.running, hυ.live, hυ.queue_eq⟩,
      Or.inl ⟨rfl, fun hid => absurd hid (hυ.ne_of_unknown hs)⟩⟩
  | some s =>
    obtain ⟨host, rest, hfree⟩ := List.exists_cons_of_ne_nil hfree
    have hm : Move υ (υ.leasedOut r n s host rest) false := .grant hw hs hfree
    have hlive := (isSome_describe?_move hm id).trans hυ.live
    refine ⟨_, hreach.trans (.move hm hυ.live), ⟨hυ.running, hlive, hυ.queue_eq⟩, ?_⟩
    by_cases hlast : n + 1 = r.amount
    · refine Or.inl ⟨if_pos hlast, ?_⟩
      intro hid
      refine ⟨_, by rw [describe?_leasedOut hs, if_pos hid.symm], ?_⟩
      rw [if_pos hlast]
      rfl
    · exact Or.inr ⟨by omega, if_neg hlast⟩

/-- The worker can finish the request that it is at. -/
theorem exists_finished {r : Request} {n : Nat} {hinted : Bool} (h : σ.Running id queue)
    (hw : σ.worker = .seeking r n hinted) (hn : n < r.amount) :
    ∃ τ, Reaches id σ τ ∧ τ.Running id queue ∧ τ.worker = .idle ∧
      (r.id = id → τ.Fulfilled id) := by
  -- on the hosts that the request still lacks
  obtain ⟨k, hk⟩ := Nat.exists_eq_add_of_lt hn
  induction k generalizing σ n hinted with
  | zero =>
    obtain ⟨τ, hreach, hτ, ⟨hidle, hdone⟩ | ⟨hmore, -⟩⟩ := exists_granted h hw hn
    · exact ⟨τ, hreach, hτ, hidle, hdone⟩
    · omega
  | succ k ih =>
    obtain ⟨τ, hreach, hτ, ⟨hidle, hdone⟩ | ⟨hmore, hnext⟩⟩ := exists_granted h hw hn
    · exact ⟨τ, hreach, hτ, hidle, hdone⟩
    · obtain ⟨υ, hrest, hυ⟩ := ih hτ hnext hmore (by omega)
      exact ⟨υ, hreach.trans hrest, hυ⟩

/-! ## The queue -/

/-- The worker has not yet granted all the hosts of the request that it is at. -/
def Counting (σ : Engine) : Prop :=
  ∀ r n, σ.worker.serving? = some (r, n) → n < r.amount

/-- The worker can get done with what it is at. -/
theorem exists_idle (h : σ.Running id queue) (hw : σ.worker ≠ .gone) (hcount : σ.Counting) :
    ∃ τ, Reaches id σ τ ∧ τ.Running id queue ∧ τ.worker = .idle ∧
      ((σ.serving? id).isSome → τ.Fulfilled id) := by
  have hid : ∀ r n, σ.worker.serving? = some (r, n) → (σ.serving? id).isSome → r.id = id := by
    intro r n hserving hsome
    rw [serving?_of_some hserving] at hsome
    by_contra hne
    rw [if_neg hne] at hsome
    cases hsome
  cases hworker : σ.worker with
  | gone => exact absurd hworker hw
  | idle =>
    refine ⟨σ, .refl h.live, h, hworker, ?_⟩
    intro hsome
    rw [serving?_of_none (by rw [hworker]; rfl)] at hsome
    cases hsome
  | seeking r n hinted =>
    have hserving : σ.worker.serving? = some (r, n) := by rw [hworker]; rfl
    obtain ⟨τ, hreach, hτ, hidle, hdone⟩ := exists_finished h hworker (hcount r n hserving)
    exact ⟨τ, hreach, hτ, hidle, fun hsome => hdone (hid r n hserving hsome)⟩
  | parked r n =>
    have hserving : σ.worker.serving? = some (r, n) := by rw [hworker]; rfl
    obtain ⟨υ, hoffer, hυ, hsame, -, hp⟩ := exists_offer h
    have hm : Move υ { υ with permit := false, worker := .seeking r n true } false :=
      .resume (hsame.trans hworker) hυ.running hp
    have hresumed : Running { υ with permit := false, worker := .seeking r n true } id queue :=
      ⟨hυ.running, hυ.live, hυ.queue_eq⟩
    obtain ⟨τ, hreach, hτ, hidle, hdone⟩ := exists_finished hresumed rfl (hcount r n hserving)
    exact ⟨τ, hoffer.trans (.trans (.move hm hυ.live) hreach), hτ, hidle,
      fun hsome => hdone (hid r n hserving hsome)⟩

/-- An idle worker can get done with the first queued request. -/
theorem exists_dequeued {r : Request} (h : σ.Running id (r :: queue)) (hw : σ.worker = .idle) :
    ∃ τ, Reaches id σ τ ∧ τ.Running id queue ∧ τ.worker = .idle ∧
      (r.id = id → τ.Fulfilled id) := by
  cases hs : σ.ledger.describe? r.id with
  | none =>
    have hm := Move.skip hw h.running h.queue_eq hs
    exact ⟨_, .move hm h.live, ⟨h.running, h.live, rfl⟩, hw,
      fun hid => absurd hid (h.ne_of_unknown hs)⟩
  | some s =>
    have hm : Move σ (σ.takenUp r queue s) false := .takeUp hw h.running h.queue_eq hs
    have hlive := (isSome_describe?_move hm id).trans h.live
    have htaken : (σ.takenUp r queue s).Running id queue := ⟨h.running, hlive, rfl⟩
    obtain ⟨τ, hreach, hτ⟩ := exists_finished htaken rfl r.amount_pos
    exact ⟨τ, .trans (.move hm h.live) hreach, hτ⟩

/-- An idle worker can get done with any part of the queue. -/
theorem exists_drained {first : List Request} (h : σ.Running id (first ++ queue))
    (hw : σ.worker = .idle) :
    ∃ τ, Reaches id σ τ ∧ τ.Running id queue ∧ τ.worker = .idle := by
  induction first generalizing σ with
  | nil => exact ⟨σ, .refl h.live, h, hw⟩
  | cons r rest ih =>
    obtain ⟨υ, hfirst, hυ, hidle, -⟩ := exists_dequeued h hw
    obtain ⟨τ, hrest, hτ⟩ := ih hυ hidle
    exact ⟨τ, hfirst.trans hrest, hτ⟩

end

/-! ## Counting -/

theorem counting_move {σ τ : Engine} {asks : Bool} (hm : Move σ τ asks) (h : σ.Counting) :
    τ.Counting := by
  intro r n hserving
  cases hm with
  | leave | abandon => cases hserving
  | skip => exact h r n hserving
  | takeUp =>
    cases hserving
    exact r.amount_pos
  | park hw =>
    cases hserving
    exact h r n (by rw [hw]; rfl)
  | @grant r' n' _ s host rest hw =>
    have hmore : n' < r'.amount := h r' n' (by rw [hw]; rfl)
    have hserving : Worker.serving? (if n' + 1 = r'.amount then .idle
      else .seeking r' (n' + 1) false) = some (r, n) := hserving
    by_cases hlast : n' + 1 = r'.amount
    · rw [if_pos hlast] at hserving
      cases hserving
    · rw [if_neg hlast] at hserving
      cases hserving
      omega
  | resume hw =>
    cases hserving
    exact h r n (by rw [hw]; rfl)

/-- In every reachable state the worker has granted less than its request asks
for. -/
theorem counting_run (d : EngineDraft) (members : List Host) (es : List Event) :
    ((d.engine members).run es).Counting := by
  refine run_induct ?_ (fun r n hserving => by cases hserving) es
  intro σ e h
  by_cases he : e = .work
  · subst he
    rcases σ.step_work with ⟨-, heq⟩ | hm
    · rw [heq]
      exact h
    · exact counting_move hm h
  · intro r n hserving
    rw [worker_step he] at hserving
    exact h r n hserving

end Engine

end Fleet
