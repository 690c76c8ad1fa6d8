import Fleet.Proofs.Engine.Returns
import Fleet.Proofs.Engine.WakeUps

/-!
# Entering requests, and stopping

* **entering** — a request is entered with its entry and its place in the queue,
  or not at all. The entry stands before the queue is asked, and it is taken out
  again when the queue is closed (`submit_eq_submitInStages`); a request that is
  entered already changes nothing;
* **one thread** — on one thread an operation comes only while the worker waits
  (`oneThread`). A whole turn of the worker fits into such a run
  (`oneThread_workerTurn`), and so does a part of one that ends where the worker
  could wait;
* **stopping** — an engine that was stopped while its worker waited is `Frozen`,
  and stays so over any events (`frozen_run`): the worker, whatever it finds
  queued or has been woken for, leaves at its next step, and the reaper at its
  next turn. What is left is to give hosts back (`describe?_step_of_frozen`).
-/

namespace Fleet

/-- Whether the worker waits: it is not on its way to a host. -/
def Worker.waits : Worker → Bool
  | .idle => true
  | .seeking .. => false
  | .parked .. => true
  | .gone => true

namespace Engine

/-! ## Entering a request -/

/-- Enters a request in stages: the entry is put in, and then the queue is asked
to take the request; if it does not, the entry is taken out again. -/
def submitInStages (σ : Engine) (now : Instant) (r : Request) :
    Engine × Except ProvisionError Snapshot :=
  match σ.ledger.describe? r.id with
  | some s => (σ, .ok s)
  | none =>
    let L := σ.ledger.submit r.id (Instant.deadline now σ.term)
    if σ.stopped ∨ σ.worker = .gone then
      ({ σ with ledger := { L with entries := L.entries.erase r.id } },
        .error (.queueClosed r.id))
    else ({ σ with ledger := L, queue := σ.queue ++ [r] }, .ok (Snapshot.requested r.id))

theorem submit_eq_submitInStages (σ : Engine) (now : Instant) (r : Request) :
    σ.submit now r = σ.submitInStages now r := by
  unfold submit submitInStages
  cases hs : σ.ledger.describe? r.id with
  | some s => rfl
  | none =>
    have hout : r.id ∉ σ.ledger.entries.names :=
      Registry.get?_eq_none_iff.mp (Ledger.describe?_eq_none.mp hs)
    simp [Ledger.submit, Registry.erase_put, Registry.erase_of_notMem hout]

/-- The engine with a request entered behind the others. -/
def withRequest (σ : Engine) (now : Instant) (r : Request) : Engine :=
  { σ with
    ledger :=
      { σ.ledger with
        entries := σ.ledger.entries ++
          [(r.id, ⟨Snapshot.requested r.id, Instant.deadline now σ.term⟩)] }
    queue := σ.queue ++ [r] }

section
variable {σ : Engine} {r : Request}

theorem submit_of_known {s : Snapshot} (hs : σ.ledger.describe? r.id = some s) (now : Instant) :
    σ.submit now r = (σ, .ok s) := by
  simp [submit, hs]

theorem submit_of_stopped (hs : σ.ledger.describe? r.id = none) (hstop : σ.stopped = true)
    (now : Instant) : σ.submit now r = (σ, .error (.queueClosed r.id)) := by
  simp [submit, hs, hstop]

theorem submit_of_running (hs : σ.ledger.describe? r.id = none) (hrun : σ.stopped = false)
    (hw : σ.worker ≠ .gone) (now : Instant) :
    σ.submit now r = (σ.withRequest now r, .ok (Snapshot.requested r.id)) := by
  have hout : r.id ∉ σ.ledger.entries.names :=
    Registry.get?_eq_none_iff.mp (Ledger.describe?_eq_none.mp hs)
  simp [submit, hs, hrun, hw, withRequest, Ledger.submit, Registry.put_of_notMem hout]

end

/-! ## One thread -/

/-- Whether a run is one of a single thread: an operation comes only while the
worker waits. -/
def oneThread (σ : Engine) : List Event → Bool
  | [] => true
  | e :: es => (e = .work || σ.worker.waits) && (σ.step e).oneThread es

theorem oneThread_append {σ : Engine} {es fs : List Event} :
    σ.oneThread (es ++ fs) = (σ.oneThread es && (σ.run es).oneThread fs) := by
  induction es generalizing σ with
  | nil => rfl
  | cons e rest ih =>
    simp only [List.cons_append, oneThread, ih, run, List.foldl_cons, Bool.and_assoc]

theorem oneThread_replicate_work (σ : Engine) (n : Nat) :
    σ.oneThread (List.replicate n .work) = true := by
  induction n generalizing σ with
  | zero => rfl
  | succ n ih => simp [List.replicate_succ, oneThread, ih]

/-- A worker that has to wait waits. -/
theorem waits_of_workerStep? {σ : Engine} (h : σ.workerStep? = none) :
    σ.worker.waits = true := by
  unfold workerStep? at h
  split at h
  · next hw => simp [hw, Worker.waits]
  · next hw => simp [hw, Worker.waits]
  · split at h <;> cases h
  · next hw => simp [hw, Worker.waits]

theorem waits_workerTurn (σ : Engine) : σ.workerTurn.1.worker.waits = true := by
  fun_induction workerTurn σ with
  | case1 σ h => exact waits_of_workerStep? h
  | case2 σ τ asks h υ n hrest ih => rwa [hrest] at ih

/-- A turn of the worker fits into a run of a single thread, and leaves the
thread to whatever comes next. -/
theorem oneThread_workerTurn (σ : Engine) :
    ∃ n, σ.workerTurn.1 = σ.run (List.replicate n .work) ∧ ∀ e,
      σ.oneThread (List.replicate n .work ++ [e]) = true := by
  obtain ⟨n, hn⟩ := σ.exists_run_workerTurn
  refine ⟨n, hn, fun e => ?_⟩
  rw [oneThread_append, oneThread_replicate_work, ← hn]
  simp [oneThread, waits_workerTurn]

/-! ## Stopped engines -/

theorem stays_stopped {σ : Engine} (h : σ.stopped = true) (e : Event) :
    (σ.step e).stopped = true := by
  cases hnext : (σ.step e).stopped with
  | true => rfl
  | false =>
    rw [stopped_step hnext] at h
    cases h

/-- A worker leaves an engine only when it is stopped. -/
theorem stopped_of_gone (d : EngineDraft) (members : List Host) (es : List Event)
    (hgone : ((d.engine members).run es).worker = .gone) :
    ((d.engine members).run es).stopped = true := by
  have hstep : ∀ (σ : Engine) (e : Event), (σ.worker = .gone → σ.stopped = true) →
      (σ.step e).worker = .gone → (σ.step e).stopped = true := by
    intro σ e h hgone
    apply stays_stopped
    by_cases he : e = .work
    · subst he
      rcases σ.step_work with ⟨-, heq⟩ | hm
      · rw [heq] at hgone
        exact h hgone
      · generalize σ.step .work = τ, σ.asks .work = asks at hm hgone
        cases hm with
        | leave _ hstop => exact hstop
        | skip hw => simp [hw] at hgone
        | takeUp | abandon | park | resume => cases hgone
        | @grant r n =>
          by_cases hlast : n + 1 = r.amount <;> simp [leasedOut, hlast] at hgone
    · rw [worker_step he] at hgone
      exact h hgone
  exact run_induct hstep (fun h => by cases h) es hgone

/-- The engine was stopped, and its worker waits. -/
structure Frozen (σ : Engine) : Prop where
  stopped : σ.stopped = true
  waits : σ.worker.waits = true

section
variable {σ : Engine}

/-- Whatever the worker waits for, it can only leave. -/
theorem Frozen.work (h : σ.Frozen) :
    (σ.step .work).Frozen ∧ (σ.step .work).ledger = σ.ledger := by
  have hstop := h.stopped
  have hwaits := h.waits
  rcases σ.step_work with ⟨-, heq⟩ | hm
  · rw [heq]
    exact ⟨h, rfl⟩
  · generalize σ.step .work = τ, σ.asks .work = asks at hm
    cases hm with
    | leave => exact ⟨⟨hstop, rfl⟩, rfl⟩
    | skip _ hrun | takeUp _ hrun | resume _ hrun => simp [hstop] at hrun
    | abandon hw | park hw | grant hw => simp [hw, Worker.waits] at hwaits

theorem Frozen.step (h : σ.Frozen) (e : Event) : (σ.step e).Frozen := by
  by_cases he : e = .work
  · subst he
    exact h.work.1
  · refine ⟨stays_stopped h.stopped e, ?_⟩
    rw [worker_step he]
    exact h.waits

theorem frozen_run (h : σ.Frozen) (es : List Event) : (σ.run es).Frozen :=
  run_induct (fun _ e hσ => hσ.step e) h es

/-- A reaper that finds its engine stopped looks no more. -/
theorem ledger_reaperTurn (hstop : σ.stopped = true) (now : Instant) (stamp : Nat) :
    (σ.reaperTurn now stamp).ledger = σ.ledger := by
  unfold reaperTurn
  cases hr : σ.reaper with
  | none => rfl
  | some r => cases hp : r.phase <;> simp [Reaper.turn, hstop, hp]

/-- What becomes of the request of a name at an event that comes after the
engine was stopped. -/
def remnant? (σ : Engine) (id : String) (e : Event) : Option Snapshot :=
  match e with
  | .release other => if id = other then none else σ.ledger.describe? id
  | .releaseExpired now => if id ∈ σ.ledger.expiredAt now then none else σ.ledger.describe? id
  | .releaseDevice device => (σ.ledger.describe? id).map (·.withoutDevice device)
  | _ => σ.ledger.describe? id

theorem describe?_step_of_frozen (h : σ.Frozen) (hL : σ.ledger.Sound) (e : Event) (id : String) :
    (σ.step e).ledger.describe? id = σ.remnant? id e := by
  cases e with
  | submit now r =>
    have hclosed : ¬σ.Admits r := by
      intro ha
      have hrun := ha.running
      simp [h.stopped] at hrun
    rw [step_submit_of_not hclosed]
    rfl
  | release other => exact Ledger.describe?_release ..
  | releaseDevice device => exact Ledger.describe?_releaseDevice hL device id
  | releaseExpired now => exact Ledger.describe?_releaseAll ..
  | extend other => exact describe?_extend σ other id
  | change c => exact Ledger.describe?_congr (Ledger.entries_applyChange ..) id
  | stop => rfl
  | work =>
    rw [h.work.2]
    rfl
  | reap now stamp =>
    show (σ.reaperTurn now stamp).ledger.describe? id = _
    rw [ledger_reaperTurn h.stopped]
    rfl

/-- An event that gives the request of a name back. -/
def givesBack (σ : Engine) (id : String) : Event → Prop
  | .release other => other = id
  | .releaseExpired now => id ∈ σ.ledger.expiredAt now
  | _ => False

/-- What is left of a request: its status, and no reservations but its own. -/
structure Remains (s t : Snapshot) : Prop where
  status : t.status = s.status
  reservations : t.reservations.Sublist s.reservations

theorem Remains.refl (s : Snapshot) : Remains s s := ⟨rfl, List.Sublist.refl _⟩

theorem Remains.trans {s t u : Snapshot} (h : Remains s t) (k : Remains t u) : Remains s u :=
  ⟨k.status.trans h.status, k.reservations.trans h.reservations⟩

theorem remnant?_of_none {id : String} (hs : σ.ledger.describe? id = none) (e : Event) :
    σ.remnant? id e = none := by
  cases e <;> simp [remnant?, hs]

theorem remnant?_of_some {id : String} {s : Snapshot} (hs : σ.ledger.describe? id = some s)
    (e : Event) :
    (σ.remnant? id e = none ∧ σ.givesBack id e) ∨ ∃ t, σ.remnant? id e = some t ∧ Remains s t := by
  cases e with
  | release other =>
    by_cases hid : id = other
    · exact Or.inl ⟨by simp [remnant?, hid], hid.symm⟩
    · exact Or.inr ⟨s, by simp [remnant?, hid, hs], .refl s⟩
  | releaseExpired now =>
    by_cases hdue : id ∈ σ.ledger.expiredAt now
    · exact Or.inl ⟨by simp [remnant?, hdue], hdue⟩
    · exact Or.inr ⟨s, by simp [remnant?, hdue, hs], .refl s⟩
  | releaseDevice device =>
    refine Or.inr ⟨s.withoutDevice device, by simp [remnant?, hs], rfl, ?_⟩
    exact List.filter_sublist
  | submit | extend | change | stop | work | reap => exact Or.inr ⟨s, hs, .refl s⟩

/-- Whatever comes after the engine was stopped, a request that was not there
does not come. -/
theorem unknown_run (h : σ.Frozen) (hL : σ.ledger.Sound) {id : String}
    (hs : σ.ledger.describe? id = none) (fs : List Event) :
    (σ.run fs).ledger.describe? id = none := by
  induction fs generalizing σ with
  | nil => exact hs
  | cons e rest ih =>
    apply ih (h.step e) (sound_step σ e hL)
    rw [describe?_step_of_frozen h hL]
    exact remnant?_of_none hs e

/-- Whatever comes after the engine was stopped, of a request is left what
remains of it, unless it is given back. -/
theorem remains_run (h : σ.Frozen) (hL : σ.ledger.Sound) {id : String} {s : Snapshot}
    (hs : σ.ledger.describe? id = some s) (fs : List Event) :
    (∃ t, (σ.run fs).ledger.describe? id = some t ∧ Remains s t) ∨
      ((σ.run fs).ledger.describe? id = none ∧
        ∃ before e after, fs = before ++ e :: after ∧ (σ.run before).givesBack id e) := by
  induction fs generalizing σ s with
  | nil => exact Or.inl ⟨s, hs, .refl s⟩
  | cons e rest ih =>
    have hnext := describe?_step_of_frozen h hL e id
    have hfrozen := h.step e
    have hsound := sound_step σ e hL
    rcases remnant?_of_some hs e with ⟨hgone, hback⟩ | ⟨t, ht, hst⟩
    · rw [hgone] at hnext
      exact Or.inr ⟨unknown_run hfrozen hsound hnext rest, [], e, rest, rfl, hback⟩
    · rw [ht] at hnext
      rcases ih hfrozen hsound hnext with ⟨u, hu, htu⟩ | ⟨hgone, before, f, after, rfl, hback⟩
      · exact Or.inl ⟨u, hu, hst.trans htu⟩
      · exact Or.inr ⟨hgone, e :: before, f, after, rfl, hback⟩

end

/-- **Entering and stopping.** In every reachable state a request that is entered
already changes nothing, one that is not is entered with one entry and one place
in the queue, and once the engine is stopped it is refused and the state stays
as it was. When an engine is stopped between two turns of its worker, no event
after that enters a request, changes the status of one or adds a reservation to
it, and only giving requests back takes them out, whatever the worker finds
queued, waits for or has been woken for, and whether or not the reaper is due;
and the ways back do what they do while an engine runs. -/
theorem enters_whole_and_stops (d : EngineDraft) (members : List Host) (es : List Event) :
    let σ := (d.engine members).run es
    (∀ now r,
      σ.submit now r = σ.submitInStages now r ∧
        (∀ s, σ.ledger.describe? r.id = some s → σ.submit now r = (σ, .ok s)) ∧
        (σ.ledger.describe? r.id = none → σ.stopped = false →
          σ.submit now r = (σ.withRequest now r, .ok (Snapshot.requested r.id))) ∧
        (σ.ledger.describe? r.id = none → σ.stopped = true →
          σ.submit now r = (σ, .error (.queueClosed r.id)))) ∧
      ((d.engine members).oneThread (es ++ [.stop]) = true → ∀ fs,
        let τ := σ.stop.run fs
        (∀ e id, (τ.step e).ledger.describe? id = τ.remnant? id e) ∧
          (∀ id, σ.ledger.describe? id = none → τ.ledger.describe? id = none) ∧
          (∀ id s, σ.ledger.describe? id = some s →
            (∃ t, τ.ledger.describe? id = some t ∧ Remains s t) ∨
              (τ.ledger.describe? id = none ∧
                ∃ before e after, fs = before ++ e :: after ∧
                  (σ.stop.run before).givesBack id e)) ∧
          (∀ id, τ.release id = (τ.without [id], (τ.ledger.returns id).length)) ∧
          (∀ now, τ.releaseExpired now =
            ((τ.ledger.expiredAt now).foldl (fun υ id => (υ.release id).1) τ,
              (τ.ledger.expiredAt now).length)) ∧
          ∀ device, (τ.releaseDevice device).2 = true ↔
            τ.ledger.directory.has device = true ∧ ∀ q ∈ τ.ledger.free, q.deviceId ≠ device) := by
  intro σ
  have hL : σ.ledger.Sound := sound_run d members es
  refine ⟨fun now r => ⟨submit_eq_submitInStages σ now r, ?_, ?_, ?_⟩, fun hone fs => ?_⟩
  · exact fun s hs => submit_of_known hs now
  · intro hs hrun
    have hworking : σ.worker ≠ .gone := by
      intro hgone
      have hstop : σ.stopped = true := stopped_of_gone d members es hgone
      simp [hrun] at hstop
    exact submit_of_running hs hrun hworking now
  · exact fun hs hstop => submit_of_stopped hs hstop now
  · intro τ
    have hwaits : σ.worker.waits = true := by
      rw [oneThread_append] at hone
      simpa [oneThread] using (Bool.and_eq_true_iff.mp hone).2
    have hfrozen : σ.stop.Frozen := ⟨rfl, hwaits⟩
    have hnext : τ.Frozen := frozen_run hfrozen fs
    have hsound : τ.ledger.Sound := run_induct sound_step (σ := σ.stop) hL fs
    refine ⟨describe?_step_of_frozen hnext hsound, ?_, ?_, release_eq hsound,
      releaseExpired_eq hsound, freed_releaseDevice_iff hsound⟩
    · exact fun id hs => unknown_run (σ := σ.stop) hfrozen hL hs fs
    · exact fun id s hs => remains_run (σ := σ.stop) hfrozen hL hs fs

/-- An engine is stopped while its worker waits for a second host and has been
woken for it, another request is queued, and the reaper is due. -/
theorem enters_whole_and_stops_woken :
    let a : Request := ⟨"a", 2, by decide⟩
    let es : List Event := [.submit 0 a, .work, .work, .work, .submit 1 ⟨"b", 1, by decide⟩,
      .change (.added (Host.conventional "host-2"))]
    let σ := (({} : EngineDraft).engine [Host.conventional "host-1"]).run es
    let τ := σ.stop.run [.work, .reap Instant.horizon 0, .work]
    (({} : EngineDraft).engine [Host.conventional "host-1"]).oneThread (es ++ [.stop]) = true ∧
      (σ.worker = .parked a 1 ∧ σ.permit = true ∧ σ.queue.map (·.id) = ["b"]) ∧
      (τ.step (.releaseDevice "host-1")).ledger.describe? "a" = some ⟨"a", .provisioning, []⟩ := by
  intro a es σ τ
  have hone : (({} : EngineDraft).engine [Host.conventional "host-1"]).oneThread
      (es ++ [.stop]) = true := by decide
  have hwoken : σ.worker = .parked a 1 ∧ σ.permit = true ∧ σ.queue.map (·.id) = ["b"] := by
    decide
  have hleft : τ.remnant? "a" (.releaseDevice "host-1") = some ⟨"a", .provisioning, []⟩ := by
    decide
  have hstopped := (enters_whole_and_stops {} [Host.conventional "host-1"] es).2 hone
  exact ⟨hone, hwoken, ((hstopped _).1 _ _).trans hleft⟩

end Engine

end Fleet
