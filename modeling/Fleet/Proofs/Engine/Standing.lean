import Fleet.Proofs.Engine.Conservation

/-!
# Where a request stands

What an engine has and does for the requests of one name is a `Standing`: the
queued ones, the one that the worker is at, and the snapshot.

* **progress** — `Progress` lists what an event can do to the standing of a
  request that is entered before and after it; `progress_step` says that there
  is nothing else;
* **entering** — a name becomes known through a new request and in no other
  way (`exists_submit_of_unknown`);
* **counts** — `grants` and `withdrawals` count, over a run, the hosts that
  the worker leases to a request and the devices that are taken back from it
  one by one.
-/

namespace Fleet

/-- The request that a worker is at and how much it has granted to it. -/
def Worker.serving? : Worker → Option (Request × Nat)
  | .seeking r granted _ => some (r, granted)
  | .parked r granted => some (r, granted)
  | .idle => none
  | .gone => none

namespace Engine

/-- The queued requests of a name. -/
def queued (σ : Engine) (id : String) : List Request := σ.queue.filter fun r => r.id = id

/-- The request of a name that the worker is at. -/
def serving? (σ : Engine) (id : String) : Option (Request × Nat) :=
  σ.worker.serving?.filter fun p => p.1.id = id

/-- What an engine has and does for one name. -/
structure Standing where
  queued : List Request
  serving? : Option (Request × Nat)
  snapshot : Snapshot

/-- Where the request of a name with that snapshot stands. -/
def standing (σ : Engine) (id : String) (s : Snapshot) : Standing :=
  ⟨σ.queued id, σ.serving? id, s⟩

/-- Whether an event leases a host to a request. -/
def leases (σ : Engine) (id : String) (e : Event) : Bool :=
  match e, σ.worker with
  | .work, .seeking r n _ =>
    match σ.ledger.grant? r.id (n + 1 = r.amount) with
    | .granted .. => r.id = id
    | _ => false
  | _, _ => false

/-- Whether an event takes a single device back from a request. -/
def withdraws (σ : Engine) (id : String) : Event → Bool
  | .releaseDevice d => (σ.ledger.describe? id).any (·.holds d)
  | _ => false

/-- How many hosts the worker leases to a request over a run. -/
def grants (σ : Engine) (id : String) : List Event → Nat
  | [] => 0
  | e :: es => (σ.leases id e).toNat + (σ.step e).grants id es

/-- How many single devices are taken back from a request over a run. -/
def withdrawals (σ : Engine) (id : String) : List Event → Nat
  | [] => 0
  | e :: es => (σ.withdraws id e).toNat + (σ.step e).withdrawals id es

/-- Whether a request stays entered over a run. -/
def keeps (σ : Engine) (id : String) : List Event → Bool
  | [] => (σ.ledger.describe? id).isSome
  | e :: es => (σ.ledger.describe? id).isSome && (σ.step e).keeps id es

/-- What an event can do to where a request stands, whether it leases a host to
the request, and whether it takes a single device back from it. -/
inductive Progress (stopped : Bool) : Standing → Bool → Bool → Standing → Prop
  | rest (S : Standing) : Progress stopped S false false S
  | withdraw {q w s d} (hd : d ∈ s.devices) (hn : s.devices.Nodup) :
      Progress stopped ⟨q, w, s⟩ false true ⟨q, w, s.withoutDevice d⟩
  | takeUp {r rest s} :
      Progress stopped ⟨r :: rest, none, s⟩ false false
        ⟨rest, some (r, 0), s.withStatus .provisioning⟩
  | grant {q r n s d} :
      Progress stopped ⟨q, some (r, n), s⟩ true false
        ⟨q, if n + 1 = r.amount then none else some (r, n + 1),
          s.withReservation ⟨d, .succeeded⟩
            (if n + 1 = r.amount then .succeeded else .provisioning)⟩
  | leave {q w s} (hstop : stopped = true) :
      Progress stopped ⟨q, w, s⟩ false false ⟨[], none, s⟩

/-! ## Events other than the worker's steps -/

theorem describe?_extend (σ : Engine) (other id : String) :
    (σ.step (.extend other)).ledger.describe? id = σ.ledger.describe? id := by
  show ((σ.extend? other).elim σ Prod.fst).ledger.describe? id = _
  rw [extend_eq]
  show ((σ.ledger.extend? other σ.term).elim σ.ledger Prod.fst).describe? id = _
  cases hx : σ.ledger.extend? other σ.term with
  | none => rfl
  | some p => exact Ledger.describe?_extend? hx id

/-- What such an event does to the request of a name: it takes it out, leaves
it alone, takes a device from it, or enters it. -/
theorem describe?_step {σ : Engine} {e : Event} (hL : σ.ledger.Sound) (he : e ≠ .work)
    (id : String) :
    (σ.step e).ledger.describe? id = none ∨
      (σ.withdraws id e = false ∧
        (σ.step e).ledger.describe? id = σ.ledger.describe? id) ∨
      (∃ d, e = .releaseDevice d ∧ (σ.step e).ledger.describe? id =
        (σ.ledger.describe? id).map (·.withoutDevice d)) ∨
      (∃ now r, e = .submit now r ∧ r.id = id ∧ σ.Admits r) := by
  -- what a pass over expired requests does, asked for or taken by the reaper
  have hout : ∀ ids : List String, (σ.ledger.releaseAll ids).1.describe? id = none ∨
      (σ.ledger.releaseAll ids).1.describe? id = σ.ledger.describe? id := by
    intro ids
    rw [Ledger.describe?_releaseAll]
    split
    · exact Or.inl rfl
    · exact Or.inr rfl
  cases e with
  | submit now r =>
    by_cases h : σ.Admits r
    · by_cases hid : r.id = id
      · exact Or.inr (Or.inr (Or.inr ⟨now, r, rfl, hid, h⟩))
      · rw [step_submit h]
        refine Or.inr (Or.inl ⟨rfl, ?_⟩)
        show (σ.ledger.submit r.id _).describe? id = _
        rw [Ledger.describe?_submit, if_neg (Ne.symm hid)]
    · rw [step_submit_of_not h]
      exact Or.inr (Or.inl ⟨rfl, rfl⟩)
  | release other =>
    show (σ.ledger.release other).1.describe? id = none ∨ _
    by_cases hid : id = other
    · rw [Ledger.describe?_release, if_pos hid]
      exact Or.inl rfl
    · refine Or.inr (Or.inl ⟨rfl, ?_⟩)
      show (σ.ledger.release other).1.describe? id = _
      rw [Ledger.describe?_release, if_neg hid]
  | releaseDevice d =>
    exact Or.inr (Or.inr (Or.inl ⟨d, rfl, Ledger.describe?_releaseDevice hL d id⟩))
  | releaseExpired now =>
    rcases hout (σ.ledger.expiredAt now) with h | h
    · exact Or.inl h
    · exact Or.inr (Or.inl ⟨rfl, h⟩)
  | extend other => exact Or.inr (Or.inl ⟨rfl, describe?_extend σ other id⟩)
  | change c =>
    exact Or.inr (Or.inl ⟨rfl, Ledger.describe?_congr (Ledger.entries_applyChange _ c) id⟩)
  | stop => exact Or.inr (Or.inl ⟨rfl, rfl⟩)
  | work => exact absurd rfl he
  | reap now stamp =>
    obtain ⟨reaper, looks, h⟩ := σ.reaperTurn_eq now stamp
    show (σ.reaperTurn now stamp).ledger.describe? id = none ∨
      (_ ∧ (σ.reaperTurn now stamp).ledger.describe? id = _) ∨ _
    rw [h]
    cases looks with
    | false => exact Or.inr (Or.inl ⟨rfl, rfl⟩)
    | true =>
      rcases hout (σ.ledger.expiredAt now) with h | h
      · exact Or.inl h
      · exact Or.inr (Or.inl ⟨rfl, h⟩)

/-! ## Steps of the worker -/

section
variable {σ τ : Engine} {id : String} {asks : Bool}

/-- A step of the worker enters no request and takes none out. -/
theorem isSome_describe?_move (hm : Move σ τ asks) (id : String) :
    (τ.ledger.describe? id).isSome = (σ.ledger.describe? id).isSome := by
  cases hm with
  | leave | skip | abandon | park | resume => rfl
  | @takeUp r rest s _ _ _ hs =>
    rw [describe?_takenUp hs]
    split
    · next hid => rw [hid, hs]; rfl
    · rfl
  | @grant r n _ s h rest _ hs _ =>
    rw [describe?_leasedOut hs]
    split
    · next hid => rw [hid, hs]; rfl
    · rfl

theorem ne_of_unknown {other : String} {s : Snapshot} (hgone : σ.ledger.describe? other = none)
    (hs : σ.ledger.describe? id = some s) : other ≠ id := by
  intro heq
  rw [heq, hs] at hgone
  cases hgone

theorem queued_of_cons {r : Request} {rest : List Request} (hq : σ.queue = r :: rest) :
    σ.queued id =
      if r.id = id then r :: rest.filter (fun r => r.id = id)
      else rest.filter (fun r => r.id = id) := by
  unfold queued
  rw [hq, List.filter_cons]
  simp only [decide_eq_true_eq]

theorem serving?_of_none (hw : σ.worker.serving? = none) : σ.serving? id = none := by
  unfold serving?
  rw [hw]
  rfl

theorem serving?_of_some {r : Request} {n : Nat} (hw : σ.worker.serving? = some (r, n)) :
    σ.serving? id = if r.id = id then some (r, n) else none := by
  unfold serving?
  rw [hw]
  simp only [Option.filter, decide_eq_true_eq]

theorem leases_of_none (hw : σ.worker.serving? = none) : σ.leases id .work = false := by
  unfold leases
  cases h : σ.worker with
  | seeking r n hinted =>
    rw [h] at hw
    cases hw
  | idle | parked | gone => rfl

theorem leases_of_parked {r : Request} {n : Nat} (hw : σ.worker = .parked r n) :
    σ.leases id .work = false := by
  unfold leases
  rw [hw]

theorem leases_of_seeking {r : Request} {n : Nat} {hinted : Bool}
    (hw : σ.worker = .seeking r n hinted) : σ.leases id .work =
      match σ.ledger.grant? r.id (n + 1 = r.amount) with
      | .granted .. => decide (r.id = id)
      | _ => false := by
  unfold leases
  rw [hw]

theorem leases_of_waiting (h : σ.workerStep? = none) : σ.leases id .work = false := by
  cases hw : σ.worker with
  | idle => exact leases_of_none (by rw [hw]; rfl)
  | gone => exact leases_of_none (by rw [hw]; rfl)
  | parked r n => exact leases_of_parked hw
  | seeking r n hinted =>
    -- a worker that looks for a host never waits
    unfold workerStep? at h
    rw [hw] at h
    dsimp only at h
    split at h <;> cases h

theorem progress_takenUp {r : Request} {rest : List Request} {u s t : Snapshot}
    (hw : σ.worker = .idle) (hq : σ.queue = r :: rest) (hu : σ.ledger.describe? r.id = some u)
    (hs : σ.ledger.describe? id = some s)
    (ht : (σ.takenUp r rest u).ledger.describe? id = some t) :
    Progress σ.stopped (σ.standing id s) (σ.leases id .work) false
      ((σ.takenUp r rest u).standing id t) := by
  have hnext : (σ.takenUp r rest u).serving? id = if r.id = id then some (r, 0) else none :=
    serving?_of_some rfl
  rw [describe?_takenUp hu] at ht
  unfold standing
  rw [leases_of_none (by rw [hw]; rfl), serving?_of_none (by rw [hw]; rfl), queued_of_cons hq,
    hnext]
  by_cases hid : r.id = id
  · subst hid
    rw [if_pos rfl, Option.some.inj (hu.symm.trans hs)] at ht
    rw [if_pos rfl, if_pos rfl, ← Option.some.inj ht]
    exact .takeUp
  · rw [if_neg (Ne.symm hid), hs] at ht
    rw [if_neg hid, if_neg hid, Option.some.inj ht]
    exact .rest _

theorem progress_leasedOut {r : Request} {n : Nat} {hinted : Bool} {u s t : Snapshot} {h : Host}
    {rest : List Host} (hw : σ.worker = .seeking r n hinted)
    (hu : σ.ledger.describe? r.id = some u) (hfree : σ.ledger.free = h :: rest)
    (hs : σ.ledger.describe? id = some s)
    (ht : (σ.leasedOut r n u h rest).ledger.describe? id = some t) :
    Progress σ.stopped (σ.standing id s) (σ.leases id .work) false
      ((σ.leasedOut r n u h rest).standing id t) := by
  have hleases : σ.leases id .work = decide (r.id = id) := by
    rw [leases_of_seeking hw, Ledger.grant?_of_some hu hfree]
  have hnext : (σ.leasedOut r n u h rest).serving? id =
      if n + 1 = r.amount then none else if r.id = id then some (r, n + 1) else none := by
    by_cases hlast : n + 1 = r.amount
    · rw [if_pos hlast]
      exact serving?_of_none (congrArg Worker.serving? (if_pos hlast))
    · rw [if_neg hlast]
      exact serving?_of_some (congrArg Worker.serving? (if_neg hlast))
  rw [describe?_leasedOut hu] at ht
  unfold standing
  rw [hleases, serving?_of_some (by rw [hw]; rfl), hnext]
  by_cases hid : r.id = id
  · subst hid
    rw [if_pos rfl, Option.some.inj (hu.symm.trans hs)] at ht
    rw [if_pos rfl, if_pos rfl, ← Option.some.inj ht, decide_eq_true rfl]
    exact .grant
  · -- a host for another request
    rw [if_neg (Ne.symm hid), hs] at ht
    rw [if_neg hid, if_neg hid, ite_self, decide_eq_false hid, Option.some.inj ht]
    exact .rest _

/-- What a step of the worker does to where a request stands. -/
theorem progress_move {s t : Snapshot} (hm : Move σ τ asks) (hs : σ.ledger.describe? id = some s)
    (ht : τ.ledger.describe? id = some t) :
    Progress σ.stopped (σ.standing id s) (σ.leases id .work) false (τ.standing id t) := by
  cases hm with
  | leave hw hstop =>
    have hno : σ.leases id .work = false := by
      rcases hw with hw | ⟨r, n, hw⟩
      · exact leases_of_none (by rw [hw]; rfl)
      · exact leases_of_parked hw
    rw [hno, Option.some.inj (hs.symm.trans ht)]
    exact .leave hstop
  | @skip r rest hw _ hq hgone =>
    have hid : r.id ≠ id := ne_of_unknown hgone hs
    unfold standing
    rw [leases_of_none (by rw [hw]; rfl), queued_of_cons hq, if_neg hid,
      Option.some.inj (hs.symm.trans ht)]
    exact .rest _
  | takeUp hw _ hq hu => exact progress_takenUp hw hq hu hs ht
  | @abandon r n hinted hw hgone =>
    have hid : r.id ≠ id := ne_of_unknown hgone hs
    have hno : σ.leases id .work = false := by
      rw [leases_of_seeking hw, Ledger.grant?_of_none hgone]
    unfold standing
    rw [hno, serving?_of_some (by rw [hw]; rfl), if_neg hid, Option.some.inj (hs.symm.trans ht)]
    exact .rest _
  | @park r n hinted u hw hu hfree =>
    have hno : σ.leases id .work = false := by
      rw [leases_of_seeking hw, Ledger.grant?_of_free_nil hu hfree]
    have hsame : serving? { σ with worker := .parked r n } id = σ.serving? id := by
      unfold serving?
      rw [hw]
      rfl
    unfold standing
    rw [hno, hsame, Option.some.inj (hs.symm.trans ht)]
    exact .rest _
  | grant hw hu hfree => exact progress_leasedOut hw hu hfree hs ht
  | @resume r n hw _ _ =>
    have hsame : serving? { σ with permit := false, worker := .seeking r n true } id =
        σ.serving? id := by
      unfold serving?
      rw [hw]
      rfl
    unfold standing
    rw [leases_of_parked hw, hsame, Option.some.inj (hs.symm.trans ht)]
    exact .rest _

end

/-- A name becomes known through a new request and in no other way. -/
theorem exists_submit_of_unknown {σ : Engine} {e : Event} {id : String} (hL : σ.ledger.Sound)
    (hs : σ.ledger.describe? id = none) (hlive : ((σ.step e).ledger.describe? id).isSome) :
    ∃ now r, e = .submit now r ∧ r.id = id ∧ σ.Admits r := by
  by_cases he : e = .work
  · subst he
    rcases σ.step_work with ⟨-, heq⟩ | hm
    · rw [heq, hs] at hlive
      cases hlive
    · have hsame := isSome_describe?_move hm id
      rw [hlive, hs] at hsame
      cases hsame
  · rcases describe?_step hL he id with h | ⟨-, h⟩ | ⟨d, -, h⟩ | h
    · rw [h] at hlive
      cases hlive
    · rw [h, hs] at hlive
      cases hlive
    · rw [h, hs] at hlive
      cases hlive
    · exact h

/-! ## All events -/

theorem leases_of_ne_work {σ : Engine} {e : Event} (he : e ≠ .work) (id : String) :
    σ.leases id e = false := by
  cases e with
  | work => exact absurd rfl he
  | submit | release | releaseDevice | releaseExpired | extend | change | stop | reap => rfl

/-- Only a step of the worker or a new request of its name changes what is
queued of a name. -/
theorem queued_step {σ : Engine} {e : Event} {id : String} (he : e ≠ .work)
    (hlive : (σ.ledger.describe? id).isSome) : (σ.step e).queued id = σ.queued id := by
  unfold queued
  rcases queue_step he with hq | ⟨now, r, -, ha, hq⟩
  · rw [hq]
  · have hid : r.id ≠ id := by
      intro heq
      rw [← heq, ha.unknown] at hlive
      cases hlive
    rw [hq, List.filter_append, List.filter_cons_of_neg (by simpa using hid), List.filter_nil,
      List.append_nil]

/-- What an event does to where a request stands that is entered before and
after it. -/
theorem progress_step {σ : Engine} {e : Event} {id : String} {s t : Snapshot}
    (hL : σ.ledger.Sound) (hs : σ.ledger.describe? id = some s)
    (ht : (σ.step e).ledger.describe? id = some t) :
    Progress σ.stopped (σ.standing id s) (σ.leases id e) (σ.withdraws id e)
      ((σ.step e).standing id t) := by
  by_cases he : e = .work
  · subst he
    show Progress σ.stopped _ _ false _
    rcases σ.step_work with ⟨hwait, heq⟩ | hm
    · rw [heq, hs] at ht
      rw [heq, leases_of_waiting hwait, Option.some.inj ht]
      exact .rest _
    · exact progress_move hm hs ht
  · -- neither the queue nor the worker is touched, so only the snapshot can change
    have hserving : (σ.step e).serving? id = σ.serving? id := by
      unfold serving?
      rw [worker_step he]
    unfold standing
    rw [leases_of_ne_work he, hserving, queued_step he (by rw [hs]; rfl)]
    rcases describe?_step hL he id with h | ⟨hno, h⟩ | ⟨d, rfl, h⟩ | ⟨now, r, -, hid, ha⟩
    · rw [h] at ht
      cases ht
    · rw [h, hs] at ht
      rw [hno, Option.some.inj ht]
      exact .rest _
    · rw [h, hs, Option.map_some] at ht
      have hholds : σ.withdraws id (.releaseDevice d) = s.holds d := by
        unfold withdraws
        rw [hs]
        rfl
      rw [hholds, ← Option.some.inj ht]
      -- the device may be another request's, or nobody's
      cases hd : s.holds d with
      | true => exact .withdraw (Snapshot.holds_iff.mp hd) (hL.devices_nodup hs)
      | false =>
        have hout : d ∉ s.devices := by
          rw [← Snapshot.holds_iff, hd]
          exact Bool.false_ne_true
        rw [Snapshot.withoutDevice_of_notMem hout]
        exact .rest _
    · have hnone := ha.unknown
      rw [hid, hs] at hnone
      cases hnone

/-- A new request stands behind whatever is still there under its name. -/
theorem standing_submit {σ : Engine} {r : Request} (h : σ.Admits r) (now : Instant) :
    (σ.step (.submit now r)).standing r.id (Snapshot.requested r.id) =
      ⟨σ.queued r.id ++ [r], σ.serving? r.id, Snapshot.requested r.id⟩ := by
  rw [step_submit h]
  have hqueued : (σ.entered now r).queued r.id = σ.queued r.id ++ [r] := by
    show (σ.queue ++ [r]).filter _ = _
    rw [List.filter_append, List.filter_cons_of_pos (by simp), List.filter_nil]
    rfl
  unfold standing
  rw [hqueued]
  rfl

theorem describe?_submit {σ : Engine} {r : Request} (h : σ.Admits r) (now : Instant) :
    (σ.step (.submit now r)).ledger.describe? r.id = some (Snapshot.requested r.id) := by
  rw [step_submit h]
  show (σ.ledger.submit r.id _).describe? r.id = _
  rw [Ledger.describe?_submit, if_pos rfl]

end Engine

end Fleet
