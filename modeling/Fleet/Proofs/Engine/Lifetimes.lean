import Fleet.Proofs.Engine.Service

/-!
# The lifetime of a request

A request lives from when it is entered until it is taken out. Its life is
*orderly* if it is never granted more hosts than it asks for, its status only
moves forward, and a fulfilled request stays fulfilled and gains nothing.

* **stages** — a request whose name is nobody else's waits in the queue, is
  served, and is settled, in this order (`Stage`), and every event keeps the
  account of what was granted to it and what was taken back (`stage_step`);
* **strays** — taking a request out leaves a queued request, and the one that
  the worker is at, where they are. The life of the next request of the name
  is orderly, whatever happens, exactly if there is no such stray when it is
  entered (`orderly_iff_no_stray`): a stray serves the new request in the
  name of the old one, and then the new one is served once more.
-/

namespace Fleet

/-! ## Moving forward -/

/-- Where a status lies on the way of a request. -/
def Status.place? : Status → Option Nat
  | .requested => some 0
  | .provisioning => some 1
  | .succeeded => some 2
  | .canceling | .canceled | .failed => none

/-- What may become of a snapshot in an orderly life: its status does not move
back on the way of a request, and once it is fulfilled it stays so and loses
reservations at most. -/
structure Snapshot.Advances (s t : Snapshot) : Prop where
  forward : ∃ i j, s.status.place? = some i ∧ t.status.place? = some j ∧ i ≤ j
  settled : s.status = .succeeded → t.status = .succeeded ∧ t.reservations.Sublist s.reservations

namespace Snapshot.Advances

theorem refl {s : Snapshot} {i : Nat} (h : s.status.place? = some i) : s.Advances s :=
  ⟨⟨i, i, h, h, Nat.le_refl i⟩, fun hs => ⟨hs, List.Sublist.refl _⟩⟩

theorem trans {s t u : Snapshot} (h : s.Advances t) (k : t.Advances u) : s.Advances u := by
  obtain ⟨i, j, hi, hj, hij⟩ := h.forward
  obtain ⟨j', l, hj', hl, hjl⟩ := k.forward
  have hsame : j = j' := Option.some.inj (hj.symm.trans hj')
  refine ⟨⟨i, l, hi, hl, by omega⟩, ?_⟩
  intro hs
  obtain ⟨ht, hsub⟩ := h.settled hs
  obtain ⟨hu, hrest⟩ := k.settled ht
  exact ⟨hu, hrest.trans hsub⟩

/-- A request that is not fulfilled may move on to a later status. -/
theorem of_le {s t : Snapshot} {i j : Nat} (hs : s.status.place? = some i)
    (ht : t.status.place? = some j) (hi : i < 2) (hij : i ≤ j) : s.Advances t := by
  refine ⟨⟨i, j, hs, ht, hij⟩, ?_⟩
  intro hdone
  rw [hdone] at hs
  have htwo : 2 = i := Option.some.inj hs
  omega

theorem withoutDevice {s : Snapshot} {i : Nat} (h : s.status.place? = some i) (d : String) :
    s.Advances (s.withoutDevice d) :=
  ⟨⟨i, i, h, h, Nat.le_refl i⟩, fun hs => ⟨hs, List.filter_sublist⟩⟩

end Snapshot.Advances

namespace Engine

/-! ## Stages -/

/-- How far a request is whose name is nobody else's, what it was granted, and
what was taken back from it one by one. -/
inductive Stage (r : Request) : Standing → Nat → Nat → Prop
  -- it is queued and has nothing
  | waiting : Stage r ⟨[r], none, Snapshot.requested r.id⟩ 0 0
  -- the worker is at it
  | served {s g w} (hs : s.status = .provisioning) (hg : g < r.amount)
      (hsum : s.devices.length + w = g) : Stage r ⟨[], some (r, g), s⟩ g w
  -- the worker is done with it
  | settled {s g w i} (hs : s.status.place? = some i) (hg : g ≤ r.amount)
      (hdone : s.status = .succeeded → g = r.amount) (hsum : s.devices.length + w = g) :
      Stage r ⟨[], none, s⟩ g w

section
variable {r : Request} {S T : Standing} {g w : Nat}

theorem Stage.granted_le (h : Stage r S g w) : g ≤ r.amount := by
  cases h with
  | waiting => exact Nat.zero_le _
  | served _ hg => exact Nat.le_of_lt hg
  | settled _ hg => exact hg

theorem Stage.sum (h : Stage r S g w) : S.snapshot.devices.length + w = g := by
  cases h with
  | waiting => rfl
  | served _ _ hsum => exact hsum
  | settled _ _ _ hsum => exact hsum

theorem Stage.granted_of_succeeded (h : Stage r S g w) (hs : S.snapshot.status = .succeeded) :
    g = r.amount := by
  cases h with
  | waiting => cases hs
  | served hprov =>
    have hs : _ = Status.succeeded := hs
    rw [hprov] at hs
    cases hs
  | settled _ _ hdone => exact hdone hs

theorem Stage.place (h : Stage r S g w) : ∃ i, S.snapshot.status.place? = some i := by
  cases h with
  | waiting => exact ⟨0, rfl⟩
  | served hs => exact ⟨1, by rw [hs]; rfl⟩
  | settled hs => exact ⟨_, hs⟩

/-- Every event keeps the account of a request and moves it forward. -/
theorem stage_step {stopped leased withdrawn : Bool} (h : Stage r S g w)
    (hp : Progress stopped S leased withdrawn T) :
    Stage r T (g + leased.toNat) (w + withdrawn.toNat) ∧ S.snapshot.Advances T.snapshot := by
  obtain ⟨i, hi⟩ := h.place
  cases hp with
  | rest => exact ⟨h, .refl hi⟩
  | @withdraw q v s d hd hn =>
    refine ⟨?_, .withoutDevice hi d⟩
    have hless := (Snapshot.perm_withoutDevice hd hn).length_eq
    rw [List.length_cons] at hless
    show Stage r ⟨q, v, s.withoutDevice d⟩ g (w + 1)
    cases h with
    | waiting => cases hd
    | served hs hg hsum => exact .served hs hg (by omega)
    | settled hs hg hdone hsum => exact .settled hs hg hdone (by omega)
  | takeUp =>
    cases h with
    | waiting => exact ⟨.served rfl r.amount_pos rfl, .of_le rfl rfl (by omega) (by omega)⟩
  | @grant q _ _ s d =>
    cases h with
    | served hs hg hsum =>
      -- the worker's count and the account are the same number
      have hplace : s.status.place? = some 1 := by rw [hs]; rfl
      have hmore : (s.withReservation ⟨d, .succeeded⟩ .succeeded).devices.length + w = g + 1 := by
        rw [Snapshot.devices_withReservation, List.length_append, List.length_singleton]
        omega
      by_cases hlast : g + 1 = r.amount
      · rw [if_pos hlast, if_pos hlast]
        exact ⟨.settled rfl (Nat.le_of_eq hlast) (fun _ => hlast) hmore,
          .of_le hplace rfl (by omega) (by omega)⟩
      · rw [if_neg hlast, if_neg hlast]
        exact ⟨.served rfl (by omega) hmore, .of_le hplace rfl (by omega) (by omega)⟩
  | leave =>
    refine ⟨?_, .refl hi⟩
    refine .settled hi h.granted_le ?_ h.sum
    exact h.granted_of_succeeded

/-- A whole run keeps the account of a request and moves it forward, as long as
the request stays entered. -/
theorem stage_run {τ : Engine} {s : Snapshot} {es : List Event} (hL : τ.ledger.Sound)
    (hs : τ.ledger.describe? r.id = some s) (h : Stage r (τ.standing r.id s) g w)
    (hk : τ.keeps r.id es = true) :
    ∃ t, (τ.run es).ledger.describe? r.id = some t ∧
      Stage r ((τ.run es).standing r.id t) (g + τ.grants r.id es) (w + τ.withdrawals r.id es) ∧
      s.Advances t := by
  induction es generalizing τ s g w with
  | nil =>
    obtain ⟨i, hi⟩ := h.place
    exact ⟨s, hs, h, .refl hi⟩
  | cons e rest ih =>
    have hrest : (τ.step e).keeps r.id rest = true := (Bool.and_eq_true_iff.mp hk).2
    obtain ⟨u, hu⟩ := Option.isSome_iff_exists.mp (live_of_keeps hrest)
    obtain ⟨hstage, hfirst⟩ := stage_step h (progress_step hL hs hu)
    obtain ⟨t, ht, hend, hlater⟩ := ih (sound_step τ e hL) hu hstage hrest
    refine ⟨t, ht, ?_, hfirst.trans hlater⟩
    rw [Nat.add_assoc, Nat.add_assoc] at hend
    exact hend

end

/-! ## Orderly lives -/

/-- Over a run, a request is granted at most what it asks for, and what becomes
of it at the end is a step forward from any earlier moment. -/
structure Orderly (τ : Engine) (r : Request) (es : List Event) : Prop where
  granted_le : τ.grants r.id es ≤ r.amount
  advances : ∀ fs gs, es = fs ++ gs → ∀ s t, (τ.run fs).ledger.describe? r.id = some s →
    (τ.run es).ledger.describe? r.id = some t → s.Advances t

/-- Nothing is queued or in the worker's hands under a name. -/
structure NoStray (σ : Engine) (id : String) : Prop where
  queued : σ.queued id = []
  serving : σ.serving? id = none

theorem orderly_of_no_stray {σ : Engine} {r : Request} {es : List Event} {now : Instant}
    (hL : σ.ledger.Sound) (ha : σ.Admits r) (hclean : σ.NoStray r.id)
    (hk : (σ.step (.submit now r)).keeps r.id es = true) :
    (σ.step (.submit now r)).Orderly r es := by
  have hsound := sound_step σ (.submit now r) hL
  have hstart := describe?_submit ha now
  have hwaiting :
      Stage r ((σ.step (.submit now r)).standing r.id (Snapshot.requested r.id)) 0 0 := by
    rw [standing_submit ha, hclean.queued, hclean.serving]
    exact .waiting
  generalize σ.step (.submit now r) = τ at *
  refine ⟨?_, ?_⟩
  · obtain ⟨t, -, hstage, -⟩ := stage_run hsound hstart hwaiting hk
    have hle := hstage.granted_le
    omega
  · -- the request has some stage at the earlier moment, and goes on from there
    rintro fs gs rfl s t hs ht
    obtain ⟨hfirst, hlater⟩ := keeps_append.mp hk
    obtain ⟨s', hs', hstage, -⟩ := stage_run hsound hstart hwaiting hfirst
    obtain rfl := Option.some.inj (hs'.symm.trans hs)
    have hmid : (τ.run fs).ledger.Sound := run_induct sound_step hsound fs
    obtain ⟨t', ht', -, hadv⟩ := stage_run hmid hs hstage hlater
    rw [← run_append] at ht'
    obtain rfl := Option.some.inj (ht'.symm.trans ht)
    exact hadv

/-! ## Strays -/

section
variable {τ : Engine} {r : Request} {id : String} {before : List Request}

/-- The worker can fulfil a request through a stray of its name while a later
request of this name is still queued. -/
theorem exists_served_by_stray (h : τ.Running id (before ++ [r])) (hw : τ.worker ≠ .gone)
    (hcount : τ.Counting)
    (hstray : (τ.serving? id).isSome ∨ ∃ q ∈ before, q.id = id) :
    ∃ υ rest, Reaches id τ υ ∧ υ.Running id (rest ++ [r]) ∧ υ.worker = .idle ∧ υ.Fulfilled id := by
  obtain ⟨υ, hreach, hυ, hidle, hserved⟩ := exists_idle h hw hcount
  rcases hstray with hserving | ⟨q, hq, hid⟩
  · exact ⟨υ, before, hreach, hυ, hidle, hserved hserving⟩
  · -- what stands before the stray is got out of the way first
    obtain ⟨first, rest, rfl⟩ := List.append_of_mem hq
    rw [List.append_assoc, List.cons_append] at hυ
    obtain ⟨φ, hdrain, hφ, hφidle⟩ := exists_drained hυ hidle
    obtain ⟨ψ, htaken, hψ, hψidle, hdone⟩ := exists_dequeued hφ hφidle
    exact ⟨ψ, rest, hreach.trans (hdrain.trans htaken), hψ, hψidle, hdone hid⟩

/-- An idle worker can take up a queued request whatever is queued before it. -/
theorem exists_taken_up (h : τ.Running r.id (before ++ [r])) (hw : τ.worker = .idle) :
    ∃ υ s, Reaches r.id τ υ ∧ υ.ledger.describe? r.id = some s ∧ s.status = .provisioning := by
  obtain ⟨φ, hdrain, hφ, hidle⟩ := exists_drained h hw
  obtain ⟨s, hs⟩ := Option.isSome_iff_exists.mp hφ.live
  have hm : Move φ (φ.takenUp r [] s) false := .takeUp hidle hφ.running hφ.queue_eq hs
  refine ⟨_, s.withStatus .provisioning, hdrain.trans (.move hm hφ.live), ?_, rfl⟩
  rw [describe?_takenUp hs, if_pos rfl]

end

/-- If a stray is there when a request is entered, its life need not be
orderly. -/
theorem exists_disorder {σ : Engine} {r : Request} (now : Instant) (ha : σ.Admits r)
    (hcount : σ.Counting) (hstray : ¬σ.NoStray r.id) :
    ∃ es, (σ.step (.submit now r)).keeps r.id es = true ∧
      ¬(σ.step (.submit now r)).Orderly r es := by
  have hlive : ((σ.step (.submit now r)).ledger.describe? r.id).isSome := by
    rw [describe?_submit ha]
    rfl
  rw [step_submit ha] at hlive ⊢
  have hrunning : (σ.entered now r).Running r.id (σ.queue ++ [r]) := ⟨ha.running, hlive, rfl⟩
  have hpending : ((σ.entered now r).serving? r.id).isSome ∨ ∃ q ∈ σ.queue, q.id = r.id := by
    by_contra hnone
    obtain ⟨hserving, hqueued⟩ := not_or.mp hnone
    refine hstray ⟨?_, Option.not_isSome_iff_eq_none.mp hserving⟩
    refine List.filter_eq_nil_iff.mpr fun q hq hid => ?_
    exact hqueued ⟨q, hq, of_decide_eq_true hid⟩
  obtain ⟨υ, rest, ⟨es, hes, rfl⟩, hυ, hidle, s, hs, hdone⟩ :=
    exists_served_by_stray hrunning ha.working hcount hpending
  obtain ⟨_, t, ⟨fs, hfs, rfl⟩, ht, hprov⟩ := exists_taken_up hυ hidle
  refine ⟨es ++ fs, keeps_append.mpr ⟨hes, hfs⟩, ?_⟩
  intro horderly
  -- a fulfilled request has gone back to being served
  have hadv := horderly.advances es fs rfl s t hs (by rw [run_append]; exact ht)
  have hstill := (hadv.settled hdone).1
  rw [hprov] at hstill
  cases hstill

/-- **Orderly lives.** The life of a request that is entered in a reachable
state is orderly over every run that keeps it entered, exactly if nothing is
queued or in the worker's hands under its name at that moment. -/
theorem orderly_iff_no_stray (d : EngineDraft) (members : List Host) (es : List Event)
    (now : Instant) (r : Request) (ha : ((d.engine members).run es).Admits r) :
    let σ := (d.engine members).run es
    let τ := σ.step (.submit now r)
    (∀ fs, τ.keeps r.id fs = true → τ.Orderly r fs) ↔ σ.NoStray r.id := by
  intro σ τ
  refine ⟨?_, ?_⟩
  · intro hall
    by_contra hstray
    obtain ⟨fs, hfs, hnot⟩ := exists_disorder now ha (counting_run d members es) hstray
    exact hnot (hall fs hfs)
  · intro hclean fs hk
    exact orderly_of_no_stray (sound_run d members es) ha hclean hk

/-- The life of the first request of an engine is orderly. -/
theorem orderly_first_request :
    let σ := ({} : EngineDraft).engine [Host.conventional "host-1"]
    let r : Request := ⟨"a", 1, by decide⟩
    σ.Admits r ∧ ∀ fs, (σ.step (.submit 0 r)).keeps "a" fs = true →
      (σ.step (.submit 0 r)).Orderly r fs := by
  intro σ r
  have ha : σ.Admits r := ⟨by decide, by decide, by decide⟩
  have hiff := orderly_iff_no_stray {} [Host.conventional "host-1"] [] 0 r ha
  exact ⟨ha, hiff.mpr ⟨by decide, by decide⟩⟩

/-- A request for one host that is entered, released and entered again before
the worker takes it up is granted two hosts, and is being served again after it
was fulfilled. -/
theorem resubmitted_is_disorderly :
    let hosts := [Host.conventional "host-1", Host.conventional "host-2"]
    let r : Request := ⟨"a", 1, by decide⟩
    let σ := (({} : EngineDraft).engine hosts).run [.submit 0 r, .release "a"]
    let τ := σ.step (.submit 0 r)
    let es : List Event := [.work, .work, .work, .work]
    σ.Admits r ∧ τ.keeps "a" es = true ∧ τ.grants "a" es = 2 ∧
      ((τ.run (es.take 2)).ledger.describe? "a").map (·.status) = some .succeeded ∧
      ((τ.run (es.take 3)).ledger.describe? "a").map (·.status) = some .provisioning ∧
      ¬τ.Orderly r es := by
  intro hosts r σ τ es
  have hgrants : τ.grants "a" es = 2 := by decide
  refine ⟨⟨by decide, by decide, by decide⟩, by decide, hgrants, by decide, by decide, ?_⟩
  intro horderly
  have hle : τ.grants "a" es ≤ 1 := horderly.granted_le
  omega

end Engine

end Fleet
