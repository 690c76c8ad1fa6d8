import Fleet.Proofs.Engine.Conservation
import Fleet.Proofs.Ledger.Returns

/-!
# The ways back are exact

Hosts come back to an engine with a request, with the requests whose deadline
has passed, or one at a time. In every reachable state each of the three does
what it is for and nothing else:

* **requests** — `release_eq`: the request is taken out, the hosts that the
  directory holds for its devices are free again behind the others, and a
  second time there is nothing to give back (`release_again`);
* **deadlines** — `releaseExpired_eq`: the requests whose deadline has passed
  are given back one after the other, whichever order they are taken in
  (`foldl_release`);
* **devices** — `freed_releaseDevice_iff`: a device comes free exactly if the
  directory holds it and it is not free yet.

`ways_back_exact` puts the three together.
-/

namespace Fleet.Engine

/-- The engine with those requests taken out and their hosts free again, request
by request. -/
def without (σ : Engine) (ids : List String) : Engine :=
  { σ with
    ledger :=
      { σ.ledger with
        entries := σ.ledger.entries.filter fun e => e.1 ∉ ids
        free := σ.ledger.free ++ ids.flatMap σ.ledger.returns }
    permit := σ.permit || !ids.isEmpty }

section
variable {σ : Engine}

theorem get?_without (σ : Engine) (ids : List String) (other : String) :
    (σ.without ids).ledger.entries.get? other =
      if other ∈ ids then none else σ.ledger.entries.get? other :=
  Registry.get?_filter_notMem ..

/-! ## Requests -/

theorem release_eq (hL : σ.ledger.Sound) (id : String) :
    σ.release id = (σ.without [id], (σ.ledger.returns id).length) := by
  unfold release without
  rw [Ledger.release_eq hL]
  simp [wake, Registry.erase]

theorem release_of_unknown {id : String} (hs : σ.ledger.describe? id = none) :
    σ.release id = ({ σ with permit := true }, 0) := by
  unfold release
  rw [Ledger.release_of_unknown hs]
  simp [wake]

/-- What has been given back cannot be given back once more. -/
theorem release_again (σ : Engine) (id : String) :
    (σ.release id).1.release id = ((σ.release id).1, 0) := by
  have hgone : (σ.release id).1.ledger.describe? id = none := by
    show (σ.ledger.release id).1.describe? id = none
    simp [Ledger.describe?_release]
  rw [release_of_unknown hgone]
  -- the first time has left a permit already
  simp [release, wake]

/-! ## Deadlines -/

/-- Giving requests back one after the other takes all of them out, and leaves a
permit if there are any. -/
theorem foldl_release_eq (ids : List String) :
    ids.foldl (fun τ id => (τ.release id).1) σ =
      { σ with ledger := (σ.ledger.releaseAll ids).1, permit := σ.permit || !ids.isEmpty } := by
  induction ids generalizing σ with
  | nil => simp [Ledger.releaseAll]
  | cons id rest ih =>
    rw [List.foldl_cons, ih, Ledger.releaseAll_cons]
    simp [release, wake]

/-- Whichever order the expired requests are given back in, the engine loses
them and no others. -/
theorem foldl_release (hL : σ.ledger.Sound) {now : Instant} {ids : List String}
    (hids : ids.Perm (σ.ledger.expiredAt now)) :
    ids.foldl (fun τ id => (τ.release id).1) σ = σ.without ids := by
  rw [foldl_release_eq, Ledger.releaseAll_expired hL hids]
  simp only [without, hids.mem_iff]

theorem releaseExpired_eq (hL : σ.ledger.Sound) (now : Instant) :
    σ.releaseExpired now =
      ((σ.ledger.expiredAt now).foldl (fun τ id => (τ.release id).1) σ,
        (σ.ledger.expiredAt now).length) := by
  have hall := Ledger.releaseAll_expired hL (List.Perm.refl (σ.ledger.expiredAt now))
  rw [foldl_release_eq, hall]
  unfold releaseExpired Ledger.releaseExpired
  rw [hall]
  -- there is a permit if any request was due
  cases σ.ledger.expiredAt now <;> simp [wake]

/-! ## Single devices -/

/-- A device comes free exactly if the directory holds it and it is not free
yet. -/
theorem freed_releaseDevice_iff (hL : σ.ledger.Sound) (device : String) :
    (σ.releaseDevice device).2 = true ↔
      σ.ledger.directory.has device = true ∧ ∀ q ∈ σ.ledger.free, q.deviceId ≠ device := by
  show (σ.ledger.releaseDevice device).2 = true ↔ _
  by_cases hd : device ∈ σ.ledger.leased
  · have hout : ∀ q ∈ σ.ledger.free, q.deviceId ≠ device := by
      rintro q hq rfl
      exact hL.parted.apart q hq hd
    rw [Ledger.releaseDevice_eq_of_leased hL hd]
    cases hq : σ.ledger.directory.get? device with
    | none => simp [Ledger.hostsOf, Registry.has, hq]
    | some q => simpa [Ledger.hostsOf, Registry.has, hq] using hout
  · rw [Ledger.releaseDevice_eq_of_not hL hd]
    simp only [Bool.false_eq_true, false_iff, not_and, Registry.has, Option.isSome_iff_exists]
    rintro ⟨h, hq⟩ hout
    -- a device of the directory that nobody holds is free
    obtain ⟨q, hin, hqd⟩ := (hL.parted.covered device h hq).resolve_right hd
    exact hout q hin hqd

/-- Taking a device back changes the requests, and puts the device behind the
free hosts if it comes free. -/
theorem fst_releaseDevice (σ : Engine) (device : String) :
    (σ.releaseDevice device).1 =
      { σ with
        ledger :=
          { σ.ledger with
            entries := (σ.ledger.detach device).entries
            free := σ.ledger.free ++
              if (σ.releaseDevice device).2 then σ.ledger.hostsOf [device] else [] }
        permit := σ.permit || (σ.releaseDevice device).2 } := by
  show wake { σ with ledger := (σ.ledger.releaseDevice device).1 } _ = _
  rw [Ledger.fst_releaseDevice]
  rfl

/-- Afterwards a device is free once if the directory holds it, and not at all
otherwise. -/
theorem filter_free_releaseDevice (hL : σ.ledger.Sound) (device : String) :
    (σ.releaseDevice device).1.ledger.free.filter (fun q => q.deviceId = device) =
      σ.ledger.hostsOf [device] := by
  have hout : device ∉ (σ.ledger.releaseDevice device).1.leased := by
    unfold Ledger.releaseDevice Ledger.leased
    rw [Ledger.entries_reclaim]
    exact Ledger.notMem_leased_detach hL device
  show (σ.ledger.releaseDevice device).1.free.filter _ = _
  rw [Ledger.filter_free (hL.releaseDevice device) hout]
  exact Ledger.hostsOf_congr (congrArg (·.ledger.directory) (fst_releaseDevice σ device)) _

end

/-- **Exact ways back.** In every reachable state: a request that is given back
is taken out, its hosts come free behind the others in the order of its
reservations and are counted, and giving it back once more does nothing. The
requests whose deadline has passed are given back one after the other, and each
order of them leads to the same state but for the order in which their hosts
come free. A device is taken from the one request that holds it and comes free
exactly if the directory holds it and it was not free, so that afterwards it is
free once if the directory holds it, and not at all otherwise. -/
theorem ways_back_exact (d : EngineDraft) (members : List Host) (es : List Event) :
    let σ := (d.engine members).run es
    (∀ ids other, (σ.without ids).ledger.entries.get? other =
      if other ∈ ids then none else σ.ledger.entries.get? other) ∧
      (∀ id,
        σ.release id = (σ.without [id], (σ.ledger.returns id).length) ∧
          (σ.release id).1.release id = ((σ.release id).1, 0)) ∧
      (∀ now,
        let due := σ.ledger.expiredAt now
        (∀ id, id ∈ due ↔ ∃ e, σ.ledger.entries.get? id = some e ∧ e.expires < now) ∧
          due.Nodup ∧
          σ.releaseExpired now =
            (due.foldl (fun τ id => (τ.release id).1) σ, due.length) ∧
          ∀ ids : List String, ids.Perm due →
            ids.foldl (fun τ id => (τ.release id).1) σ = σ.without ids) ∧
      ∀ device,
        let τ := (σ.releaseDevice device).1
        let freed := (σ.releaseDevice device).2
        (∀ id other s t, σ.ledger.describe? id = some s → σ.ledger.describe? other = some t →
          device ∈ s.devices → device ∈ t.devices → id = other) ∧
          (∀ id, τ.ledger.entries.get? id = (σ.ledger.entries.get? id).map fun e =>
            { e with snapshot := e.snapshot.withoutDevice device }) ∧
          τ =
            { σ with
              ledger :=
                { σ.ledger with
                  entries := (σ.ledger.detach device).entries
                  free := σ.ledger.free ++ if freed then σ.ledger.hostsOf [device] else [] }
              permit := σ.permit || freed } ∧
          τ.ledger.free.filter (fun q => q.deviceId = device) = σ.ledger.hostsOf [device] ∧
          (freed = true ↔
            σ.ledger.directory.has device = true ∧ ∀ q ∈ σ.ledger.free, q.deviceId ≠ device) := by
  intro σ
  have hL : σ.ledger.Sound := sound_run d members es
  refine ⟨get?_without σ, ?_, ?_, ?_⟩
  · intro id
    exact ⟨release_eq hL id, release_again σ id⟩
  · intro now due
    refine ⟨?_, ?_, releaseExpired_eq hL now, fun ids hids => foldl_release hL hids⟩
    · exact fun id => Ledger.mem_expiredAt hL.names_nodup
    · exact Ledger.nodup_expiredAt hL.names_nodup now
  · intro device τ freed
    exact ⟨fun id other s t hs ht => hL.eq_of_mem hs ht, Ledger.get?_releaseDevice hL device,
      fst_releaseDevice σ device, filter_free_releaseDevice hL device,
      freed_releaseDevice_iff hL device⟩

end Fleet.Engine
