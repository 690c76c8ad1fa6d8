import Fleet.Engine.Ledger
import Fleet.Proofs.Registry

/-!
# What the operations of a ledger do to its requests

The view of a ledger through which its requests are looked at is `describe?`.
Each operation has one equation here that says what it does to that view:

* **own request** — `submit`, `setSnapshot` and the ways back change the
  request that they name and no other;
* **leases** — `grant?_of_some` and its companions say what an attempt to
  lease a host comes to;
* **hosts only** — `reclaim` and `applyChange` leave the requests alone.
-/

namespace Fleet.Ledger

/-! ## The view -/

theorem describe?_eq_some {L : Ledger} {id : String} {s : Snapshot} :
    L.describe? id = some s ↔ ∃ e, L.entries.get? id = some e ∧ e.snapshot = s :=
  Option.map_eq_some_iff

theorem describe?_eq_none {L : Ledger} {id : String} :
    L.describe? id = none ↔ L.entries.get? id = none :=
  Option.map_eq_none_iff

/-- The requests are read off the entries alone. -/
theorem describe?_congr {L M : Ledger} (h : M.entries = L.entries) (id : String) :
    M.describe? id = L.describe? id := by
  unfold describe?
  rw [h]

/-! ## Single requests -/

theorem get?_setSnapshot (L : Ledger) (id other : String) (s : Snapshot) :
    (L.setSnapshot id s).entries.get? other =
      if other = id then (L.entries.get? id).map fun e => { e with snapshot := s }
      else L.entries.get? other := by
  unfold setSnapshot
  split
  · next hnone =>
    split
    · next heq => rw [heq, hnone]; rfl
    · rfl
  · next e hsome =>
    rw [Registry.get?_put, hsome]
    rfl

theorem describe?_setSnapshot (L : Ledger) (id other : String) (s : Snapshot) :
    (L.setSnapshot id s).describe? other =
      if other = id then (L.describe? id).map fun _ => s else L.describe? other := by
  unfold describe?
  rw [get?_setSnapshot]
  split
  · rw [Option.map_map, Option.map_map]
    rfl
  · rfl

theorem describe?_submit (L : Ledger) (id other : String) (expires : Instant) :
    (L.submit id expires).describe? other =
      if other = id then some (Snapshot.requested id) else L.describe? other := by
  show Option.map _ (Registry.get? (Registry.put _ _ _) _) = _
  rw [Registry.get?_put]
  split <;> rfl

theorem markProvisioning_of_none {L : Ledger} {id : String} (h : L.describe? id = none) :
    L.markProvisioning id = (L, false) := by
  unfold markProvisioning
  rw [describe?_eq_none.mp h]

theorem markProvisioning_of_some {L : Ledger} {id : String} {s : Snapshot}
    (h : L.describe? id = some s) :
    L.markProvisioning id = (L.setSnapshot id (s.withStatus .provisioning), true) := by
  obtain ⟨e, he, rfl⟩ := describe?_eq_some.mp h
  unfold markProvisioning
  rw [he]

/-- A lease takes the first free host and appends it to the reservations. -/
theorem grant?_of_some {L : Ledger} {id : String} {s : Snapshot} {h : Host} {rest : List Host}
    (hs : L.describe? id = some s) (hfree : L.free = h :: rest) (last : Bool) :
    L.grant? id last = .granted h (setSnapshot { L with free := rest } id
      (s.withReservation ⟨h.deviceId, .succeeded⟩
        (if last then .succeeded else .provisioning))) := by
  obtain ⟨e, he, rfl⟩ := describe?_eq_some.mp hs
  unfold grant?
  rw [he, hfree]

theorem grant?_of_free_nil {L : Ledger} {id : String} {s : Snapshot}
    (hs : L.describe? id = some s) (hfree : L.free = []) (last : Bool) :
    L.grant? id last = .noHost := by
  obtain ⟨e, he, rfl⟩ := describe?_eq_some.mp hs
  unfold grant?
  rw [he, hfree]

theorem grant?_of_none {L : Ledger} {id : String} (h : L.describe? id = none) (last : Bool) :
    L.grant? id last = .abandoned := by
  unfold grant?
  rw [describe?_eq_none.mp h]

theorem describe?_extend? {L M : Ledger} {id : String} {term : Duration} {found : Bool}
    (h : L.extend? id term = some (M, found)) (other : String) :
    M.describe? other = L.describe? other := by
  unfold extend? at h
  split at h
  · cases h; rfl
  · next e he =>
    obtain ⟨t, -, heq⟩ := Option.map_eq_some_iff.mp h
    cases heq
    show Option.map _ (Registry.get? (Registry.put _ _ _) _) = _
    rw [Registry.get?_put]
    split
    · next hid => rw [hid, describe?_eq_some.mpr ⟨e, he, rfl⟩]; rfl
    · rfl

/-! ## Hosts -/

theorem entries_reclaim (L : Ledger) (d : String) : (L.reclaim d).1.entries = L.entries := by
  unfold reclaim
  split
  · rfl
  · split <;> rfl

theorem directory_reclaim (L : Ledger) (d : String) :
    (L.reclaim d).1.directory = L.directory := by
  unfold reclaim
  split
  · rfl
  · split <;> rfl

theorem entries_reclaimAll (L : Ledger) (ds : List String) :
    (L.reclaimAll ds).1.entries = L.entries := by
  induction ds generalizing L with
  | nil => rfl
  | cons d rest ih => exact (ih _).trans (entries_reclaim L d)

theorem directory_reclaimAll (L : Ledger) (ds : List String) :
    (L.reclaimAll ds).1.directory = L.directory := by
  induction ds generalizing L with
  | nil => rfl
  | cons d rest ih => exact (ih _).trans (directory_reclaim L d)

theorem entries_applyChange (L : Ledger) (c : Change) :
    (L.applyChange c).1.entries = L.entries := by
  unfold applyChange
  cases c with
  | added h => dsimp only; split <;> rfl
  | removed h => dsimp only; split <;> rfl

theorem directory_setSnapshot (L : Ledger) (id : String) (s : Snapshot) :
    (L.setSnapshot id s).directory = L.directory := by
  unfold setSnapshot
  split <;> rfl

theorem entries_enrol (L : Ledger) (h : Host) : (L.enrol h).entries = L.entries := by
  unfold enrol
  split <;> rfl

/-- No request is there at the start. -/
theorem describe?_ofHosts (hosts : List Host) (id : String) :
    (ofHosts hosts).describe? id = none := by
  have hfold : ∀ L : Ledger, (hosts.foldl enrol L).entries = L.entries := by
    induction hosts with
    | nil => exact fun L => rfl
    | cons h rest ih => exact fun L => (ih (L.enrol h)).trans (entries_enrol L h)
  exact describe?_eq_none.mpr (congrArg (Registry.get? · id) (hfold {}))

/-! ## Ways back -/

theorem describe?_release? {L M : Ledger} {id : String} {n : Nat}
    (h : L.release? id = some (M, n)) (other : String) :
    M.describe? other = if other = id then none else L.describe? other := by
  unfold release? at h
  split at h
  · cases h
  · next e he =>
    have hM := congrArg Prod.fst (Option.some.inj h)
    rw [← show _ = M from hM, describe?_congr (entries_reclaimAll ..)]
    show Option.map _ (Registry.get? (Registry.erase _ _) _) = _
    rw [Registry.get?_erase]
    split <;> rfl

theorem describe?_release (L : Ledger) (id other : String) :
    (L.release id).1.describe? other = if other = id then none else L.describe? other := by
  unfold release
  cases h : L.release? id with
  | some p => exact describe?_release? h other
  | none =>
    have hnone : L.describe? id = none := by
      cases hs : L.describe? id with
      | none => rfl
      | some s =>
        obtain ⟨e, he, -⟩ := describe?_eq_some.mp hs
        unfold release? at h
        rw [he] at h
        cases h
    show L.describe? other = _
    split
    · next heq => rw [heq, hnone]
    · rfl

/-- Requests are taken out one by one, and one that is not there is passed by. -/
theorem releaseAll_cons (L : Ledger) (id : String) (rest : List String) :
    (L.releaseAll (id :: rest)).1 = ((L.release id).1.releaseAll rest).1 := by
  rw [releaseAll, release]
  cases L.release? id <;> rfl

theorem describe?_releaseAll (L : Ledger) (ids : List String) (other : String) :
    (L.releaseAll ids).1.describe? other = if other ∈ ids then none else L.describe? other := by
  induction ids generalizing L with
  | nil => rfl
  | cons id rest ih =>
    rw [releaseAll_cons, ih, describe?_release]
    by_cases hid : other = id
    · rw [if_pos hid, ite_self, if_pos (hid ▸ List.mem_cons_self)]
    · rw [if_neg hid]
      by_cases hrest : other ∈ rest
      · rw [if_pos hrest, if_pos (List.mem_cons_of_mem _ hrest)]
      · rw [if_neg hrest, if_neg (fun h => (List.mem_cons.mp h).elim hid hrest)]

end Fleet.Ledger
