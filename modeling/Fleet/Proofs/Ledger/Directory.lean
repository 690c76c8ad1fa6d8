import Fleet.Proofs.Ledger.Returns
import Fleet.Proofs.Population.Changes

/-!
# The directory of a ledger

The directory holds the hosts that may be leased. Only changes of the population
touch it: a host that joins is put in, a host that leaves is taken out, and
whatever else happens to requests and devices leaves it alone.

* **members** — a ledger whose directory holds members only keeps to the members
  while it follows their changes (`Within.applyChange`), whichever hosts share a
  device identifier;
* **devices that are not there** — a device that the directory does not hold is
  not free, and nothing of it comes free when it is given back
  (`free_of_unknown`, `releaseDevice_of_unknown`); a request that is given back
  frees exactly those of its devices that the directory holds
  (`freed_release`), so none that is not there (`freed_release_of_unknown`).
-/

namespace Fleet.Ledger

/-! ## What leaves the directory alone -/

theorem directory_release (L : Ledger) (id : String) :
    (L.release id).1.directory = L.directory := by
  unfold release release?
  cases L.entries.get? id with
  | none => rfl
  | some e => exact directory_reclaimAll _ _

theorem directory_releaseAll (L : Ledger) (ids : List String) :
    (L.releaseAll ids).1.directory = L.directory := by
  induction ids generalizing L with
  | nil => rfl
  | cons id rest ih => rw [releaseAll_cons, ih, directory_release]

theorem directory_releaseDevice (L : Ledger) (d : String) :
    (L.releaseDevice d).1.directory = L.directory := by
  unfold releaseDevice
  rw [directory_reclaim, directory_detach]

theorem directory_extend? {L M : Ledger} {id : String} {term : Duration} {found : Bool}
    (h : L.extend? id term = some (M, found)) : M.directory = L.directory := by
  unfold extend? at h
  split at h
  · cases h
    rfl
  · obtain ⟨t, -, heq⟩ := Option.map_eq_some_iff.mp h
    cases heq
    rfl

/-! ## Members -/

/-- Every host of the directory is one of those. -/
def Within (L : Ledger) (hosts : List Host) : Prop :=
  ∀ d h, L.directory.get? d = some h → h ∈ hosts

section
variable {L M : Ledger} {hosts others : List Host}

theorem Within.congr (h : L.Within hosts) (hsame : M.directory = L.directory) : M.Within hosts := by
  unfold Within
  rw [hsame]
  exact h

theorem Within.mono (h : L.Within hosts) (hsub : ∀ q ∈ hosts, q ∈ others) : L.Within others :=
  fun d q hq => hsub q (h d q hq)

/-- A host that joins is a member when it is put in, and a host that leaves is
not in the directory any more, under any device. -/
theorem Within.applyChange (h : L.Within hosts) (hk : Keyed L.directory) (c : Change) :
    (L.applyChange c).1.Within (Change.replayOne hosts c) := by
  intro d q hq
  cases c with
  | added j =>
    rw [Change.mem_replayOne_added]
    unfold Ledger.applyChange at hq
    dsimp only at hq
    split at hq
    · exact Or.inr (h d q hq)
    · rw [Registry.get?_put] at hq
      split at hq
      · exact Or.inl (Option.some.inj hq).symm
      · exact Or.inr (h d q hq)
  | removed j =>
    rw [Change.mem_replayOne_removed]
    unfold Ledger.applyChange at hq
    dsimp only at hq
    split at hq
    · rw [Registry.get?_erase] at hq
      split at hq
      · cases hq
      · next hne =>
        refine ⟨h d q hq, ?_⟩
        rintro rfl
        exact hne (hk d q hq).symm
    · next hother =>
      refine ⟨h d q hq, ?_⟩
      -- what is under its device is another version of the host that leaves
      rintro rfl
      exact hother (by rw [hk d q hq]; exact hq)

theorem Within.enrol (h : L.Within hosts) {j : Host} (hj : j ∈ hosts) :
    (L.enrol j).Within hosts := by
  intro d q hq
  unfold Ledger.enrol at hq
  split at hq
  · exact h d q hq
  · rw [Registry.get?_put] at hq
    split at hq
    · rw [← Option.some.inj hq]
      exact hj
    · exact h d q hq

theorem within_ofHosts (hosts : List Host) : (ofHosts hosts).Within hosts := by
  have hfold : ∀ (rest : List Host) (L : Ledger), (∀ j ∈ rest, j ∈ hosts) → L.Within hosts →
      (rest.foldl enrol L).Within hosts := by
    intro rest
    induction rest with
    | nil => exact fun L _ hL => hL
    | cons j rest ih =>
      intro L hin hL
      exact ih _ (fun q hq => hin q (List.mem_cons_of_mem j hq))
        (hL.enrol (hin j List.mem_cons_self))
  exact hfold hosts {} (fun j hj => hj) fun d q hq => by cases hq

/-! ## Devices that are not there -/

theorem unknown_of_within (h : L.Within hosts) (hk : Keyed L.directory) {d : String}
    (hout : ∀ q ∈ hosts, q.deviceId ≠ d) : L.directory.get? d = none := by
  cases hq : L.directory.get? d with
  | none => rfl
  | some q => exact absurd (hk d q hq) (hout q (h d q hq))

theorem free_of_unknown (hL : L.Sound) {d : String} (hd : L.directory.get? d = none) :
    ∀ q ∈ L.free, q.deviceId ≠ d := by
  rintro q hq rfl
  rw [hL.parted.free_current q hq] at hd
  cases hd

theorem reclaim_of_unknown {d : String} (hd : L.directory.get? d = none) :
    L.reclaim d = (L, false) := by
  unfold reclaim
  rw [hd]

/-- A device that the directory does not hold leaves its request, and nothing
comes free. -/
theorem releaseDevice_of_unknown {d : String} (hd : L.directory.get? d = none) :
    L.releaseDevice d = (L.detach d, false) := by
  rw [← directory_detach L d] at hd
  exact reclaim_of_unknown hd

/-- A request that is given back frees exactly those of its devices that the
directory holds. -/
theorem freed_release (hL : L.Sound) {id : String} {s : Snapshot}
    (hs : L.describe? id = some s) :
    (L.release id).2 = (s.devices.filter L.directory.has).length := by
  rw [release_eq hL, returns_of_some hs, hostsOf]
  exact (List.length_filterMap_eq_countP ..).trans List.countP_eq_length_filter

/-- A device that the directory does not hold is not among those that come free
with its request. -/
theorem freed_release_of_unknown (hL : L.Sound) {id device : String} {s : Snapshot}
    (hs : L.describe? id = some s) (hd : L.directory.get? device = none) :
    (L.release id).2 =
      (s.devices.filter fun x => x ≠ device ∧ L.directory.has x).length := by
  have hunknown : L.directory.has device = false := congrArg Option.isSome hd
  rw [freed_release hL hs]
  refine congrArg List.length (List.filter_congr fun x _ => ?_)
  by_cases hx : x = device
  · rw [hx, hunknown]
    simp
  · simp [hx]

end

end Fleet.Ledger
