import Fleet.Proofs.Ledger.Conservation

/-!
# What comes back to a ledger

A device comes back as the host that the directory holds for it now, or not at
all when the directory holds none. In a sound ledger whatever a request holds is
not free, so none of it is passed by, and each way back has one equation:

* **requests** — `release_eq`: a request is taken out, and its hosts are
  appended to the free ones in the order of its reservations and counted;
* **deadlines** — `releaseAll_eq`: several requests are taken out one after the
  other, and the order matters to the order of the free hosts alone;
* **devices** — `releaseDevice_eq_of_leased` and `releaseDevice_eq_of_not`: a
  device is taken from its holder, and nothing happens to one that has none.
-/

namespace Fleet.Ledger

/-- The hosts that the directory holds for devices, in order. -/
def hostsOf (L : Ledger) (ds : List String) : List Host := ds.filterMap L.directory.get?

/-- The hosts that come back with a request. -/
def returns (L : Ledger) (id : String) : List Host :=
  (L.describe? id).elim [] fun s => L.hostsOf s.devices

section
variable {L : Ledger} {id : String}

theorem returns_of_some {s : Snapshot} (hs : L.describe? id = some s) :
    L.returns id = L.hostsOf s.devices := by
  simp [returns, hs]

theorem returns_of_none (hs : L.describe? id = none) : L.returns id = [] := by
  simp [returns, hs]

theorem hostsOf_congr {M : Ledger} (h : M.directory = L.directory) (ds : List String) :
    M.hostsOf ds = L.hostsOf ds := by
  simp only [hostsOf, h]

theorem fst_reclaim (L : Ledger) (d : String) :
    (L.reclaim d).1 =
      { L with free := L.free ++ if (L.reclaim d).2 then L.hostsOf [d] else [] } := by
  unfold reclaim
  cases hq : L.directory.get? d with
  | none => simp
  | some q => by_cases hin : q ∈ L.free <;> simp [hostsOf, hin, hq]

/-! ## Devices that are held -/

theorem reclaim_of_held {d : String} {held : List String} (hk : Keyed L.directory)
    (hp : Parted L.directory L.free (d :: held)) :
    L.reclaim d = ({ L with free := L.free ++ L.hostsOf [d] }, !(L.hostsOf [d]).isEmpty) := by
  unfold reclaim hostsOf
  cases hq : L.directory.get? d with
  | none => simp [hq]
  | some q =>
    have hout : q ∉ L.free := by
      intro hin
      apply hp.apart q hin
      simp [hk d q hq]
    simp [hq, hout]

/-- Devices that are held come back in order, each that the directory holds. -/
theorem reclaimAll_of_held {held : List String} (ds : List String) (hk : Keyed L.directory)
    (hp : Parted L.directory L.free (ds ++ held)) :
    L.reclaimAll ds = ({ L with free := L.free ++ L.hostsOf ds }, (L.hostsOf ds).length) := by
  induction ds generalizing L with
  | nil => simp [reclaimAll, hostsOf]
  | cons d rest ih =>
    have hnext := parted_reclaim hk hp
    have hsplit : L.hostsOf (d :: rest) = L.hostsOf [d] ++ L.hostsOf rest := by
      simp only [hostsOf, ← List.filterMap_append, List.singleton_append]
    rw [reclaim_of_held hk hp] at hnext
    have htail := ih (L := { L with free := L.free ++ L.hostsOf [d] }) hk hnext
    simp only [reclaimAll]
    rw [reclaim_of_held hk hp, htail, hsplit]
    -- the directory is still the same
    show (({ L with free := L.free ++ L.hostsOf [d] ++ L.hostsOf rest } : Ledger), _) = _
    cases hq : L.directory.get? d <;> simp [hostsOf, hq, Nat.add_comm]

/-! ## Requests -/

theorem release_of_unknown (hs : L.describe? id = none) : L.release id = (L, 0) := by
  have hnone := describe?_eq_none.mp hs
  simp [release, release?, hnone]

/-- Giving a request back takes it out, and its hosts come back in the order of
its reservations. -/
theorem release_eq (hL : L.Sound) (id : String) :
    L.release id =
      ({ L with entries := L.entries.erase id, free := L.free ++ L.returns id },
        (L.returns id).length) := by
  cases hs : L.describe? id with
  | none =>
    have hout : id ∉ L.entries.names := Registry.get?_eq_none_iff.mp (describe?_eq_none.mp hs)
    simp [release_of_unknown hs, returns_of_none hs, Registry.erase_of_notMem hout]
  | some s =>
    have hheld := hL.parted.perm (leased_perm hL.names_nodup hs)
    rw [returns_of_some hs]
    obtain ⟨e, he, rfl⟩ := describe?_eq_some.mp hs
    simp only [release, release?, he, Option.getD_some]
    exact reclaimAll_of_held (L := { L with entries := L.entries.erase id }) _ hL.keyed hheld

theorem returns_release (hL : L.Sound) {other : String} (hne : other ≠ id) :
    (L.release id).1.returns other = L.returns other := by
  unfold returns
  rw [describe?_release, if_neg hne, release_eq hL]
  rfl

/-! ## Deadlines -/

theorem mem_expiredAt (hn : L.entries.names.Nodup) {now : Instant} :
    id ∈ L.expiredAt now ↔ ∃ e, L.entries.get? id = some e ∧ e.expires < now := by
  simp only [expiredAt, List.mem_map, List.mem_filter, decide_eq_true_eq]
  constructor
  · rintro ⟨⟨name, e⟩, ⟨hin, hlt⟩, rfl⟩
    exact ⟨e, Registry.get?_of_mem hn hin, hlt⟩
  · rintro ⟨e, he, hlt⟩
    exact ⟨(id, e), ⟨Registry.mem_of_get? he, hlt⟩, rfl⟩

theorem nodup_expiredAt (hn : L.entries.names.Nodup) (now : Instant) :
    (L.expiredAt now).Nodup :=
  hn.sublist (List.filter_sublist.map _)

/-- Requests that are taken out one after the other are counted, and their hosts
come back in that order. -/
theorem releaseAll_eq (hL : L.Sound) {ids : List String} (hn : ids.Nodup)
    (hlive : ∀ id ∈ ids, (L.describe? id).isSome) :
    L.releaseAll ids =
      ({ L with entries := L.entries.filter fun e => e.1 ∉ ids,
                free := L.free ++ ids.flatMap L.returns }, ids.length) := by
  induction ids generalizing L with
  | nil => simp [releaseAll]
  | cons id rest ih =>
    obtain ⟨hout, hrest⟩ := List.nodup_cons.mp hn
    have hne : ∀ other ∈ rest, other ≠ id := by
      rintro other hin rfl
      exact hout hin
    -- the others are still there, and the same comes back with them
    have hstay : ∀ other ∈ rest, ((L.release id).1.describe? other).isSome := by
      intro other hin
      rw [describe?_release, if_neg (hne other hin)]
      exact hlive other (List.mem_cons_of_mem _ hin)
    have hsame : rest.flatMap (L.release id).1.returns = rest.flatMap L.returns := by
      apply List.flatMap_congr
      intro other hin
      exact returns_release hL (hne other hin)
    have htail := ih (hL.release id) hrest hstay
    rw [hsame] at htail
    obtain ⟨s, hs⟩ := Option.isSome_iff_exists.mp (hlive id List.mem_cons_self)
    obtain ⟨e, he, -⟩ := describe?_eq_some.mp hs
    have hfound : L.release? id = some (L.release id) := by
      simp [release, release?, he]
    simp only [releaseAll, hfound, htail]
    rw [release_eq hL]
    simp [Registry.erase, List.filter_filter, Bool.and_comm]

/-- Whichever order the expired requests are taken out in, they are the ones
that are gone and counted. -/
theorem releaseAll_expired (hL : L.Sound) {now : Instant} {ids : List String}
    (hids : ids.Perm (L.expiredAt now)) :
    L.releaseAll ids =
      ({ L with entries := L.entries.filter fun e => e.1 ∉ L.expiredAt now,
                free := L.free ++ ids.flatMap L.returns }, (L.expiredAt now).length) := by
  have hn : ids.Nodup := hids.nodup_iff.mpr (nodup_expiredAt hL.names_nodup now)
  have hlive : ∀ id ∈ ids, (L.describe? id).isSome := by
    intro id hin
    obtain ⟨e, he, -⟩ := (mem_expiredAt hL.names_nodup).mp (hids.mem_iff.mp hin)
    simp [describe?, he]
  rw [releaseAll_eq hL hn hlive, hids.length_eq]
  simp [hids.mem_iff]

/-! ## Single devices -/

/-- Whoever holds a device loses it, and it comes back if the directory holds
it. -/
theorem releaseDevice_eq_of_leased (hL : L.Sound) {d : String} (hd : d ∈ L.leased) :
    L.releaseDevice d =
      ({ L.detach d with free := L.free ++ L.hostsOf [d] }, !(L.hostsOf [d]).isEmpty) := by
  obtain ⟨held, hheld⟩ : ∃ held, L.leased.Perm (d :: held) :=
    ⟨_, List.perm_cons_erase hd⟩
  have hparted : Parted (L.detach d).directory (L.detach d).free (d :: held) := by
    rw [directory_detach, free_detach]
    exact hL.parted.perm hheld
  have hkeyed : Keyed (L.detach d).directory := L.directory_detach d ▸ hL.keyed
  unfold releaseDevice
  rw [reclaim_of_held hkeyed hparted, hostsOf_congr (L.directory_detach d), free_detach]

/-- Nothing happens to a device that nobody holds: it is free already or is not
in the directory. -/
theorem releaseDevice_eq_of_not (hL : L.Sound) {d : String} (hd : d ∉ L.leased) :
    L.releaseDevice d = (L, false) := by
  unfold releaseDevice
  rw [detach_of_notMem hd, reclaim_of_notMem hL hd]

theorem fst_releaseDevice (L : Ledger) (d : String) :
    (L.releaseDevice d).1 =
      { L with
        entries := (L.detach d).entries
        free := L.free ++ if (L.releaseDevice d).2 then L.hostsOf [d] else [] } := by
  unfold releaseDevice
  rw [fst_reclaim, free_detach, directory_detach, hostsOf_congr (L.directory_detach d)]

theorem notMem_leased_detach (hL : L.Sound) (d : String) : d ∉ (L.detach d).leased := by
  intro hin
  have hn : (L.detach d).entries.names.Nodup := by
    have hnext := (hL.releaseDevice d).names_nodup
    rwa [releaseDevice, entries_reclaim] at hnext
  obtain ⟨⟨id, e⟩, he, hd⟩ := mem_leased.mp hin
  have hget := Registry.get?_of_mem hn he
  rw [get?_detach hL] at hget
  obtain ⟨old, -, rfl⟩ := Option.map_eq_some_iff.mp hget
  simp [Snapshot.devices_withoutDevice] at hd

/-- A device that nobody holds is free once if the directory holds it, and not at
all otherwise. -/
theorem filter_free (hL : L.Sound) {d : String} (hd : d ∉ L.leased) :
    L.free.filter (fun q => q.deviceId = d) = L.hostsOf [d] := by
  unfold hostsOf
  cases hq : L.directory.get? d with
  | none =>
    simp only [List.filterMap_cons, hq, List.filterMap_nil, List.filter_eq_nil_iff]
    intro q hin heq
    have hcur := hL.parted.free_current q hin
    simp_all
  | some h =>
    simp only [List.filterMap_cons, hq, List.filterMap_nil]
    have hdistinct := hL.parted.free_distinct
    obtain ⟨q, hin, hqd⟩ := (hL.parted.covered d h hq).resolve_right hd
    have hqh : q = h := by
      have hcur := hL.parted.free_current q hin
      rw [hqd, hq] at hcur
      exact (Option.some.inj hcur).symm
    subst hqh
    -- no other free host is this device
    apply List.perm_singleton.mp
    rw [List.perm_ext_iff_of_nodup (hdistinct.of_map.filter _) (List.nodup_singleton q)]
    intro x
    simp only [List.mem_filter, decide_eq_true_eq, List.mem_singleton]
    constructor
    · rintro ⟨hx, hxd⟩
      exact List.inj_on_of_nodup_map hdistinct hx hin (hxd.trans hqd.symm)
    · rintro rfl
      exact ⟨hin, hqd⟩

end

end Fleet.Ledger
