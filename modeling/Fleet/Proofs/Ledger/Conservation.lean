import Fleet.Engine.Worker
import Fleet.Proofs.Ledger.Parting
import Fleet.Proofs.Ledger.Requests

/-!
# Conservation of hosts in a ledger

`Ledger.Sound` says that the free hosts and the devices that requests hold
part the directory between them. A ledger is sound at the start
(`sound_ofHosts`), and every operation keeps it sound. What carries a way back
through is that a device that a request has just lost, and that is not free
again yet, still counts as held.

In a sound ledger a device has at most one holder, so taking it back changes
the one request that holds it (`describe?_releaseDevice`).
-/

namespace Fleet

/-- The devices that a snapshot names, in the order of its reservations. -/
def Snapshot.devices (s : Snapshot) : List String := s.reservations.map (·.deviceId)

theorem Snapshot.holds_iff {s : Snapshot} {d : String} : s.holds d = true ↔ d ∈ s.devices := by
  simp [holds, devices]

theorem Snapshot.devices_withoutDevice (s : Snapshot) (d : String) :
    (s.withoutDevice d).devices = s.devices.filter (· ≠ d) := by
  unfold withoutDevice devices
  rw [List.filter_map]
  rfl

theorem Snapshot.devices_withReservation (s : Snapshot) (r : Reservation) (status : Status) :
    (s.withReservation r status).devices = s.devices ++ [r.deviceId] := by
  unfold withReservation devices
  rw [List.map_append]
  rfl

/-- A snapshot that names no device twice loses one device. -/
theorem Snapshot.perm_withoutDevice {s : Snapshot} {d : String} (hd : d ∈ s.devices)
    (hn : s.devices.Nodup) : s.devices.Perm (d :: (s.withoutDevice d).devices) := by
  have hrest : s.devices.erase d = (s.withoutDevice d).devices := by
    rw [hn.erase_eq_filter, devices_withoutDevice]
    exact List.filter_congr fun x _ => by by_cases hx : x = d <;> simp [hx]
  exact hrest ▸ List.perm_cons_erase hd

theorem Snapshot.withoutDevice_of_notMem {s : Snapshot} {d : String} (h : d ∉ s.devices) :
    s.withoutDevice d = s := by
  have hall : s.reservations.filter (fun r => r.deviceId ≠ d) = s.reservations := by
    refine List.filter_eq_self.mpr fun r hr => ?_
    have hne : r.deviceId ≠ d := fun heq => h (List.mem_map.mpr ⟨r, hr, heq⟩)
    simpa using hne
  unfold withoutDevice
  rw [hall]

namespace Ledger

/-- The devices that requests hold, request by request. -/
def leased (L : Ledger) : List String := L.entries.flatMap fun e => e.2.snapshot.devices

/-- Requests have distinct names, hosts stand under their own identifiers, and
the directory is parted into free hosts and leased devices. -/
structure Sound (L : Ledger) : Prop where
  names_nodup : L.entries.names.Nodup
  keyed : Keyed L.directory
  parted : Parted L.directory L.free L.leased

/-! ## Leased devices -/

theorem mem_leased {L : Ledger} {d : String} :
    d ∈ L.leased ↔ ∃ e ∈ L.entries, d ∈ e.2.snapshot.devices :=
  List.mem_flatMap

theorem isLeased_iff {L : Ledger} {d : String} : L.isLeased d = true ↔ d ∈ L.leased := by
  rw [mem_leased, isLeased, List.any_eq_true]
  simp only [Snapshot.holds_iff]

theorem mem_leased_of_describe? {L : Ledger} {id d : String} {s : Snapshot}
    (hs : L.describe? id = some s) (hd : d ∈ s.devices) : d ∈ L.leased := by
  obtain ⟨e, he, rfl⟩ := describe?_eq_some.mp hs
  exact mem_leased.mpr ⟨(id, e), Registry.mem_of_get? he, hd⟩

/-- What requests other than one hold. -/
def leasedBesides (L : Ledger) (id : String) : List String :=
  (L.entries.erase id).flatMap fun e => e.2.snapshot.devices

/-- The leased devices are those of one request and those of the others. -/
theorem leased_perm {L : Ledger} {id : String} {s : Snapshot} (hn : L.entries.names.Nodup)
    (hs : L.describe? id = some s) : L.leased.Perm (s.devices ++ L.leasedBesides id) := by
  obtain ⟨e, he, rfl⟩ := describe?_eq_some.mp hs
  exact (Registry.perm_of_get? hn he).flatMap_right _

theorem leased_setSnapshot_perm {L : Ledger} {id : String} (hn : L.entries.names.Nodup)
    (hlive : (L.describe? id).isSome) (s : Snapshot) :
    (L.setSnapshot id s).leased.Perm (s.devices ++ L.leasedBesides id) := by
  obtain ⟨t, ht⟩ := Option.isSome_iff_exists.mp hlive
  obtain ⟨e, he, -⟩ := describe?_eq_some.mp ht
  unfold setSnapshot
  rw [he]
  exact (Registry.perm_put hn id _).flatMap_right _

theorem names_nodup_setSnapshot {L : Ledger} (hn : L.entries.names.Nodup) (id : String)
    (s : Snapshot) : (L.setSnapshot id s).entries.names.Nodup := by
  unfold setSnapshot
  split
  · exact hn
  · exact Registry.names_nodup_put hn id _

/-! ## Leases -/

/-- A request whose devices stay the same may change otherwise. -/
theorem Sound.setSnapshot {L : Ledger} {id : String} {s t : Snapshot} (hL : L.Sound)
    (hs : L.describe? id = some s) (ht : t.devices = s.devices) : (L.setSnapshot id t).Sound := by
  have hlive : (L.describe? id).isSome := by rw [hs]; rfl
  have hsame : (L.setSnapshot id t).leased.Perm L.leased := by
    have hnew := leased_setSnapshot_perm hL.names_nodup hlive t
    rw [ht] at hnew
    exact hnew.trans (leased_perm hL.names_nodup hs).symm
  refine ⟨names_nodup_setSnapshot hL.names_nodup id t, ?_, ?_⟩
  · rw [directory_setSnapshot]
    exact hL.keyed
  · rw [directory_setSnapshot, Engine.free_setSnapshot]
    exact hL.parted.perm hsame.symm

theorem Sound.grant {L M : Ledger} {id : String} {last : Bool} {h : Host} (hL : L.Sound)
    (hg : L.grant? id last = .granted h M) : M.Sound := by
  cases hs : L.describe? id with
  | none =>
    rw [grant?_of_none hs] at hg
    cases hg
  | some s =>
    cases hfree : L.free with
    | nil =>
      rw [grant?_of_free_nil hs hfree] at hg
      cases hg
    | cons q rest =>
      rw [grant?_of_some hs hfree] at hg
      cases hg
      have hparted := hL.parted
      rw [hfree] at hparted
      -- what is left of the ledger differs in the free hosts alone
      let left : Ledger := { L with free := rest }
      have hnames : left.entries.names.Nodup := hL.names_nodup
      have hlive : (left.describe? id).isSome := by
        show (L.describe? id).isSome
        rw [hs]
        rfl
      refine ⟨names_nodup_setSnapshot hnames .., ?_, ?_⟩
      · rw [directory_setSnapshot]
        exact hL.keyed
      · rw [directory_setSnapshot, Engine.free_setSnapshot]
        refine hparted.lease.perm (List.Perm.symm ?_)
        have hnew := leased_setSnapshot_perm hnames hlive
          (s.withReservation ⟨h.deviceId, .succeeded⟩ (if last then .succeeded else .provisioning))
        rw [Snapshot.devices_withReservation, List.append_assoc] at hnew
        refine hnew.trans (List.perm_middle.trans (List.Perm.cons _ ?_))
        exact (leased_perm hL.names_nodup hs).symm

theorem Sound.submit {L : Ledger} {id : String} (hL : L.Sound) (hnew : L.describe? id = none)
    (expires : Instant) : (L.submit id expires).Sound := by
  refine ⟨Registry.names_nodup_put hL.names_nodup .., hL.keyed, hL.parted.perm ?_⟩
  have hout : id ∉ L.entries.names := Registry.get?_eq_none_iff.mp (describe?_eq_none.mp hnew)
  have hput := Registry.perm_put hL.names_nodup id (⟨Snapshot.requested id, expires⟩ : Entry)
  rw [Registry.erase_of_notMem hout] at hput
  have hnew := hput.flatMap_right fun e => e.2.snapshot.devices
  exact hnew.symm

theorem Sound.extend {L M : Ledger} {id : String} {term : Duration} {found : Bool} (hL : L.Sound)
    (h : L.extend? id term = some (M, found)) : M.Sound := by
  unfold extend? at h
  split at h
  · cases h; exact hL
  · next e he =>
    obtain ⟨t, -, heq⟩ := Option.map_eq_some_iff.mp h
    cases heq
    refine ⟨Registry.names_nodup_put hL.names_nodup .., hL.keyed, hL.parted.perm ?_⟩
    have hput := Registry.perm_put hL.names_nodup id ({ e with expires := t } : Entry)
    have hold := leased_perm hL.names_nodup (describe?_eq_some.mpr ⟨e, he, rfl⟩)
    have hnew := hput.flatMap_right fun e => e.2.snapshot.devices
    exact hold.trans hnew.symm

/-! ## Ways back -/

/-- A held device is made free again, as the host that the directory holds for
it, or is dropped when it has left the directory. -/
theorem parted_reclaim {L : Ledger} {d : String} {held : List String} (hk : Keyed L.directory)
    (hp : Parted L.directory L.free (d :: held)) :
    Parted L.directory (L.reclaim d).1.free held := by
  unfold reclaim
  split
  · next hnone => exact hp.forget hnone
  · next h hsome =>
    have hd : h.deviceId = d := hk d h hsome
    split
    · next hin => exact absurd (hd ▸ List.mem_cons_self) (hp.apart h hin)
    · rw [← hd] at hp hsome
      exact hp.append hsome

theorem parted_reclaimAll {L : Ledger} {held : List String} (ds : List String)
    (hk : Keyed L.directory) (hp : Parted L.directory L.free (ds ++ held)) :
    Parted L.directory (L.reclaimAll ds).1.free held := by
  induction ds generalizing L with
  | nil => exact hp
  | cons d rest ih =>
    have hfirst := parted_reclaim hk hp
    rw [← directory_reclaim L d] at hk hfirst ⊢
    exact ih hk hfirst

/-- A device that nobody holds is free already or is not in the directory, so
nothing is to be taken back. -/
theorem reclaim_of_notMem {L : Ledger} {d : String} (hL : L.Sound) (hd : d ∉ L.leased) :
    L.reclaim d = (L, false) := by
  unfold reclaim
  split
  · rfl
  · next h hsome =>
    rcases hL.parted.covered d h hsome with ⟨q, hq, hqd⟩ | hheld
    · have hcur := hL.parted.free_current q hq
      rw [hqd, hsome] at hcur
      rw [if_pos (Option.some.inj hcur ▸ hq)]
    · exact absurd hheld hd

theorem Sound.release? {L M : Ledger} {id : String} {n : Nat} (hL : L.Sound)
    (h : L.release? id = some (M, n)) : M.Sound := by
  unfold Ledger.release? at h
  split at h
  · cases h
  · next e he =>
    have hM := congrArg Prod.fst (Option.some.inj h)
    rw [← show _ = M from hM]
    have hheld := hL.parted.perm (leased_perm hL.names_nodup (describe?_eq_some.mpr ⟨e, he, rfl⟩))
    refine ⟨?_, ?_, ?_⟩
    · rw [entries_reclaimAll]
      exact Registry.names_nodup_erase hL.names_nodup id
    · rw [directory_reclaimAll]
      exact hL.keyed
    · rw [directory_reclaimAll]
      unfold leased
      rw [entries_reclaimAll]
      exact parted_reclaimAll _ hL.keyed hheld

theorem Sound.release {L : Ledger} (hL : L.Sound) (id : String) : (L.release id).1.Sound := by
  unfold Ledger.release
  cases h : L.release? id with
  | none => exact hL
  | some p => exact hL.release? h

theorem Sound.releaseAll {L : Ledger} (hL : L.Sound) (ids : List String) :
    (L.releaseAll ids).1.Sound := by
  induction ids generalizing L with
  | nil => exact hL
  | cons id rest ih =>
    rw [releaseAll_cons]
    exact ih (hL.release id)

/-! ## Single devices -/

theorem detach_of_notMem {L : Ledger} {d : String} (hd : d ∉ L.leased) : L.detach d = L := by
  unfold detach
  split
  · rfl
  · next id e hfind =>
    have hin := List.mem_of_find?_eq_some hfind
    have hholds := List.find?_some hfind
    exact absurd (mem_leased.mpr ⟨(id, e), hin, Snapshot.holds_iff.mp hholds⟩) hd

theorem directory_detach (L : Ledger) (d : String) : (L.detach d).directory = L.directory := by
  unfold detach
  split
  · rfl
  · exact directory_setSnapshot ..

theorem free_detach (L : Ledger) (d : String) : (L.detach d).free = L.free := by
  unfold detach
  split
  · rfl
  · exact Engine.free_setSnapshot ..

/-- A leased device is taken from a request that holds it. -/
theorem exists_holder {L : Ledger} {d : String} (hn : L.entries.names.Nodup)
    (hd : d ∈ L.leased) : ∃ id s, L.describe? id = some s ∧ d ∈ s.devices ∧
      L.detach d = L.setSnapshot id (s.withoutDevice d) := by
  unfold detach
  split
  · next hfind =>
    obtain ⟨e, he, hin⟩ := mem_leased.mp hd
    exact absurd (Snapshot.holds_iff.mpr hin) (by simpa using List.find?_eq_none.mp hfind e he)
  · next id e hfind =>
    have he := Registry.get?_of_mem hn (List.mem_of_find?_eq_some hfind)
    have hholds := List.find?_some hfind
    exact ⟨id, e.snapshot, describe?_eq_some.mpr ⟨e, he, rfl⟩,
      Snapshot.holds_iff.mp hholds, rfl⟩

/-- The devices of different requests are different. -/
theorem Sound.eq_of_mem {L : Ledger} {id other d : String} {s t : Snapshot} (hL : L.Sound)
    (hs : L.describe? id = some s) (ht : L.describe? other = some t) (hds : d ∈ s.devices)
    (hdt : d ∈ t.devices) : id = other := by
  by_contra hne
  have honce := (leased_perm hL.names_nodup hs).nodup_iff.mp hL.parted.held_once
  obtain ⟨e, he, rfl⟩ := describe?_eq_some.mp ht
  have hother : (other, e) ∈ L.entries.erase id := by
    refine List.mem_filter.mpr ⟨Registry.mem_of_get? he, ?_⟩
    simpa using Ne.symm hne
  have hbesides : d ∈ L.leasedBesides id := List.mem_flatMap.mpr ⟨(other, e), hother, hdt⟩
  exact (List.nodup_append.mp honce).2.2 d hds d hbesides rfl

theorem Sound.devices_nodup {L : Ledger} {id : String} {s : Snapshot} (hL : L.Sound)
    (hs : L.describe? id = some s) : s.devices.Nodup :=
  have honce := (leased_perm hL.names_nodup hs).nodup_iff.mp hL.parted.held_once
  (List.nodup_append.mp honce).1

/-- Taking a device back takes it out of every request, since at most one
holds it, and leaves the deadlines as they are. -/
theorem get?_detach {L : Ledger} (hL : L.Sound) (d other : String) :
    (L.detach d).entries.get? other =
      (L.entries.get? other).map fun e => { e with snapshot := e.snapshot.withoutDevice d } := by
  have hfree : ∀ e, L.entries.get? other = some e → d ∉ e.snapshot.devices →
      L.entries.get? other =
        (L.entries.get? other).map fun e => { e with snapshot := e.snapshot.withoutDevice d } := by
    intro e he hout
    rw [he, Option.map_some, Snapshot.withoutDevice_of_notMem hout]
  by_cases hd : d ∈ L.leased
  · obtain ⟨id, s, hs, hin, heq⟩ := exists_holder hL.names_nodup hd
    rw [heq, get?_setSnapshot]
    obtain ⟨e, he, rfl⟩ := describe?_eq_some.mp hs
    split
    · next hid => rw [hid, he]; rfl
    · next hid =>
      cases ht : L.entries.get? other with
      | none => rfl
      | some t =>
        rw [← ht]
        have ht' : L.describe? other = some t.snapshot := describe?_eq_some.mpr ⟨t, ht, rfl⟩
        exact hfree t ht fun hdt => hid (hL.eq_of_mem ht' hs hdt hin)
  · rw [detach_of_notMem hd]
    cases ht : L.entries.get? other with
    | none => rfl
    | some t =>
      rw [← ht]
      have ht' : L.describe? other = some t.snapshot := describe?_eq_some.mpr ⟨t, ht, rfl⟩
      exact hfree t ht fun hdt => hd (mem_leased_of_describe? ht' hdt)

theorem get?_releaseDevice {L : Ledger} (hL : L.Sound) (d other : String) :
    (L.releaseDevice d).1.entries.get? other =
      (L.entries.get? other).map fun e => { e with snapshot := e.snapshot.withoutDevice d } := by
  unfold Ledger.releaseDevice
  rw [entries_reclaim, get?_detach hL]

theorem describe?_releaseDevice {L : Ledger} (hL : L.Sound) (d other : String) :
    (L.releaseDevice d).1.describe? other = (L.describe? other).map (·.withoutDevice d) := by
  unfold describe?
  rw [get?_releaseDevice hL, Option.map_map, Option.map_map]
  rfl

theorem Sound.releaseDevice {L : Ledger} (hL : L.Sound) (d : String) :
    (L.releaseDevice d).1.Sound := by
  unfold Ledger.releaseDevice
  by_cases hd : d ∈ L.leased
  · obtain ⟨id, s, hs, hin, heq⟩ := exists_holder hL.names_nodup hd
    have hlive : (L.describe? id).isSome := by rw [hs]; rfl
    have hloss := Snapshot.perm_withoutDevice hin (hL.devices_nodup hs)
    have hheld : L.leased.Perm (d :: (L.detach d).leased) := by
      rw [heq]
      have hnew := leased_setSnapshot_perm hL.names_nodup hlive (s.withoutDevice d)
      have hold := (leased_perm hL.names_nodup hs).trans (hloss.append_right _)
      exact hold.trans (List.Perm.cons _ hnew.symm)
    have hkeyed : Keyed (L.detach d).directory := L.directory_detach d ▸ hL.keyed
    have hparted : Parted (L.detach d).directory (L.detach d).free (d :: (L.detach d).leased) := by
      rw [directory_detach, free_detach]
      exact hL.parted.perm hheld
    refine ⟨?_, ?_, ?_⟩
    · rw [entries_reclaim, heq]
      exact names_nodup_setSnapshot hL.names_nodup ..
    · rw [directory_reclaim]
      exact hkeyed
    · rw [directory_reclaim]
      unfold leased
      rw [entries_reclaim]
      exact parted_reclaim hkeyed hparted
  · rw [detach_of_notMem hd, reclaim_of_notMem hL hd]
    exact hL

/-! ## Changes of the population -/

theorem Sound.applyChange {L : Ledger} (hL : L.Sound) (c : Change) :
    (L.applyChange c).1.Sound := by
  unfold Ledger.applyChange
  cases c with
  | added h =>
    dsimp only
    split
    · exact hL
    · refine ⟨hL.names_nodup, hL.keyed.put h, ?_⟩
      dsimp only
      split
      · next hleased => exact hL.parted.replace (isLeased_iff.mp hleased)
      · next hfree => exact hL.parted.join fun hin => hfree (isLeased_iff.mpr hin)
  | removed h =>
    dsimp only
    split
    · next hd => exact ⟨hL.names_nodup, hL.keyed.erase _, hL.parted.leave hd⟩
    · exact hL

theorem Sound.enrol {L : Ledger} (hL : L.Sound) (hnone : L.leased = []) (h : Host) :
    (L.enrol h).Sound := by
  unfold Ledger.enrol
  split
  · exact hL
  · next hout =>
    have hdir : L.directory.get? h.deviceId = none := by
      simpa [Registry.has] using hout
    refine ⟨hL.names_nodup, hL.keyed.put h, ?_⟩
    have hjoin := hL.parted.join (h := h) (by rw [hnone]; exact List.not_mem_nil)
    -- no free host has the device of a host that the directory does not know
    have hall : L.free.filter (fun q => q.deviceId ≠ h.deviceId) = L.free := by
      refine List.filter_eq_self.mpr fun q hq => ?_
      have hne : q.deviceId ≠ h.deviceId := by
        intro heq
        have hcur := hL.parted.free_current q hq
        rw [heq, hdir] at hcur
        cases hcur
      simpa using hne
    rw [hall] at hjoin
    exact hjoin

theorem sound_empty : Sound {} where
  names_nodup := List.nodup_nil
  keyed _ _ h := by cases h
  parted :=
    { free_distinct := List.nodup_nil
      free_current := fun _ h => absurd h List.not_mem_nil
      held_once := List.nodup_nil
      apart := fun _ h => absurd h List.not_mem_nil
      covered := fun _ _ h => by cases h }

/-- A ledger that starts with hosts is sound, whatever device identifiers they
share. -/
theorem sound_ofHosts (hosts : List Host) : (ofHosts hosts).Sound := by
  have hfold : ∀ (hosts : List Host) (L : Ledger), L.Sound → L.entries = [] →
      (hosts.foldl enrol L).Sound := by
    intro hosts
    induction hosts with
    | nil => exact fun L hL _ => hL
    | cons h rest ih =>
      intro L hL hempty
      refine ih (L.enrol h) (hL.enrol ?_ h) ?_
      · unfold leased
        rw [hempty]
        rfl
      · exact (entries_enrol L h).trans hempty
  exact hfold hosts {} sound_empty rfl

end Ledger

end Fleet
