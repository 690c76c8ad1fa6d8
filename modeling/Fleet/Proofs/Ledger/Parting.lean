import Fleet.Engine.Ledger
import Fleet.Proofs.Registry
import Mathlib.Data.List.Nodup

/-!
# Parting a directory

The hosts of a directory are parted into *free* hosts and *held* devices:
nothing is both, nothing is there twice, and every device of the directory is
one of the two. A held device may have left the directory, a free host may
not. The held devices are a list of their own here, so that devices on their
way back, which no request holds any more, can be counted among them:

* **leases** — `Parted.lease` hands the first free host over;
* **ways back** — `Parted.reclaim` and `Parted.reclaimAll` take held devices
  back, as the hosts that the directory holds for them now;
* **changes** — `Parted.join`, `Parted.replace` and `Parted.leave` follow a
  host that joins the directory or leaves it.
-/

namespace Fleet

/-- The free hosts and the held devices part the directory between them. -/
structure Parted (directory : Registry Host) (free : List Host) (held : List String) : Prop where
  -- no two free hosts are one device
  free_distinct : (free.map (·.deviceId)).Nodup
  -- a free host is the one that the directory holds for its device
  free_current : ∀ h ∈ free, directory.get? h.deviceId = some h
  -- no device is held twice
  held_once : held.Nodup
  -- no device is both free and held
  apart : ∀ h ∈ free, h.deviceId ∉ held
  -- every device of the directory is free or held
  covered : ∀ d h, directory.get? d = some h → (∃ q ∈ free, q.deviceId = d) ∨ d ∈ held

/-- Every host of a directory stands under its own device identifier. -/
def Keyed (directory : Registry Host) : Prop :=
  ∀ d h, directory.get? d = some h → h.deviceId = d

namespace Keyed

variable {directory : Registry Host}

theorem put (hk : Keyed directory) (h : Host) : Keyed (directory.put h.deviceId h) := by
  intro d q hq
  rw [Registry.get?_put] at hq
  split at hq
  · next hd => cases hq; exact hd.symm
  · exact hk d q hq

theorem erase (hk : Keyed directory) (name : String) : Keyed (directory.erase name) := by
  intro d q hq
  rw [Registry.get?_erase] at hq
  split at hq
  · cases hq
  · exact hk d q hq

end Keyed

namespace Parted

variable {directory : Registry Host} {free : List Host} {held : List String}

/-- The order of the held devices does not matter. -/
theorem perm {other : List String} (hp : Parted directory free held) (h : held.Perm other) :
    Parted directory free other where
  free_distinct := hp.free_distinct
  free_current := hp.free_current
  held_once := h.nodup_iff.mp hp.held_once
  apart q hq hin := hp.apart q hq (h.mem_iff.mpr hin)
  covered d q hq := (hp.covered d q hq).imp_right h.mem_iff.mp

/-- The first free host is handed over. -/
theorem lease {h : Host} (hp : Parted directory (h :: free) held) :
    Parted directory free (h.deviceId :: held) := by
  obtain ⟨hfirst, hdistinct⟩ := List.nodup_cons.mp hp.free_distinct
  refine ⟨hdistinct, fun q hq => hp.free_current q (List.mem_cons_of_mem _ hq), ?_, ?_, ?_⟩
  · exact List.nodup_cons.mpr ⟨hp.apart h List.mem_cons_self, hp.held_once⟩
  · intro q hq hin
    rcases List.mem_cons.mp hin with heq | hheld
    · exact hfirst (List.mem_map.mpr ⟨q, hq, heq⟩)
    · exact hp.apart q (List.mem_cons_of_mem _ hq) hheld
  · intro d q hq
    rcases hp.covered d q hq with ⟨f, hf, rfl⟩ | hheld
    · rcases List.mem_cons.mp hf with rfl | hrest
      · exact Or.inr List.mem_cons_self
      · exact Or.inl ⟨f, hrest, rfl⟩
    · exact Or.inr (List.mem_cons_of_mem _ hheld)

/-- A host of the directory that is neither free nor held is made free. -/
theorem append {h : Host} (hp : Parted directory free (h.deviceId :: held))
    (hd : directory.get? h.deviceId = some h) : Parted directory (free ++ [h]) held := by
  obtain ⟨hout, honce⟩ := List.nodup_cons.mp hp.held_once
  refine ⟨?_, ?_, honce, ?_, ?_⟩
  · rw [List.map_append, List.nodup_append]
    refine ⟨hp.free_distinct, List.nodup_singleton _, ?_⟩
    intro d hdin e he heq
    obtain ⟨q, hq, rfl⟩ := List.mem_map.mp hdin
    rw [List.map_singleton, List.mem_singleton] at he
    exact hp.apart q hq (by rw [heq, he]; exact List.mem_cons_self)
  · intro q hq
    rcases List.mem_append.mp hq with hin | hlast
    · exact hp.free_current q hin
    · rw [List.mem_singleton.mp hlast]
      exact hd
  · intro q hq hin
    rcases List.mem_append.mp hq with hfree | hlast
    · exact hp.apart q hfree (List.mem_cons_of_mem _ hin)
    · exact hout (List.mem_singleton.mp hlast ▸ hin)
  · intro d q hq
    rcases hp.covered d q hq with ⟨f, hf, rfl⟩ | hheld
    · exact Or.inl ⟨f, List.mem_append_left _ hf, rfl⟩
    · rcases List.mem_cons.mp hheld with rfl | hrest
      · exact Or.inl ⟨h, List.mem_append_right _ List.mem_cons_self, rfl⟩
      · exact Or.inr hrest

/-- A device that is not in the directory need not be held any more. -/
theorem forget {d : String} (hp : Parted directory free (d :: held))
    (hd : directory.get? d = none) : Parted directory free held := by
  refine ⟨hp.free_distinct, hp.free_current, (List.nodup_cons.mp hp.held_once).2, ?_, ?_⟩
  · exact fun q hq hin => hp.apart q hq (List.mem_cons_of_mem _ hin)
  · intro e q hq
    refine (hp.covered e q hq).imp_right fun hin => ?_
    rcases List.mem_cons.mp hin with rfl | hrest
    · rw [hd] at hq
      cases hq
    · exact hrest

/-! ## Changes of the directory -/

/-- A host that joins takes the place of the free host of its device, if there
is one; for the time being its device counts as held. -/
theorem put (hp : Parted directory free held) (h : Host) :
    Parted (directory.put h.deviceId h) (free.filter fun q => q.deviceId ≠ h.deviceId)
      (if h.deviceId ∈ held then held else h.deviceId :: held) := by
  have hheld : ∀ d, d ∈ (if h.deviceId ∈ held then held else h.deviceId :: held) ↔
      d = h.deviceId ∨ d ∈ held := by
    intro d
    split
    · next hin => exact ⟨Or.inr, fun hd => hd.elim (fun heq => heq ▸ hin) id⟩
    · exact List.mem_cons
  refine ⟨?_, ?_, ?_, ?_, ?_⟩
  · exact hp.free_distinct.sublist (List.filter_sublist.map _)
  · intro q hq
    obtain ⟨hin, hne⟩ := List.mem_filter.mp hq
    rw [Registry.get?_put_of_ne _ _ (by simpa using hne)]
    exact hp.free_current q hin
  · split
    · exact hp.held_once
    · next hout => exact List.nodup_cons.mpr ⟨hout, hp.held_once⟩
  · intro q hq hin
    obtain ⟨hfree, hne⟩ := List.mem_filter.mp hq
    rcases (hheld _).mp hin with heq | hheld
    · exact absurd heq (by simpa using hne)
    · exact hp.apart q hfree hheld
  · intro d q hq
    by_cases hd : d = h.deviceId
    · exact Or.inr ((hheld d).mpr (Or.inl hd))
    · rw [Registry.get?_put_of_ne _ _ hd] at hq
      rcases hp.covered d q hq with ⟨f, hf, rfl⟩ | hin
      · exact Or.inl ⟨f, List.mem_filter.mpr ⟨hf, by simpa using hd⟩, rfl⟩
      · exact Or.inr ((hheld d).mpr (Or.inr hin))

/-- A host whose device is held joins the directory only. -/
theorem replace {h : Host} (hp : Parted directory free held) (hin : h.deviceId ∈ held) :
    Parted (directory.put h.deviceId h) (free.filter fun q => q.deviceId ≠ h.deviceId) held := by
  have hput := hp.put h
  rw [if_pos hin] at hput
  exact hput

/-- A host whose device is not held joins the directory and the free hosts. -/
theorem join {h : Host} (hp : Parted directory free held) (hout : h.deviceId ∉ held) :
    Parted (directory.put h.deviceId h)
      (free.filter (fun q => q.deviceId ≠ h.deviceId) ++ [h]) held := by
  have hput := hp.put h
  rw [if_neg hout] at hput
  exact hput.append (Registry.get?_put_self ..)

/-- A host leaves the directory, and the free hosts if it is one of them. -/
theorem leave {h : Host} (hp : Parted directory free held)
    (hd : directory.get? h.deviceId = some h) :
    Parted (directory.erase h.deviceId) (free.filter (· ≠ h)) held := by
  -- the free host of a device is the one in the directory, so no other is taken out
  have hne : ∀ q ∈ free, q ≠ h → q.deviceId ≠ h.deviceId := by
    intro q hq hqh heq
    have hcur := hp.free_current q hq
    rw [heq, hd] at hcur
    exact hqh (Option.some.inj hcur).symm
  refine ⟨?_, ?_, hp.held_once, ?_, ?_⟩
  · exact hp.free_distinct.sublist (List.filter_sublist.map _)
  · intro q hq
    obtain ⟨hin, hqh⟩ := List.mem_filter.mp hq
    rw [Registry.get?_erase_of_ne _ (hne q hin (by simpa using hqh))]
    exact hp.free_current q hin
  · exact fun q hq => hp.apart q (List.mem_filter.mp hq).1
  · intro d q hq
    rw [Registry.get?_erase] at hq
    split at hq
    · cases hq
    · next hdh =>
      refine (hp.covered d q hq).imp_left fun ⟨f, hf, hfd⟩ => ⟨f, ?_, hfd⟩
      have hfh : f ≠ h := fun heq => hdh (by rw [← hfd, heq])
      exact List.mem_filter.mpr ⟨hf, by simpa using hfh⟩

end Parted

end Fleet
