import Fleet.Proofs.Deadlines
import Fleet.Proofs.Ledger.Returns

/-!
# What the operations of a ledger do to its deadlines

The view of a ledger through which deadlines are looked at is `expires?`. Each
operation has one equation here that says what it does to that view:

* **entering and moving** — a request is entered with a deadline, and `extend?`
  moves it by one term if the clock can show the new one;
* **ways back** — requests are taken out by name, and those whose deadline has
  passed are the ones before the instant that is looked at;
* **everything else** — snapshots, devices and hosts leave deadlines alone.
-/

namespace Fleet.Ledger

/-- The deadline of a request. -/
def expires? (L : Ledger) (id : String) : Option Instant := (L.entries.get? id).map (·.expires)

section
variable {L : Ledger} {id : String}

theorem expires?_eq_some {t : Instant} :
    L.expires? id = some t ↔ ∃ e, L.entries.get? id = some e ∧ e.expires = t :=
  Option.map_eq_some_iff

/-- The requests that have a deadline are those that are there. -/
theorem expires?_eq_none : L.expires? id = none ↔ L.describe? id = none := by
  rw [describe?_eq_none]
  exact Option.map_eq_none_iff

theorem describe?_isSome_of_expires? {t : Instant} (h : L.expires? id = some t) :
    (L.describe? id).isSome := by
  obtain ⟨e, he, -⟩ := expires?_eq_some.mp h
  exact Option.isSome_of_eq_some (describe?_eq_some.mpr ⟨e, he, rfl⟩)

theorem expires?_congr {M : Ledger} (h : M.entries = L.entries) (id : String) :
    M.expires? id = L.expires? id := by
  unfold expires?
  rw [h]

/-- No request is there at the start. -/
theorem expires?_ofHosts (hosts : List Host) (id : String) :
    (ofHosts hosts).expires? id = none :=
  expires?_eq_none.mpr (describe?_ofHosts hosts id)

/-! ## Entering and moving -/

theorem expires?_submit (L : Ledger) (id other : String) (t : Instant) :
    (L.submit id t).expires? other = if other = id then some t else L.expires? other := by
  show Option.map _ (Registry.get? (Registry.put _ _ _) _) = _
  rw [Registry.get?_put]
  split <;> rfl

theorem expires?_setSnapshot (L : Ledger) (id other : String) (s : Snapshot) :
    (L.setSnapshot id s).expires? other = L.expires? other := by
  unfold expires?
  rw [get?_setSnapshot]
  split
  · next heq => rw [heq, Option.map_map]; rfl
  · rfl

/-- Extending moves the deadline of the request by one term, or not at all when
the clock cannot show the new one. -/
theorem expires?_extend? (L : Ledger) (id : String) (term : Duration) (other : String) :
    ((L.extend? id term).elim L Prod.fst).expires? other =
      if other = id then (L.expires? id).map fun t => (Instant.deadline? t term).getD t
      else L.expires? other := by
  unfold extend?
  cases he : L.entries.get? id with
  | none =>
    show L.expires? other = _
    split
    · next heq => rw [heq]; simp [expires?, he]
    · rfl
  | some e =>
    have hsome : L.expires? id = some e.expires := expires?_eq_some.mpr ⟨e, he, rfl⟩
    rw [hsome]
    dsimp only
    cases hnew : Instant.deadline? e.expires term with
    | none =>
      show L.expires? other = _
      split
      · next heq => rw [heq, hsome]; simp [hnew]
      · rfl
    | some u =>
      show Option.map _ (Registry.get? (Registry.put _ _ _) _) = _
      rw [Registry.get?_put]
      split
      · simp [hnew]
      · rfl

/-- An extension finds a request that is there, and sets the deadline that
follows its last one. It comes to nothing where the clock cannot show that. -/
theorem extend?_of_expires? {t : Instant} (ht : L.expires? id = some t) (term : Duration) :
    (L.extend? id term).map (fun p => (p.1.expires? id, p.2)) =
      (Instant.deadline? t term).map fun u => (some u, true) := by
  obtain ⟨e, he, rfl⟩ := expires?_eq_some.mp ht
  unfold extend?
  rw [he]
  dsimp only
  rw [Option.map_map]
  congr
  funext u
  show (Option.map _ (Registry.get? (Registry.put _ _ _) _), true) = _
  rw [Registry.get?_put, if_pos rfl]
  rfl

/-! ## Ways back -/

theorem expires?_release (L : Ledger) (id other : String) :
    (L.release id).1.expires? other = if other = id then none else L.expires? other := by
  unfold release release?
  cases he : L.entries.get? id with
  | none =>
    show L.expires? other = _
    split
    · next heq => rw [heq]; simp [expires?, he]
    · rfl
  | some e =>
    show ((Ledger.reclaimAll _ _).1).expires? other = _
    rw [expires?_congr (entries_reclaimAll ..)]
    show Option.map _ (Registry.get? (Registry.erase _ _) _) = _
    rw [Registry.get?_erase]
    split <;> rfl

theorem expires?_releaseAll (L : Ledger) (ids : List String) (other : String) :
    (L.releaseAll ids).1.expires? other = if other ∈ ids then none else L.expires? other := by
  induction ids generalizing L with
  | nil => rfl
  | cons id rest ih =>
    rw [releaseAll_cons, ih, expires?_release]
    by_cases hid : other = id
    · simp [hid]
    · simp [hid]

/-- The requests that stay are those whose deadline has not passed. -/
theorem expires?_releaseExpired (hn : L.entries.names.Nodup) (now : Instant) (id : String) :
    (L.releaseExpired now).1.expires? id = (L.expires? id).filter fun t => now ≤ t := by
  show (L.releaseAll (L.expiredAt now)).1.expires? id = _
  rw [expires?_releaseAll]
  cases ht : L.expires? id with
  | none => simp
  | some t =>
    obtain ⟨e, he, rfl⟩ := expires?_eq_some.mp ht
    have hdue : id ∈ L.expiredAt now ↔ e.expires < now := by
      rw [mem_expiredAt hn]
      simp [he]
    by_cases hlt : e.expires < now
    · simp [Option.filter, hdue.mpr hlt, hlt]
    · simp [Option.filter, mt hdue.mp hlt, Nat.le_of_not_lt hlt]

theorem expires?_releaseExpired_cases (hn : L.entries.names.Nodup) (now : Instant) (id : String) :
    (L.releaseExpired now).1.expires? id = L.expires? id ∨
      ∃ t, L.expires? id = some t ∧ t < now ∧ (L.releaseExpired now).1.expires? id = none := by
  rw [expires?_releaseExpired hn]
  cases ht : L.expires? id with
  | none => exact .inl rfl
  | some t =>
    by_cases hdue : now ≤ t
    · exact .inl (by simp [Option.filter, hdue])
    · exact .inr ⟨t, rfl, Nat.lt_of_not_le hdue, by simp [Option.filter, hdue]⟩

/-! ## Everything else -/

theorem expires?_releaseDevice (L : Ledger) (d id : String) :
    (L.releaseDevice d).1.expires? id = L.expires? id := by
  unfold releaseDevice
  rw [expires?_congr (entries_reclaim ..)]
  unfold detach
  split
  · rfl
  · exact expires?_setSnapshot ..

theorem expires?_applyChange (L : Ledger) (c : Change) (id : String) :
    (L.applyChange c).1.expires? id = L.expires? id :=
  expires?_congr (entries_applyChange L c) id

end

end Fleet.Ledger
