import Fleet.Registry

/-!
# Registries with distinct names

A registry whose names are distinct is, up to order, the entry of any of its
names together with what is left when that name is taken out:

* **split** — `perm_of_get?` says so for an entry that is there, `perm_put`
  for one that is put in;
* **distinctness** — `names_nodup_put` and `names_nodup_erase` keep the names
  distinct;
* **look-up** — `get?_put`, `get?_erase` and `get?_filter_notMem` say what they
  do to the view `get?`, with the two cases of a name in one equation.
-/

namespace Fleet.Registry

variable {α : Type}

/-! ## Look-up -/

theorem names_cons (k : String) (v : α) (r : Registry α) :
    names ((k, v) :: r) = k :: names r := rfl

theorem get?_put (r : Registry α) (name other : String) (a : α) :
    (put r name a).get? other = if other = name then some a else r.get? other := by
  by_cases h : other = name
  · subst h
    rw [get?_put_self, if_pos rfl]
  · rw [get?_put_of_ne r a h, if_neg h]

theorem get?_erase (r : Registry α) (name other : String) :
    (erase r name).get? other = if other = name then none else r.get? other := by
  by_cases h : other = name
  · subst h
    rw [get?_erase_self, if_pos rfl]
  · rw [get?_erase_of_ne r h, if_neg h]

theorem get?_filter_notMem (r : Registry α) (names : List String) (other : String) :
    get? (r.filter fun e => e.1 ∉ names) other = if other ∈ names then none else r.get? other := by
  induction r with
  | nil => simp
  | cons e rest ih =>
    obtain ⟨k, v⟩ := e
    by_cases hk : k = other
    · subst hk
      by_cases hin : k ∈ names
      · simpa [hin] using ih
      · simp [get?, hin]
    · by_cases hin : k ∈ names
      · simpa [get?, hin, hk] using ih
      · simpa [get?, hin, hk] using ih

theorem mem_of_get? {r : Registry α} {name : String} {a : α} (h : r.get? name = some a) :
    (name, a) ∈ r := by
  induction r with
  | nil => exact absurd h (by simp)
  | cons e rest ih =>
    obtain ⟨k, v⟩ := e
    rw [get?] at h
    split at h
    · next hk =>
      cases h
      rw [hk]
      exact List.mem_cons_self
    · exact List.mem_cons_of_mem _ (ih h)

theorem get?_of_mem {r : Registry α} {name : String} {a : α} (hn : r.names.Nodup)
    (h : (name, a) ∈ r) : r.get? name = some a := by
  induction r with
  | nil => exact absurd h List.not_mem_nil
  | cons e rest ih =>
    obtain ⟨k, v⟩ := e
    obtain ⟨hk, hrest⟩ := List.nodup_cons.mp hn
    rw [get?]
    rcases List.mem_cons.mp h with heq | hmem
    · cases heq
      rw [if_pos rfl]
    · have hne : k ≠ name := fun he => hk (List.mem_map.mpr ⟨(name, a), hmem, he.symm⟩)
      rw [if_neg hne]
      exact ih hrest hmem

theorem get?_eq_none_iff {r : Registry α} {name : String} :
    r.get? name = none ↔ name ∉ r.names := by
  induction r with
  | nil => simp [names]
  | cons e rest ih =>
    obtain ⟨k, v⟩ := e
    rw [get?, names_cons, List.mem_cons, not_or, ← ih]
    by_cases hk : k = name
    · rw [if_pos hk]
      exact ⟨fun h => absurd h (by simp), fun h => absurd hk.symm h.1⟩
    · rw [if_neg hk]
      exact ⟨fun h => ⟨Ne.symm hk, h⟩, And.right⟩

/-! ## Distinct names -/

theorem erase_of_notMem {r : Registry α} {name : String} (h : name ∉ r.names) :
    r.erase name = r := by
  refine List.filter_eq_self.mpr fun e he => ?_
  have hne : e.1 ≠ name := fun heq => h (List.mem_map.mpr ⟨e, he, heq⟩)
  simpa using hne

theorem names_nodup_erase {r : Registry α} (h : r.names.Nodup) (name : String) :
    (r.erase name).names.Nodup :=
  List.Nodup.sublist (List.Sublist.map _ List.filter_sublist) h

/-- Putting a value in keeps the order of the names, and appends a new one. -/
theorem names_put (r : Registry α) (name : String) (a : α) :
    (r.put name a).names = if name ∈ r.names then r.names else r.names ++ [name] := by
  induction r with
  | nil => rfl
  | cons e rest ih =>
    obtain ⟨k, v⟩ := e
    rw [put, names_cons]
    by_cases hk : k = name
    · rw [if_pos hk, if_pos (hk ▸ List.mem_cons_self)]
      rfl
    · rw [if_neg hk, names_cons, ih]
      by_cases hin : name ∈ names rest
      · rw [if_pos hin, if_pos (List.mem_cons_of_mem k hin)]
      · have hout : name ∉ k :: names rest :=
          fun h => (List.mem_cons.mp h).elim (Ne.symm hk) hin
        rw [if_neg hin, if_neg hout]
        rfl

theorem put_of_notMem {r : Registry α} {name : String} (h : name ∉ r.names) (a : α) :
    r.put name a = r ++ [(name, a)] := by
  induction r with
  | nil => rfl
  | cons e rest ih =>
    obtain ⟨k, v⟩ := e
    rw [names_cons, List.mem_cons, not_or] at h
    simp [put, Ne.symm h.1, ih h.2]

theorem names_nodup_put {r : Registry α} (h : r.names.Nodup) (name : String) (a : α) :
    (r.put name a).names.Nodup := by
  rw [names_put]
  split
  · exact h
  · next hout =>
    rw [List.nodup_append]
    refine ⟨h, by simp, ?_⟩
    intro x hx y hy
    rw [List.mem_singleton.mp hy]
    exact fun heq => hout (heq ▸ hx)

/-- A registry is the entry of one of its names and what is left without it. -/
theorem perm_of_get? {r : Registry α} {name : String} {a : α} (hn : r.names.Nodup)
    (h : r.get? name = some a) : r.Perm ((name, a) :: r.erase name) := by
  induction r with
  | nil => exact absurd h (by simp)
  | cons e rest ih =>
    obtain ⟨k, v⟩ := e
    obtain ⟨hk, hrest⟩ := List.nodup_cons.mp hn
    rw [get?] at h
    by_cases heq : k = name
    · rw [if_pos heq] at h
      cases h
      have hout : erase ((k, a) :: rest) name = rest := by
        rw [erase, List.filter_cons_of_neg (by simpa using heq), ← heq]
        exact erase_of_notMem hk
      rw [hout, heq]
    · rw [if_neg heq] at h
      have hin : erase ((k, v) :: rest) name = (k, v) :: erase rest name :=
        List.filter_cons_of_pos (by simpa using heq)
      rw [hin]
      exact (List.Perm.cons _ (ih hrest h)).trans (List.Perm.swap ..)

theorem erase_put (r : Registry α) (name : String) (a : α) :
    (r.put name a).erase name = r.erase name := by
  induction r with
  | nil => simp [put, erase]
  | cons e rest ih =>
    obtain ⟨k, v⟩ := e
    rw [put]
    by_cases hk : k = name
    · rw [if_pos hk]
      simp [erase, hk]
    · rw [if_neg hk]
      show List.filter _ _ = List.filter _ _
      rw [List.filter_cons_of_pos (by simpa using hk), List.filter_cons_of_pos (by simpa using hk)]
      exact congrArg _ ih

/-- What is put in stands beside what is left without its name. -/
theorem perm_put {r : Registry α} (hn : r.names.Nodup) (name : String) (a : α) :
    (r.put name a).Perm ((name, a) :: r.erase name) := by
  have hsplit := perm_of_get? (names_nodup_put hn name a) (get?_put_self r name a)
  rw [erase_put] at hsplit
  exact hsplit

end Fleet.Registry
