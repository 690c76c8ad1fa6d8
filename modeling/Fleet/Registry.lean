/-!
# Registries

A registry is a table of values under names, kept in the order in which the
names were first entered. It is small on purpose: look up, put, take out, and
change in place.

* **look-up** — `get?_put_self`, `get?_put_of_ne`, `get?_erase_self`,
  `get?_erase_of_ne` say what each operation does to the view `get?`.
-/

namespace Fleet

/-- Values under names, in the order of first entry. -/
abbrev Registry (α : Type) := List (String × α)

namespace Registry

variable {α : Type}

/-- The value under a name. -/
def get? : Registry α → String → Option α
  | [], _ => none
  | (k, v) :: rest, name => if k = name then some v else get? rest name

/-- Whether a name is in use. -/
def has (r : Registry α) (name : String) : Bool := (get? r name).isSome

/-- Enters a value, in place of the one under that name if there is one and at
the end otherwise. -/
def put : Registry α → String → α → Registry α
  | [], name, a => [(name, a)]
  | (k, v) :: rest, name, a => if k = name then (k, a) :: rest else (k, v) :: put rest name a

/-- Takes a name out. -/
def erase (r : Registry α) (name : String) : Registry α := r.filter fun e => e.1 ≠ name

/-- The names in order. -/
def names (r : Registry α) : List String := r.map (·.1)

/-- The values in order. -/
def values (r : Registry α) : List α := r.map (·.2)

@[simp] theorem get?_nil (name : String) : get? ([] : Registry α) name = none := rfl

@[simp] theorem get?_put_self (r : Registry α) (name : String) (a : α) :
    (put r name a).get? name = some a := by
  induction r with
  | nil => simp [put, get?]
  | cons e rest ih =>
    obtain ⟨k, v⟩ := e
    by_cases h : k = name <;> simp [put, get?, h, ih]

theorem get?_put_of_ne (r : Registry α) {name other : String} (a : α) (h : other ≠ name) :
    (put r name a).get? other = r.get? other := by
  induction r with
  | nil => simp [put, get?, Ne.symm h]
  | cons e rest ih =>
    obtain ⟨k, v⟩ := e
    by_cases hk : k = name
    · subst hk; simp [put, get?, Ne.symm h]
    · rw [put, if_neg hk]
      by_cases ho : k = other <;> simp [get?, ho, ih]

@[simp] theorem get?_erase_self (r : Registry α) (name : String) :
    (erase r name).get? name = none := by
  induction r with
  | nil => rfl
  | cons e rest ih =>
    obtain ⟨k, v⟩ := e
    unfold erase at ih ⊢
    by_cases h : k = name <;> simp_all [get?]

theorem get?_erase_of_ne (r : Registry α) {name other : String} (h : other ≠ name) :
    (erase r name).get? other = r.get? other := by
  induction r with
  | nil => rfl
  | cons e rest ih =>
    obtain ⟨k, v⟩ := e
    unfold erase at ih ⊢
    by_cases hk : k = name
    · subst hk; simp_all [get?, Ne.symm h]
    · by_cases ho : k = other <;> simp_all [get?]

end Registry

end Fleet
