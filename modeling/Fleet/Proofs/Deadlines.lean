import Fleet.Time.Alarm

/-!
# Deadlines that the clock can show

A deadline is as long after its start as it should be, or thirty years after it
where the clock cannot show that, and never beyond the horizon
(`deadline_le_horizon`). Who goes to sleep at a whole millisecond for whole
milliseconds is woken at the deadline itself (`ceilMilli_deadline`).

Who sets one deadline after another, each from the one before, can do so as
often as `headroom` says: every deadline takes one from the headroom of its
start (`headroom_of_deadline?`), and where none is left the clock cannot show
the next one (`deadline?_isSome_iff`).
-/

namespace Fleet

namespace Instant

theorem le_ceilMilli (t : Instant) : t ≤ ceilMilli t := by
  have hround : ∀ n : Nat, n ≤ (n + 999999) / 1000000 * 1000000 := by omega
  exact hround t

theorem ceilMilli_mono {t u : Instant} (h : t ≤ u) : ceilMilli t ≤ ceilMilli u :=
  Nat.mul_le_mul_right _ (Nat.div_le_div_right (Nat.add_le_add_right h _))

theorem deadline?_of_le {t : Instant} {d : Duration} (h : t + d.nanos ≤ horizon) :
    deadline? t d = some (t + d.nanos) := by
  simp [deadline?, add?, h]

theorem deadline_of_le {t : Instant} {d : Duration} (h : t + d.nanos ≤ horizon) :
    deadline t d = t + d.nanos := by
  rw [deadline, deadline?_of_le h, Option.getD_some]

theorem deadline_le_horizon (t : Instant) (d : Duration) : deadline t d ≤ horizon := by
  unfold deadline deadline?
  cases hfirst : add? t d with
  | some u =>
    obtain ⟨hshown, rfl⟩ := add?_eq_some.mp hfirst
    exact hshown
  | none =>
    cases hfar : add? t farAhead with
    | some u =>
      obtain ⟨hshown, rfl⟩ := add?_eq_some.mp hfar
      exact hshown
    | none => exact Nat.le_refl _

/-- A deadline that is not the last instant is not before its start. -/
theorem le_deadline_of_lt {t : Instant} {d : Duration} (h : deadline t d < horizon) :
    t ≤ deadline t d := by
  unfold deadline at h ⊢
  cases hshown : deadline? t d with
  | some u => exact le_of_deadline? hshown
  | none =>
    rw [hshown] at h
    exact absurd h (Nat.lt_irrefl _)

theorem le_deadline {t : Instant} (h : t ≤ horizon) (d : Duration) : t ≤ deadline t d := by
  rcases Nat.lt_or_ge (deadline t d) horizon with hlt | hge
  · exact le_deadline_of_lt hlt
  · exact Nat.le_trans h hge

/-- Where the clock cannot show a deadline, what stands in for it is earlier. -/
theorem deadline_le_add (t : Instant) (d : Duration) : deadline t d ≤ t + d.nanos := by
  unfold deadline deadline?
  cases hfirst : add? t d with
  | some u =>
    obtain ⟨-, rfl⟩ := add?_eq_some.mp hfirst
    exact Nat.le_refl _
  | none =>
    have hbeyond : horizon < t + d.nanos := by
      simpa [add?] using hfirst
    cases hfar : add? t farAhead with
    | some u =>
      obtain ⟨hshown, rfl⟩ := add?_eq_some.mp hfar
      exact Nat.le_of_lt (Nat.lt_of_le_of_lt hshown hbeyond)
    | none => exact Nat.le_of_lt hbeyond

theorem ceilMilli_lt (t : Instant) : ceilMilli t < t + Duration.perMilli := by
  have hround : ∀ n : Nat, (n + 999999) / 1000000 * 1000000 < n + 1000000 := by omega
  exact hround t

theorem ceilMilli_add_ofMillis (t : Instant) (n : Nat) :
    ceilMilli (t + (Duration.ofMillis n).nanos) = ceilMilli t + (Duration.ofMillis n).nanos := by
  have hround : ∀ k n : Nat,
      (k + n * 1000000 + 999999) / 1000000 * 1000000 =
        (k + 999999) / 1000000 * 1000000 + n * 1000000 := by omega
  exact hround t n

/-- Who sleeps for whole milliseconds from a tick on is woken by then. -/
theorem ceilMilli_deadline_le (t : Instant) (n : Nat) :
    ceilMilli (deadline t (.ofMillis n)) ≤ ceilMilli t + (Duration.ofMillis n).nanos := by
  rw [← ceilMilli_add_ofMillis]
  exact ceilMilli_mono (deadline_le_add t _)

/-- How many deadlines can be set one after another from a start on: as many
durations as fit before the horizon, and as many times thirty years as fit into
what they leave. -/
def headroom (start : Instant) (d : Duration) : Nat :=
  (horizon - start) / d.nanos + (horizon - start) % d.nanos / farAhead.nanos

section
variable {t u : Instant} {d : Duration} {n : Nat}

theorem horizon_sub (h : t + n ≤ horizon) : horizon - t = horizon - (t + n) + n := by
  have hsplit : ∀ a b n : Nat, a + n ≤ b → b - a = b - (a + n) + n := by omega
  exact hsplit t horizon n h

theorem add_le_horizon (hn : 0 < n) (h : n ≤ horizon - t) : t + n ≤ horizon := by
  have hfits : ∀ a b n : Nat, 0 < n → n ≤ b - a → a + n ≤ b := by omega
  exact hfits t horizon n hn h

/-- Where thirty years from a start can be shown, so can any deadline. -/
theorem deadline?_isSome_of_far (h : t + farAhead.nanos ≤ horizon) (d : Duration) :
    (deadline? t d).isSome = true := by
  unfold deadline?
  cases add? t d with
  | some u => rfl
  | none => simp [add?, h]

theorem deadline?_cases (h : deadline? t d = some u) :
    (t + d.nanos ≤ horizon ∧ u = t + d.nanos) ∨
      horizon < t + d.nanos ∧ t + farAhead.nanos ≤ horizon ∧ u = t + farAhead.nanos := by
  unfold deadline? at h
  cases hfirst : add? t d with
  | some v =>
    rw [hfirst] at h
    exact .inl (add?_eq_some.mp (hfirst.trans h))
  | none =>
    rw [hfirst] at h
    have hbeyond : horizon < t + d.nanos := by simpa [add?] using hfirst
    exact .inr ⟨hbeyond, add?_eq_some.mp h⟩

/-- A deadline some time ahead is later than its start. -/
theorem lt_of_deadline? (hd : 0 < d.nanos) (h : deadline? t d = some u) : t < u := by
  rcases deadline?_cases h with ⟨-, rfl⟩ | ⟨-, -, rfl⟩
  · exact Nat.lt_add_of_pos_right hd
  · exact Nat.lt_add_of_pos_right (by decide)

/-- While no whole duration fits before the horizon, times of thirty years count. -/
theorem headroom_of_lt (h : horizon - t < d.nanos) :
    headroom t d = (horizon - t) / farAhead.nanos := by
  rw [headroom, Nat.div_eq_of_lt h, Nat.mod_eq_of_lt h, Nat.zero_add]

/-- A deadline takes one from the headroom of its start. -/
theorem headroom_of_deadline? (hd : 0 < d.nanos) (h : deadline? t d = some u) :
    headroom t d = headroom u d + 1 := by
  rcases deadline?_cases h with ⟨hshown, rfl⟩ | ⟨hbeyond, hfar, rfl⟩
  · unfold headroom
    rw [horizon_sub hshown, Nat.add_div_right _ hd, Nat.add_mod_right, Nat.succ_add]
  · have hbefore : horizon - t < d.nanos :=
      Nat.sub_lt_left_of_lt_add (Nat.le_of_add_right_le hfar) hbeyond
    have hafter : horizon - (t + farAhead.nanos) < d.nanos :=
      Nat.lt_of_le_of_lt (Nat.sub_le_sub_left (Nat.le_add_right t _) horizon) hbefore
    rw [headroom_of_lt hbefore, headroom_of_lt hafter, horizon_sub hfar,
      Nat.add_div_right _ (by decide)]

/-- The clock can show a deadline exactly if its start has headroom. -/
theorem deadline?_isSome_iff (hd : 0 < d.nanos) :
    (deadline? t d).isSome = true ↔ 0 < headroom t d := by
  constructor
  · intro hshown
    obtain ⟨u, hu⟩ := Option.isSome_iff_exists.mp hshown
    rw [headroom_of_deadline? hd hu]
    exact Nat.succ_pos _
  · intro hroom
    rcases Nat.lt_or_ge (horizon - t) d.nanos with hshort | hfits
    · rw [headroom_of_lt hshort] at hroom
      have hfar : farAhead.nanos ≤ horizon - t := (Nat.div_pos_iff.mp hroom).2
      exact deadline?_isSome_of_far (add_le_horizon (by decide) hfar) d
    · exact Option.isSome_of_eq_some (deadline?_of_le (add_le_horizon hd hfits))

end

end Instant

end Fleet
