import Fleet.Time.Duration

/-!
# Instants and deadlines

An instant is a number of nanoseconds since the clock of a run was started.
The clock cannot show every instant: the last one is `Instant.horizon`. A
deadline that would lie beyond it is set to thirty years after its start
instead.

* **deadlines** — `deadline?` is `none` exactly when neither the deadline nor
  its replacement can be shown;
* **ticks** — sleepers are woken at whole milliseconds, so a deadline between
  two of them counts from the next one (`ceilMilli`).
-/

namespace Fleet

/-- Nanoseconds since the start of the run. -/
abbrev Instant := Nat

namespace Instant

/-- The last instant that the clock can show. The clock counts seconds in 63
bits and has been running for a while, less than `2 ^ 24` seconds, before the
run starts. -/
def horizon : Instant := (Nat.pow 2 63 - Nat.pow 2 24) * Duration.perSecond

/-- What stands in for a deadline that the clock cannot show: 30 years of 365
days. -/
def farAhead : Duration := Duration.ofSecs (60 * 60 * 24 * 365 * 30)

/-- The instant that lies a duration later, if the clock can show it. -/
def add? (t : Instant) (d : Duration) : Option Instant :=
  if t + d.nanos ≤ horizon then some (t + d.nanos) else none

/-- The deadline a duration after a start; when it lies beyond the horizon,
thirty years after the start; `none` when the clock cannot show that either. -/
def deadline? (start : Instant) (d : Duration) : Option Instant :=
  match add? start d with
  | some t => some t
  | none => add? start farAhead

/-- The deadline a duration after a start, held at the horizon when the clock
cannot show any. -/
def deadline (start : Instant) (d : Duration) : Instant :=
  (deadline? start d).getD horizon

/-- The first whole millisecond that is not before an instant. -/
def ceilMilli (t : Instant) : Instant :=
  (t + (Duration.perMilli - 1)) / Duration.perMilli * Duration.perMilli

/-- The instant that many milliseconds after the start of the run. -/
def ofMillis (n : Nat) : Instant := n * Duration.perMilli

/-- Whole milliseconds since the start of the run. -/
def millis (t : Instant) : Nat := t / Duration.perMilli

theorem add?_eq_some {t u : Instant} {d : Duration} :
    add? t d = some u ↔ t + d.nanos ≤ horizon ∧ u = t + d.nanos := by
  unfold add?
  split
  · next h => simp [h, eq_comm]
  · next h => simp [h]

/-- A deadline is never before its start. -/
theorem le_of_deadline? {start t : Instant} {d : Duration} (h : deadline? start d = some t) :
    start ≤ t := by
  unfold deadline? at h
  split at h
  · next u hu =>
    obtain ⟨-, rfl⟩ := add?_eq_some.1 hu
    cases h
    exact Nat.le_add_right _ _
  · obtain ⟨-, rfl⟩ := add?_eq_some.1 h
    exact Nat.le_add_right _ _

end Instant

end Fleet
