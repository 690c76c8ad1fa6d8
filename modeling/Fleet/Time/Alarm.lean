import Fleet.Time.Instant

/-!
# Alarms and beats

An *alarm* is what a sleeper leaves with the clock: the tick at which it is to
be woken and a stamp that tells the order in which alarms were set. Alarms due
at the same tick ring in the order of their stamps.

A *beat* is a repeated alarm. Its first tick is due at once. A tick that comes
up to five milliseconds late keeps the beat; one that comes later than that
starts the beat again from the moment it was served.
-/

namespace Fleet

/-- When a sleeper is to be woken, and when it went to sleep relative to the
other sleepers. -/
structure Alarm where
  due : Instant
  stamp : Nat
  deriving DecidableEq, Repr, Inhabited

namespace Alarm

/-- The alarm of a sleeper that sleeps for a duration from now on. -/
def after (now : Instant) (d : Duration) (stamp : Nat) : Alarm :=
  ⟨Instant.ceilMilli (Instant.deadline now d), stamp⟩

/-- The alarm of a sleeper that sleeps until an instant. -/
def untilInstant (t : Instant) (stamp : Nat) : Alarm := ⟨Instant.ceilMilli t, stamp⟩

/-- Whether the alarm has gone off by now. -/
def rings (a : Alarm) (now : Instant) : Bool := a.due ≤ now

/-- Whether one alarm rings before another. -/
def before (a b : Alarm) : Bool := a.due < b.due || (a.due == b.due && a.stamp ≤ b.stamp)

end Alarm

/-- The time between two ticks of a repeated alarm. It is not zero. -/
structure Beat where
  period : Duration
  period_pos : 0 < period.nanos := by decide
  deriving DecidableEq

namespace Beat

/-- The beat of a period; a period under a millisecond counts as one. -/
def ofDuration (d : Duration) : Beat :=
  ⟨⟨max d.nanos Duration.perMilli⟩, Nat.lt_of_lt_of_le (by decide) (Nat.le_max_right _ _)⟩

/-- How late a tick may be served without disturbing the beat. -/
def grace : Duration := Duration.ofMillis 5

/-- The next tick of the beat, when the tick due at `target` is served at
`now`: the first one after `now` on the old beat if that tick was not late by
more than `grace`, and a period after `now` otherwise. -/
def next (b : Beat) (target now : Instant) : Instant :=
  if target + grace.nanos < now then Instant.deadline now b.period
  else
    let missed := (now - target) / b.period.nanos
    Instant.deadline target ⟨(missed + 1) * b.period.nanos⟩

end Beat

end Fleet
