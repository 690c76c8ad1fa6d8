import Fleet.Time.Alarm

/-!
# Reapers

A reaper looks for expired requests at every tick of its beat until its engine
is stopped. The first tick is due at once; a reaper that starts between two
milliseconds sleeps until the next one first, as it does before every tick. A
reaper that wakes up to find the engine stopped looks no more.
-/

namespace Fleet

/-- What a reaper is doing. -/
inductive ReaperPhase
  | starting
  /-- It sleeps until the tick due at `target`. -/
  | asleep (target : Instant) (alarm : Alarm)
  | gone
  deriving DecidableEq

/-- What looks for expired requests. -/
structure Reaper where
  beat : Beat
  phase : ReaperPhase := .starting
  deriving DecidableEq

namespace Reaper

/-- A reaper that ticks every so often. -/
def ofInterval (d : Duration) : Reaper := { beat := Beat.ofDuration d }

/-- The alarm that the reaper sleeps by. -/
def alarm? (r : Reaper) : Option Alarm :=
  match r.phase with
  | .asleep _ a => some a
  | _ => none

/-- Goes to sleep after the tick due at `target` was served. -/
def sleepAfter (r : Reaper) (target now : Instant) (stamp : Nat) : Reaper :=
  let next := r.beat.next target now
  { r with phase := .asleep next (Alarm.untilInstant next stamp) }

/-- One turn of the reaper: where it stands afterwards, and whether it looks
for expired requests now. -/
def turn (r : Reaper) (stopped : Bool) (now : Instant) (stamp : Nat) : Reaper × Bool :=
  match r.phase with
  | .gone => (r, false)
  | .starting =>
    let first := Alarm.untilInstant now stamp
    if stopped then ({ r with phase := .gone }, false)
    else if first.rings now then (r.sleepAfter now now stamp, true)
    else ({ r with phase := .asleep now first }, false)
  | .asleep target a =>
    if stopped then ({ r with phase := .gone }, false)
    else if a.rings now then (r.sleepAfter target now stamp, true)
    else (r, false)

end Reaper

end Fleet
