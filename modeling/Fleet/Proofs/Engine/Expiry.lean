import Fleet.Proofs.Engine.Shutdown
import Fleet.Proofs.Ledger.Terms

/-!
# Requests expire on time

An engine under a clock does something at the instant that the clock shows, or
time passes. The clock is *on time* if it never passes an alarm by: it waits
for a reaper that has just been started, and stops at the tick that a reaper
sleeps for until the reaper has taken its turn.

* **deadlines** — `Passage` lists what an event can do to the deadline of a
  request, and `Origin` where a deadline can come from. The deadline of a
  request is one term after it was entered and one more for each time it was
  extended (`expires?_run`);
* **not too early** — a request that nobody gives back is taken out by the
  reaper alone, and at an instant after its deadline;
* **not too late** — no request is left whose deadline lies before the last
  look (`Guarded`), and the reaper sleeps for a period at most between two
  looks (`Reaper.Awaits`).

`expires_on_time` puts the three together.
-/

namespace Fleet

/-! ## The reaper under a clock -/

namespace Beat

/-- The period of a beat of whole milliseconds. -/
theorem period_ofDuration (n : Nat) :
    (ofDuration (.ofMillis n)).period = .ofMillis (max n 1) := by
  show (⟨max (n * Duration.perMilli) Duration.perMilli⟩ : Duration) = ⟨max n 1 * _⟩
  rw [← Nat.mul_max_mul_right, Nat.one_mul]

theorem perMilli_le_period {b : Beat} {n : Nat} (hb : b.period = .ofMillis n) :
    Duration.perMilli ≤ b.period.nanos := by
  have hpos := b.period_pos
  rw [hb] at hpos ⊢
  exact Nat.le_mul_of_pos_left _ (Nat.pos_of_mul_pos_right hpos)

/-- A tick rings before the period that it begins is over. -/
theorem ceilMilli_lt_add_period {b : Beat} {n : Nat} (hb : b.period = .ofMillis n)
    (target : Instant) : Instant.ceilMilli target < target + b.period.nanos :=
  Nat.lt_of_lt_of_le (Instant.ceilMilli_lt target)
    (Nat.add_le_add_left (perMilli_le_period hb) target)

/-- A tick that is served when it rings is followed by the next one a period
later. -/
theorem next_of_rung {b : Beat} {n : Nat} (hb : b.period = .ofMillis n) (target : Instant) :
    b.next target (Instant.ceilMilli target) = Instant.deadline target b.period := by
  have hgrace : ¬target + grace.nanos < Instant.ceilMilli target := by
    have hfive : Duration.perMilli ≤ grace.nanos := by decide
    have hlate : Instant.ceilMilli target < target + grace.nanos :=
      Nat.lt_of_lt_of_le (Instant.ceilMilli_lt target) (Nat.add_le_add_left hfive target)
    exact Nat.not_lt_of_lt hlate
  have hmissed : (Instant.ceilMilli target - target) / b.period.nanos = 0 :=
    Nat.div_eq_of_lt (Nat.sub_lt_left_of_lt_add (Instant.le_ceilMilli target)
      (ceilMilli_lt_add_period hb target))
  unfold next
  rw [if_neg hgrace, hmissed]
  show Instant.deadline target ⟨(0 + 1) * b.period.nanos⟩ = _
  rw [Nat.zero_add, Nat.one_mul]

end Beat

namespace Reaper

/-- Whether the reaper has to wait. -/
def waits (r : Reaper) (now : Instant) : Bool :=
  match r.phase with
  | .starting => false
  | .asleep _ a => !a.rings now
  | .gone => true

/-- Whether time may pass until an instant before the reaper takes its turn. -/
def lets (r : Reaper) (t : Instant) : Bool :=
  match r.phase with
  | .starting => false
  | .asleep _ a => t ≤ a.due
  | .gone => true

/-- The reaper has looked for expired requests, or was started, at `last`, and
is going to look again within a period unless the engine is stopped. -/
inductive Awaits (r : Reaper) (stopped : Bool) (last now : Instant) : Prop
  | starting (hphase : r.phase = .starting) (hnow : now = last)
  | asleep {target a} (hphase : r.phase = .asleep target a)
      (hdue : a.due = Instant.ceilMilli target) (hnow : now ≤ a.due)
      (hnext : a.due ≤ last + r.beat.period.nanos)
  | gone (hphase : r.phase = .gone) (hstop : stopped = true)

section
variable {r : Reaper} {stopped : Bool} {last now : Instant} {n : Nat}

/-- A reaper that looks at the tick that it slept for sleeps for a period. -/
theorem awaits_sleepAfter (hb : r.beat.period = .ofMillis n) {target : Instant}
    (hrung : now = Instant.ceilMilli target) (hnow : now ≤ Instant.horizon) (stopped : Bool)
    (stamp : Nat) : (r.sleepAfter target now stamp).Awaits stopped now now := by
  have htarget : target ≤ Instant.horizon :=
    Nat.le_trans (Instant.le_ceilMilli target) (hrung ▸ hnow)
  have hnext : r.beat.next target now = Instant.deadline target r.beat.period :=
    hrung ▸ Beat.next_of_rung hb target
  refine .asleep rfl rfl ?_ ?_
  · show now ≤ Instant.ceilMilli (r.beat.next target now)
    rw [hnext, hrung]
    exact Instant.ceilMilli_mono (Instant.le_deadline htarget _)
  · show Instant.ceilMilli (r.beat.next target now) ≤ now + r.beat.period.nanos
    rw [hnext, hb, hrung]
    exact Instant.ceilMilli_deadline_le target n

/-- A turn of the reaper: if it looks, it has looked now. -/
theorem Awaits.turn (h : r.Awaits stopped last now) (hb : r.beat.period = .ofMillis n)
    (hnow : now ≤ Instant.horizon) (stamp : Nat) :
    (r.turn stopped now stamp).1.beat = r.beat ∧
      (r.turn stopped now stamp).1.Awaits stopped
        (if (r.turn stopped now stamp).2 then now else last) now := by
  cases h with
  | gone hphase hstop => simpa [Reaper.turn, hphase] using .gone hphase hstop
  | starting hphase hstart =>
    cases hstop : stopped with
    | true => simpa [Reaper.turn, hphase] using .gone rfl rfl
    | false =>
      by_cases hring : (Alarm.untilInstant now stamp).rings now = true
      · have hrung : now = Instant.ceilMilli now :=
          Nat.le_antisymm (Instant.le_ceilMilli now) (of_decide_eq_true hring)
        have hnext := awaits_sleepAfter hb hrung hnow false stamp
        simpa [Reaper.turn, hphase, hring, sleepAfter] using hnext
      · -- between two milliseconds the first tick is still to come
        have hshort : Instant.ceilMilli now ≤ last + r.beat.period.nanos :=
          hstart ▸ Nat.le_of_lt (Beat.ceilMilli_lt_add_period hb now)
        simpa [Reaper.turn, hphase, hring] using
          .asleep rfl rfl (Instant.le_ceilMilli now) hshort
  | @asleep target a hphase hdue hearly hnext =>
    cases hstop : stopped with
    | true => simpa [Reaper.turn, hphase] using .gone rfl rfl
    | false =>
      by_cases hring : a.rings now = true
      · have hrung : now = Instant.ceilMilli target :=
          hdue ▸ Nat.le_antisymm hearly (of_decide_eq_true hring)
        have hnext := awaits_sleepAfter hb hrung hnow false stamp
        simpa [Reaper.turn, hphase, hring, sleepAfter] using hnext
      · simpa [Reaper.turn, hphase, hring] using .asleep hphase hdue hearly hnext

/-- An engine stays stopped. -/
theorem Awaits.mono (h : r.Awaits stopped last now) {later : Bool}
    (hstop : stopped = true → later = true) : r.Awaits later last now := by
  cases h with
  | starting hphase hnow => exact .starting hphase hnow
  | asleep hphase hdue hnow hnext => exact .asleep hphase hdue hnow hnext
  | gone hphase h => exact .gone hphase (hstop h)

/-- Time may pass until the reaper is to look again. -/
theorem Awaits.pass (h : r.Awaits stopped last now) {t : Instant} (hlets : r.lets t = true) :
    r.Awaits stopped last t := by
  cases h with
  | gone hphase hstop => exact .gone hphase hstop
  | starting hphase => simp [lets, hphase] at hlets
  | @asleep target a hphase hdue _ hnext =>
    have ht : t ≤ a.due := by simpa [lets, hphase] using hlets
    exact .asleep hphase hdue ht hnext

/-- While the reaper has to wait, its last look is less than a period ago. -/
theorem Awaits.lt_of_waits (h : r.Awaits false last now) (hwaits : r.waits now = true) :
    now < last + r.beat.period.nanos := by
  cases h with
  | gone _ hstop => cases hstop
  | starting hphase => simp [waits, hphase] at hwaits
  | @asleep target a hphase _ _ hnext =>
    have hearly : now < a.due := by simpa [waits, hphase, Alarm.rings] using hwaits
    exact Nat.lt_of_lt_of_le hearly hnext

end

end Reaper

/-! ## What an event can do to a deadline -/

namespace Engine

/-- What an event can do to the deadline of a request. -/
inductive Passage (σ : Engine) (id : String) : Event → Option Instant → Option Instant → Prop
  | rest {e : Event} {deadline : Option Instant} (he : e = .extend id → deadline = none) :
      Passage σ id e deadline deadline
  -- the request is entered
  | enter {now r} (hr : r.id = id) (hadmits : σ.Admits r) :
      Passage σ id (.submit now r) none (some (Instant.deadline now σ.term))
  -- it is extended
  | extend (t : Instant) :
      Passage σ id (.extend id) (some t) (some ((Instant.deadline? t σ.term).getD t))
  -- it is given back
  | giveBack (deadline : Option Instant) : Passage σ id (.release id) deadline none
  -- somebody asks for what has expired before an instant
  | expire {t now} (ht : t < now) : Passage σ id (.releaseExpired now) (some t) none
  -- the reaper looks
  | reap {t now stamp} (ht : t < now) : Passage σ id (.reap now stamp) (some t) none

section
variable {σ : Engine}

theorem settings_move {τ : Engine} {asks : Bool} (hm : Move σ τ asks) :
    τ.term = σ.term ∧ τ.reaper = σ.reaper := by
  cases hm <;> exact ⟨rfl, rfl⟩

/-- How long a request may keep its hosts never changes, and only the reaper's own
turn concerns the reaper. -/
theorem settings_step (σ : Engine) (e : Event) :
    (σ.step e).term = σ.term ∧
      ((∀ now stamp, e ≠ .reap now stamp) → (σ.step e).reaper = σ.reaper) := by
  cases e with
  | submit now r =>
    by_cases h : σ.Admits r
    · rw [step_submit h]
      exact ⟨rfl, fun _ => rfl⟩
    · rw [step_submit_of_not h]
      exact ⟨rfl, fun _ => rfl⟩
  | extend id =>
    show ((σ.extend? id).elim σ Prod.fst).term = _ ∧
      (_ → ((σ.extend? id).elim σ Prod.fst).reaper = _)
    rw [extend_eq]
    exact ⟨rfl, fun _ => rfl⟩
  | work =>
    rcases σ.step_work with ⟨-, heq⟩ | hm
    · rw [heq]
      exact ⟨rfl, fun _ => rfl⟩
    · obtain ⟨hterm, hreaper⟩ := settings_move hm
      exact ⟨hterm, fun _ => hreaper⟩
  | reap now stamp =>
    refine ⟨?_, fun hother => absurd rfl (hother now stamp)⟩
    obtain ⟨reaper, looks, h⟩ := σ.reaperTurn_eq now stamp
    show (σ.reaperTurn now stamp).term = _
    rw [h]
    split <;> rfl
  | release | releaseDevice | releaseExpired | change | stop => exact ⟨rfl, fun _ => rfl⟩

/-- A turn of the reaper, and what it leaves if it looks. -/
theorem step_reap (hL : σ.ledger.Sound) {r : Reaper} (hr : σ.reaper = some r) (now : Instant)
    (stamp : Nat) :
    (σ.step (.reap now stamp)).reaper = some (r.turn σ.stopped now stamp).1 ∧
      (σ.step (.reap now stamp)).stopped = σ.stopped ∧
      ((r.turn σ.stopped now stamp).2 = true → ∀ id t,
        (σ.step (.reap now stamp)).ledger.expires? id = some t → now ≤ t) := by
  simp only [step, reaperTurn, hr]
  split
  · refine ⟨rfl, rfl, fun _ id t ht => ?_⟩
    have ht : (σ.ledger.releaseExpired now).1.expires? id = some t := ht
    rw [Ledger.expires?_releaseExpired hL.names_nodup] at ht
    exact of_decide_eq_true (Option.filter_eq_some_iff.mp ht).2
  · next hlooks => exact ⟨rfl, rfl, fun h => absurd h hlooks⟩

/-- The worker leaves deadlines alone. -/
theorem expires?_move {τ : Engine} {asks : Bool} (hm : Move σ τ asks) (id : String) :
    τ.ledger.expires? id = σ.ledger.expires? id := by
  cases hm with
  | leave | skip | abandon | park | resume => rfl
  | takeUp => exact Ledger.expires?_setSnapshot ..
  | grant => exact Ledger.expires?_setSnapshot ..

theorem passage_step (hL : σ.ledger.Sound) (e : Event) (id : String) :
    Passage σ id e (σ.ledger.expires? id) ((σ.step e).ledger.expires? id) := by
  have hrest {e : Event} (hsame : (σ.step e).ledger.expires? id = σ.ledger.expires? id)
      (he : e ≠ .extend id) :
      Passage σ id e (σ.ledger.expires? id) ((σ.step e).ledger.expires? id) :=
    hsame ▸ .rest fun h => absurd h he
  cases e with
  | submit now r =>
    by_cases h : σ.Admits r
    · rw [step_submit h]
      show Passage σ id _ _ ((σ.ledger.submit r.id _).expires? id)
      rw [Ledger.expires?_submit]
      split
      · next hid =>
        rw [Ledger.expires?_eq_none.mpr (hid ▸ h.unknown)]
        exact .enter hid.symm h
      · exact .rest nofun
    · exact hrest (by rw [step_submit_of_not h]) nofun
  | release other =>
    show Passage σ id _ _ ((σ.ledger.release other).1.expires? id)
    rw [Ledger.expires?_release]
    split
    · next hid => exact hid ▸ .giveBack _
    · exact .rest nofun
  | releaseDevice d => exact hrest (Ledger.expires?_releaseDevice ..) nofun
  | releaseExpired now =>
    show Passage σ id _ _ ((σ.ledger.releaseExpired now).1.expires? id)
    rcases Ledger.expires?_releaseExpired_cases hL.names_nodup now id with heq | ⟨t, ht, hlt, heq⟩
    · exact heq ▸ .rest nofun
    · rw [heq, ht]
      exact .expire hlt
  | extend other =>
    show Passage σ id _ _ (((σ.extend? other).elim σ Prod.fst).ledger.expires? id)
    rw [extend_eq]
    show Passage σ id _ _ (((σ.ledger.extend? other σ.term).elim σ.ledger Prod.fst).expires? id)
    rw [Ledger.expires?_extend?]
    split
    · next hid =>
      subst hid
      cases σ.ledger.expires? id with
      | none => exact .rest fun _ => rfl
      | some t => exact .extend t
    · next hne =>
      refine .rest fun h => ?_
      cases h
      exact absurd rfl hne
  | change c => exact hrest (Ledger.expires?_applyChange ..) nofun
  | stop => exact hrest rfl nofun
  | work =>
    rcases σ.step_work with ⟨-, heq⟩ | hm
    · exact hrest (by rw [heq]) nofun
    · exact hrest (expires?_move hm id) nofun
  | reap now stamp =>
    obtain ⟨reaper, looks, heq⟩ := σ.reaperTurn_eq now stamp
    show Passage σ id _ _ ((σ.reaperTurn now stamp).ledger.expires? id)
    rw [heq]
    split
    · show Passage σ id _ _ ((σ.ledger.releaseExpired now).1.expires? id)
      rcases Ledger.expires?_releaseExpired_cases hL.names_nodup now id with heq | ⟨t, ht, hlt, heq⟩
      · exact heq ▸ .rest nofun
      · rw [heq, ht]
        exact .reap hlt
    · exact .rest nofun

theorem extend?_of_expires? {id : String} {t : Instant} (ht : σ.ledger.expires? id = some t) :
    (σ.extend? id).map (fun p => (p.1.ledger.expires? id, p.2)) =
      (Instant.deadline? t σ.term).map fun u => (some u, true) := by
  rw [← Ledger.extend?_of_expires? ht, extend?, Option.map_map]
  rfl

end

/-! ## Runs under a clock -/

/-- The event as it happens at an instant. -/
def Event.dated (now : Instant) : Event → Event
  | .submit _ r => .submit now r
  | .reap _ stamp => .reap now stamp
  | e => e

/-- An engine and the clock that it runs under. -/
structure Clocked where
  engine : Engine
  now : Instant

namespace Clocked

/-- What can happen under a clock. -/
inductive Event
  -- something happens to the engine, now
  | act (event : Engine.Event)
  -- time passes until an instant
  | pass (t : Instant)

/-- The engine and the clock after an event. -/
def step (c : Clocked) : Event → Clocked
  | .act e => { c with engine := c.engine.step (e.dated c.now) }
  | .pass t => { c with now := t }

/-- The engine and the clock after events in order. -/
def run (c : Clocked) (es : List Event) : Clocked := es.foldl step c

/-- The event is on time: the clock can show the deadline that it sets, and a
clock that moves on passes no alarm of the reaper by. -/
def Fits (c : Clocked) : Event → Prop
  | .act (.submit _ r) =>
    c.engine.ledger.describe? r.id = none → c.now + c.engine.term.nanos ≤ Instant.horizon
  | .act (.extend id) =>
    ∀ t ∈ c.engine.ledger.expires? id, t + c.engine.term.nanos ≤ Instant.horizon
  | .act _ => True
  | .pass t => c.now ≤ t ∧ t ≤ Instant.horizon ∧ ∀ r ∈ c.engine.reaper, r.lets t = true

instance (c : Clocked) : DecidablePred c.Fits
  | .act (.submit _ r) =>
    inferInstanceAs (Decidable (c.engine.ledger.describe? r.id = none → _))
  | .act (.extend id) =>
    inferInstanceAs (Decidable (∀ t ∈ c.engine.ledger.expires? id, _))
  | .pass t => inferInstanceAs (Decidable (c.now ≤ t ∧ t ≤ Instant.horizon ∧ ∀ r ∈ _, _))
  | .act (.release _) | .act (.releaseDevice _) | .act (.releaseExpired _) | .act (.change _)
  | .act .stop | .act .work | .act (.reap _ _) => isTrue trivial

/-- Every event of a run is on time. -/
def Timely (c : Clocked) : List Event → Prop
  | [] => True
  | e :: es => c.Fits e ∧ (c.step e).Timely es

instance Timely.decide (c : Clocked) : ∀ es, Decidable (c.Timely es)
  | [] => isTrue trivial
  | e :: es =>
    have := Timely.decide (c.step e) es
    inferInstanceAs (Decidable (c.Fits e ∧ (c.step e).Timely es))

/-- Whether a request is there all through a run. -/
def keeps (c : Clocked) (id : String) : List Event → Bool
  | [] => (c.engine.ledger.describe? id).isSome
  | e :: es => (c.engine.ledger.describe? id).isSome && (c.step e).keeps id es

/-- Whether an event extends a request, and finds it. -/
def prolongs (c : Clocked) (id : String) : Event → Bool
  | .act (.extend other) => other = id && (c.engine.extend? id).any Prod.snd
  | _ => false

/-- How often a request is extended over a run. -/
def prolongations (c : Clocked) (id : String) : List Event → Nat
  | [] => 0
  | e :: es => (c.prolongs id e).toNat + (c.step e).prolongations id es

section
variable {c : Clocked}

theorem sound_step (hL : c.engine.ledger.Sound) (e : Event) :
    (c.step e).engine.ledger.Sound := by
  cases e with
  | act e => exact Engine.sound_step c.engine _ hL
  | pass t => exact hL

theorem term_step (c : Clocked) (e : Event) : (c.step e).engine.term = c.engine.term := by
  cases e with
  | act e => exact (Engine.settings_step c.engine _).1
  | pass t => rfl

theorem run_append (c : Clocked) (es fs : List Event) : c.run (es ++ fs) = (c.run es).run fs :=
  List.foldl_append

theorem sound_run (hL : c.engine.ledger.Sound) (es : List Event) :
    (c.run es).engine.ledger.Sound := by
  induction es generalizing c with
  | nil => exact hL
  | cons e rest ih => exact ih (sound_step hL e)

theorem term_run (c : Clocked) (es : List Event) : (c.run es).engine.term = c.engine.term := by
  induction es generalizing c with
  | nil => rfl
  | cons e rest ih => exact (ih (c.step e)).trans (term_step c e)

theorem Timely.append {es fs : List Event} (h : c.Timely (es ++ fs)) : (c.run es).Timely fs := by
  induction es generalizing c with
  | nil => exact h
  | cons e rest ih => exact ih h.2

/-! ## Deadlines -/

section
variable {id : String} {t u : Instant} {e : Event} {es : List Event}

/-- A request that is there is extended exactly if the clock can show the
deadline that follows its last one. -/
theorem prolongs_extend (ht : c.engine.ledger.expires? id = some t) :
    c.prolongs id (.act (.extend id)) = (Instant.deadline? t c.engine.term).isSome := by
  have heq := extend?_of_expires? ht
  cases hext : c.engine.extend? id with
  | none =>
    rw [hext] at heq
    simp [prolongs, hext, Option.map_eq_none_iff.mp heq.symm]
  | some p =>
    rw [hext] at heq
    obtain ⟨u, hu, hp⟩ := Option.map_eq_some_iff.mp heq.symm
    have hfound : true = p.2 := congrArg Prod.snd hp
    simp [prolongs, hext, hu, ← hfound]

theorem prolongs_of_ne {e : Engine.Event} (he : e ≠ .extend id) :
    c.prolongs id (.act e) = false := by
  cases e with
  | extend other =>
    have hne : other ≠ id := fun h => he (h ▸ rfl)
    simp [prolongs, hne]
  | submit | release | releaseDevice | releaseExpired | change | stop | work | reap => rfl

theorem eq_extend_of_dated {now : Instant} {e : Engine.Event}
    (h : e.dated now = .extend id) : e = .extend id := by
  cases e <;> first | exact h | cases h

theorem eq_submit_of_dated {now : Instant} {e : Engine.Event} {r : Request}
    (h : e.dated now = .submit t r) : t = now ∧ ∃ any, e = .submit any r := by
  cases e with
  | submit any r =>
    cases h
    exact ⟨rfl, any, rfl⟩
  | _ => cases h

/-- Where the deadline of a request that is there after an event comes from. -/
inductive Origin (c : Clocked) (id : String) (u : Instant) : Event → Prop
  -- it is what it was
  | same {e : Event} (ht : c.engine.ledger.expires? id = some u) (he : c.prolongs id e = false) :
      Origin c id u e
  -- the request was extended
  | extended {t : Instant} (ht : c.engine.ledger.expires? id = some t)
      (hnext : Instant.deadline? t c.engine.term = some u)
      (he : c.prolongs id (.act (.extend id)) = true) : Origin c id u (.act (.extend id))
  -- it was entered
  | entered {now r} (hr : r.id = id) (hadmits : c.engine.Admits r)
      (hfirst : u = Instant.deadline c.now c.engine.term) : Origin c id u (.act (.submit now r))

theorem origin_step (hL : c.engine.ledger.Sound)
    (hu : (c.step e).engine.ledger.expires? id = some u) : Origin c id u e := by
  cases e with
  | pass t => exact .same hu rfl
  | act e =>
    have hpassage := passage_step hL (e.dated c.now) id
    have hnext : (c.engine.step (e.dated c.now)).ledger.expires? id = some u := hu
    rw [hnext] at hpassage
    generalize ht : c.engine.ledger.expires? id = before at hpassage
    generalize hf : e.dated c.now = f at hpassage
    cases hpassage with
    | rest hother =>
      have hne : e ≠ .extend id := by
        rintro rfl
        cases hother hf.symm
      exact .same ht (prolongs_of_ne hne)
    | enter hr hadmits =>
      obtain ⟨rfl, any, rfl⟩ := eq_submit_of_dated hf
      exact .entered hr hadmits rfl
    | extend t =>
      obtain rfl := eq_extend_of_dated hf
      have hfound := prolongs_extend ht
      -- without a deadline to show, the last one stays
      cases hdeadline : Instant.deadline? t c.engine.term with
      | none =>
        rw [hdeadline] at hfound
        exact .same ht hfound
      | some v =>
        rw [hdeadline] at hfound
        exact .extended ht hdeadline hfound

/-- A request that is there has been there before, and its deadline has moved
by a term if it was extended, or it was entered now. -/
theorem expires?_step (hL : c.engine.ledger.Sound) (hfits : c.Fits e)
    (hu : (c.step e).engine.ledger.expires? id = some u) :
    (∃ t, c.engine.ledger.expires? id = some t ∧
      u = t + (c.prolongs id e).toNat * c.engine.term.nanos) ∨
      ∃ now r, e = .act (.submit now r) ∧ r.id = id ∧ c.engine.Admits r ∧
        u = c.now + c.engine.term.nanos := by
  cases origin_step hL hu with
  | same ht he => exact .inl ⟨u, ht, by simp [he]⟩
  | extended ht hnext he =>
    rw [Instant.deadline?_of_le (hfits _ ht)] at hnext
    obtain rfl := Option.some.inj hnext
    exact .inl ⟨_, ht, by simp [he]⟩
  | entered hr hadmits hfirst =>
    rw [Instant.deadline_of_le (hfits hadmits.unknown)] at hfirst
    exact .inr ⟨_, _, rfl, hr, hadmits, hfirst⟩

theorem expires?_entered {r : Request} (hadmits : c.engine.Admits r) (now : Instant) :
    (c.step (.act (.submit now r))).engine.ledger.expires? r.id =
      some (Instant.deadline c.now c.engine.term) := by
  show (c.engine.step (.submit c.now r)).ledger.expires? r.id = _
  rw [step_submit hadmits]
  show (c.engine.ledger.submit r.id _).expires? r.id = _
  rw [Ledger.expires?_submit, if_pos rfl]

/-- A request that is there is not entered again. -/
theorem not_admits_of_expires? {r : Request} (ht : c.engine.ledger.expires? r.id = some t) :
    ¬c.engine.Admits r := by
  intro hadmits
  rw [Ledger.expires?_eq_none.mpr hadmits.unknown] at ht
  cases ht

theorem live_of_keeps (h : c.keeps id es = true) : (c.engine.ledger.describe? id).isSome := by
  cases es with
  | nil => exact h
  | cons e rest => exact (Bool.and_eq_true_iff.mp h).1

theorem exists_expires?_of_keeps (h : c.keeps id es = true) :
    ∃ t, c.engine.ledger.expires? id = some t := by
  refine Option.ne_none_iff_exists'.mp fun hnone => ?_
  have hlive := live_of_keeps h
  rw [Ledger.expires?_eq_none.mp hnone] at hlive
  cases hlive

/-- A request that is there after a run has been there all along, or since it
was last entered. -/
theorem kept_or_entered (hL : c.engine.ledger.Sound)
    (hu : (c.run es).engine.ledger.expires? id = some u) :
    c.keeps id es = true ∨
      ∃ es₁ now r es₂, es = es₁ ++ .act (.submit now r) :: es₂ ∧ r.id = id ∧
        (c.run es₁).engine.Admits r ∧
        ((c.run es₁).step (.act (.submit now r))).keeps id es₂ = true := by
  have hlive {c : Clocked} {t : Instant} {e : Event} {rest : List Event}
      (ht : c.engine.ledger.expires? id = some t) (hrest : (c.step e).keeps id rest = true) :
      c.keeps id (e :: rest) = true :=
    Bool.and_eq_true_iff.mpr ⟨Ledger.describe?_isSome_of_expires? ht, hrest⟩
  induction es generalizing c with
  | nil => exact .inl (Ledger.describe?_isSome_of_expires? hu)
  | cons e rest ih =>
    rcases ih (sound_step hL e) hu with hrest | ⟨es₁, now, r, es₂, rfl, hentered⟩
    · obtain ⟨v, hv⟩ := exists_expires?_of_keeps hrest
      cases origin_step hL hv with
      | same ht => exact .inl (hlive ht hrest)
      | extended ht => exact .inl (hlive ht hrest)
      | entered hr hadmits => exact .inr ⟨[], _, _, rest, rfl, hr, hadmits, hrest⟩
    · exact .inr ⟨e :: es₁, now, r, es₂, rfl, hentered⟩

/-- While a request is there, its deadline moves by a term for each time that it
is extended. -/
theorem expires?_kept (hL : c.engine.ledger.Sound) (htimely : c.Timely es)
    (hkeeps : c.keeps id es = true) (ht : c.engine.ledger.expires? id = some t)
    (hu : (c.run es).engine.ledger.expires? id = some u) :
    u = t + c.prolongations id es * c.engine.term.nanos := by
  induction es generalizing c t with
  | nil =>
    obtain rfl := Option.some.inj (ht.symm.trans hu)
    simp [prolongations]
  | cons e rest ih =>
    obtain ⟨hfits, hlater⟩ := htimely
    have hrest : (c.step e).keeps id rest = true := (Bool.and_eq_true_iff.mp hkeeps).2
    obtain ⟨v, hv⟩ := exists_expires?_of_keeps hrest
    rw [ih (sound_step hL e) hlater hrest hv hu, term_step, prolongations, Nat.add_mul]
    rcases expires?_step hL hfits hv with ⟨s, hs, rfl⟩ | ⟨now, r, rfl, rfl, hadmits, -⟩
    · obtain rfl := Option.some.inj (hs.symm.trans ht)
      rw [Nat.add_assoc]
    · exact absurd hadmits (not_admits_of_expires? ht)

/-- The deadline of a request is what it was at the start, and a term more for
each time that the request was extended; or the request was entered meanwhile,
and it is as much after that. -/
theorem expires?_run (hL : c.engine.ledger.Sound) (htimely : c.Timely es)
    (hu : (c.run es).engine.ledger.expires? id = some u) :
    (c.keeps id es = true ∧ ∃ t, c.engine.ledger.expires? id = some t ∧
      u = t + c.prolongations id es * c.engine.term.nanos) ∨
      ∃ es₁ now r es₂, es = es₁ ++ .act (.submit now r) :: es₂ ∧ r.id = id ∧
        (c.run es₁).engine.Admits r ∧
        ((c.run es₁).step (.act (.submit now r))).keeps id es₂ = true ∧
        u = (c.run es₁).now + c.engine.term.nanos +
          ((c.run es₁).step (.act (.submit now r))).prolongations id es₂ * c.engine.term.nanos := by
  rcases kept_or_entered hL hu with hkeeps | ⟨es₁, now, r, es₂, rfl, rfl, hadmits, hkeeps⟩
  · obtain ⟨t, ht⟩ := exists_expires?_of_keeps hkeeps
    exact .inl ⟨hkeeps, t, ht, expires?_kept hL htimely hkeeps ht hu⟩
  · obtain ⟨hfits, hlater⟩ := htimely.append
    rw [run_append] at hu
    have hfirst := expires?_entered hadmits now
    rw [Instant.deadline_of_le (hfits hadmits.unknown)] at hfirst
    have hsound := sound_step (sound_run hL es₁) (.act (.submit now r))
    have hmoved := expires?_kept hsound hlater hkeeps hfirst hu
    rw [term_step, term_run] at hmoved
    exact .inr ⟨es₁, now, r, es₂, rfl, rfl, hadmits, hkeeps, hmoved⟩

end

/-! ## Not too late -/

/-- No deadline lies before the reaper's last look. -/
structure Watched (c : Clocked) (r : Reaper) (last : Instant) : Prop where
  reaper : c.engine.reaper = some r
  awaits : r.Awaits c.engine.stopped last c.now
  reached : last ≤ c.now
  deadlines : ∀ id t, c.engine.ledger.expires? id = some t → last ≤ t

/-- The engine is watched by a reaper that looks every so many milliseconds. -/
structure Guarded (c : Clocked) (n : Nat) : Prop where
  sound : c.engine.ledger.Sound
  shown : c.now ≤ Instant.horizon
  watched : ∃ r last, r.beat.period = .ofMillis n ∧ c.Watched r last

variable {r : Reaper} {last : Instant}

/-- No event sets a deadline that lies before the last look. -/
theorem Watched.le_expires? (h : c.Watched r last) (hL : c.engine.ledger.Sound)
    (hshown : c.now ≤ Instant.horizon) (e : Engine.Event) {id : String} {u : Instant}
    (hu : (c.step (.act e)).engine.ledger.expires? id = some u) : last ≤ u := by
  cases origin_step hL hu with
  | same ht => exact h.deadlines id u ht
  | extended ht hnext => exact Nat.le_trans (h.deadlines id _ ht) (Instant.le_of_deadline? hnext)
  | entered _ _ hfirst => exact hfirst ▸ Nat.le_trans h.reached (Instant.le_deadline hshown _)

/-- After a turn of the reaper that looks, no deadline lies before now. -/
theorem Watched.reap (h : c.Watched r last) (hL : c.engine.ledger.Sound)
    (hshown : c.now ≤ Instant.horizon) {n : Nat} (hb : r.beat.period = .ofMillis n)
    (any : Instant) (stamp : Nat) :
    ∃ r' last', r'.beat.period = .ofMillis n ∧
      (c.step (.act (.reap any stamp))).Watched r' last' := by
  obtain ⟨hbeat, hawaits⟩ := h.awaits.turn hb hshown stamp
  obtain ⟨hreaper, hstop, hlooks⟩ := step_reap hL h.reaper c.now stamp
  have hawaits := hawaits.mono fun hstopped => hstop.trans hstopped
  refine ⟨_, _, hbeat ▸ hb, hreaper, hawaits, ?_, ?_⟩
  · show (if _ then c.now else last) ≤ c.now
    split
    · exact Nat.le_refl _
    · exact h.reached
  · intro id u hu
    split
    · next hlook => exact hlooks hlook id u hu
    · exact h.le_expires? hL hshown (.reap any stamp) hu

theorem Watched.act (h : c.Watched r last) (hL : c.engine.ledger.Sound)
    (hshown : c.now ≤ Instant.horizon) {e : Engine.Event}
    (he : ∀ t stamp, e.dated c.now ≠ .reap t stamp) : (c.step (.act e)).Watched r last where
  reaper := ((settings_step c.engine _).2 he).trans h.reaper
  awaits := h.awaits.mono fun hstop => stays_stopped hstop _
  reached := h.reached
  deadlines _ _ hu := h.le_expires? hL hshown e hu

theorem Guarded.step {n : Nat} (h : c.Guarded n) {e : Event} (hfits : c.Fits e) :
    (c.step e).Guarded n := by
  obtain ⟨r, last, hb, hw⟩ := h.watched
  cases e with
  | pass t =>
    obtain ⟨hlater, hshown, hlets⟩ := hfits
    exact ⟨h.sound, hshown, r, last, hb, hw.reaper, hw.awaits.pass (hlets r hw.reaper),
      Nat.le_trans hw.reached hlater, hw.deadlines⟩
  | act e =>
    refine ⟨Engine.sound_step _ _ h.sound, h.shown, ?_⟩
    cases e with
    | reap any stamp => exact hw.reap h.sound h.shown hb any stamp
    | submit | release | releaseDevice | releaseExpired | extend | change | stop | work =>
      exact ⟨r, last, hb, hw.act h.sound h.shown nofun⟩

theorem Guarded.run {n : Nat} (h : c.Guarded n) {es : List Event} (ht : c.Timely es) :
    (c.run es).Guarded n := by
  induction es generalizing c with
  | nil => exact h
  | cons e rest ih => exact ih (h.step ht.1) ht.2

/-! ## The bounds -/

theorem guarded_engine (d : EngineDraft) (members : List Host) (n : Nat) {start : Instant}
    (hexpires : d.expires = true) (hevery : d.reapInterval = .ofMillis n)
    (hstart : start ≤ Instant.horizon) :
    (Clocked.mk (d.engine members) start).Guarded (max n 1) := by
  let r := Reaper.ofInterval d.reapInterval
  have hreaper : (d.engine members).reaper = some r := by simp [EngineDraft.engine, hexpires, r]
  have hb : r.beat.period = .ofMillis (max n 1) := by
    show (Beat.ofDuration d.reapInterval).period = _
    rw [hevery]
    exact Beat.period_ofDuration n
  refine ⟨Ledger.sound_ofHosts members, hstart, r, start, hb, hreaper, .starting rfl rfl,
    Nat.le_refl start, ?_⟩
  intro id t ht
  cases (Ledger.expires?_ofHosts members id).symm.trans ht

/-- Who takes a request out, and when its deadline has passed by then. -/
theorem taken_out (hL : c.engine.ledger.Sound) {e : Event} {id : String} {t : Instant}
    (ht : c.engine.ledger.expires? id = some t)
    (hout : (c.step e).engine.ledger.expires? id = none) :
    e = .act (.release id) ∨ (∃ s, e = .act (.releaseExpired s) ∧ t < s) ∨
      ∃ any stamp, e = .act (.reap any stamp) ∧ t < c.now := by
  cases e with
  | pass s => cases ht.symm.trans hout
  | act e =>
    have hpassage := passage_step hL (e.dated c.now) id
    have hnext : (c.engine.step (e.dated c.now)).ledger.expires? id = none := hout
    rw [ht, hnext] at hpassage
    cases e with
    | release other =>
      cases hpassage
      exact .inl rfl
    | releaseExpired s =>
      cases hpassage with
      | expire hlt => exact .inr (.inl ⟨s, rfl, hlt⟩)
    | reap any stamp =>
      cases hpassage with
      | reap hlt => exact .inr (.inr ⟨any, stamp, rfl, hlt⟩)
    | submit | releaseDevice | extend | change | stop | work => cases hpassage

end

end Clocked

/-- **Expiry on time.** Take an engine with a reaper that looks every `n`
milliseconds, or every one if `n` is zero, and any run of it under a clock that
passes no alarm of the reaper by and can show the deadlines that are set. The
deadline of a request that is there lies one term after it was entered, and one
more for each time that it was extended. Only who gives a request back, and who
looks for expired requests, takes it out: the reaper does so at an instant after
the deadline and not before. And while the reaper has to wait and the engine is
not stopped, no request is there whose deadline lies a period back or more. -/
theorem expires_on_time (d : EngineDraft) (members : List Host) (n : Nat) (start : Instant)
    (es : List Clocked.Event) (hexpires : d.expires = true)
    (hevery : d.reapInterval = .ofMillis n) (hstart : start ≤ Instant.horizon)
    (htimely : (Clocked.mk (d.engine members) start).Timely es) :
    let c₀ : Clocked := ⟨d.engine members, start⟩
    let c := c₀.run es
    (∀ id t, c.engine.ledger.expires? id = some t →
      ∃ es₁ now r es₂, es = es₁ ++ .act (.submit now r) :: es₂ ∧ r.id = id ∧
        let before := c₀.run es₁
        let entered := before.step (.act (.submit now r))
        before.engine.Admits r ∧ entered.keeps id es₂ = true ∧
          t = before.now + d.term.nanos + entered.prolongations id es₂ * d.term.nanos) ∧
      (∀ e id t, c.engine.ledger.expires? id = some t →
        (c.step e).engine.ledger.expires? id = none →
          e = .act (.release id) ∨ (∃ s, e = .act (.releaseExpired s) ∧ t < s) ∨
            ∃ any stamp, e = .act (.reap any stamp) ∧ t < c.now) ∧
      (c.engine.stopped = false → (∀ r ∈ c.engine.reaper, r.waits c.now = true) →
        ∀ id t, c.engine.ledger.expires? id = some t →
          c.now < t + (Duration.ofMillis (max n 1)).nanos) := by
  intro c₀ c
  have hstarted : c₀.Guarded (max n 1) := Clocked.guarded_engine d members n hexpires hevery hstart
  have hguarded : c.Guarded (max n 1) := hstarted.run htimely
  refine ⟨?_, fun e id t => Clocked.taken_out hguarded.sound, ?_⟩
  · intro id t ht
    rcases Clocked.expires?_run hstarted.sound htimely ht with ⟨-, u, hu, -⟩ | hentered
    · cases (Ledger.expires?_ofHosts members id).symm.trans hu
    · obtain ⟨es₁, now, r, es₂, hes, hr, hadmits, hkeeps, ht⟩ := hentered
      exact ⟨es₁, now, r, es₂, hes, hr, hadmits, hkeeps, ht⟩
  · intro hstop hwaits id t ht
    obtain ⟨r, last, hb, hw⟩ := hguarded.watched
    have hawaits := hw.awaits
    rw [hstop] at hawaits
    calc c.now < last + r.beat.period.nanos := hawaits.lt_of_waits (hwaits r hw.reaper)
      _ = last + (Duration.ofMillis (max n 1)).nanos := by rw [hb]
      _ ≤ t + (Duration.ofMillis (max n 1)).nanos := Nat.add_le_add_right (hw.deadlines id t ht) _

/-- A reaper looks every half second. The deadline of a request coincides with a
look, which leaves the request alone; it is extended at the same instant, and
another one is entered. Both outlive the look at their deadline, and the next one
takes them out, half a second later. -/
theorem expires_on_time_two_requests :
    let d : EngineDraft := { term := .ofSecs 1, reapInterval := .ofMillis 500 }
    let c₀ : Clocked := ⟨d.engine [], 0⟩
    let look : Clocked.Event := .act (.reap 0 0)
    let es : List Clocked.Event :=
      [look, .act (.submit 0 ⟨"a", 1, by decide⟩), .pass (.ofMillis 500), look,
        .pass (.ofMillis 1000), look, .act (.extend "a"),
        .act (.submit 0 ⟨"b", 1, by decide⟩), .pass (.ofMillis 1500), look,
        .pass (.ofMillis 2000), look, .pass (.ofMillis 2499)]
    let c := c₀.run es
    (d.expires = true ∧ d.reapInterval = .ofMillis 500 ∧ 0 ≤ Instant.horizon ∧ c₀.Timely es) ∧
      (c.engine.stopped = false ∧ ∀ r ∈ c.engine.reaper, r.waits c.now = true) ∧
      c.engine.ledger.expires? "a" = some (.ofMillis 2000) ∧
      c.engine.ledger.expires? "b" = some (.ofMillis 2000) ∧
      c.now < Instant.ofMillis 2000 + (Duration.ofMillis (max 500 1)).nanos ∧
      (c.run [.pass (.ofMillis 2500), look]).engine.ledger.expires? "a" = none := by
  intro d c₀ look es c
  have hclock : 0 ≤ Instant.horizon := Nat.zero_le _
  have htimely : c₀.Timely es := by decide +kernel
  have hrests : c.engine.stopped = false ∧ ∀ r ∈ c.engine.reaper, r.waits c.now = true := by
    decide +kernel
  have ha : c.engine.ledger.expires? "a" = some (.ofMillis 2000) := by decide +kernel
  have hb : c.engine.ledger.expires? "b" = some (.ofMillis 2000) := by decide +kernel
  obtain ⟨-, -, hlate⟩ := expires_on_time d [] 500 0 es rfl rfl hclock htimely
  exact ⟨⟨rfl, rfl, hclock, htimely⟩, hrests, ha, hb, hlate hrests.1 hrests.2 "a" _ ha,
    by decide +kernel⟩

end Engine

end Fleet
