import Fleet.Proofs.Deadlines
import Fleet.Proofs.Pool.Sessions

/-!
# Waits on time

The status of a request is asked for when its wait begins and each time an
interval is over (`Course.pollAt`), until an answer is final or the limit is over
(`Course.limitAt`). A run is on time (`Session.OnTime`) if the service answers at
once and the clock stops at every alarm.

* **ties** — who is woken first goes first: the limit is set before any alarm of
  the poller, so a question that is due with the limit is not asked, and the
  caller, who starts the poller, looks at the limit before the poller runs;
* **stages** — between two questions a wait rests, for the length of an answer it
  asks, and from a final answer on it has ended (`Resting`, `Asking`, `Ended`).
  What is on time leads from one of these stages to one of them (`stage_step`),
  so a wait that is found decided has been decided by the first final answer
  before the limit or by the limit (`Stage.decided`);
* **progress** — from every stage a wait can go on until it is decided
  (`Stage.exists_decision`).
-/

namespace Fleet

namespace Waiting

open Wait Dialogue

variable {C T : Type}

/-- An answer that ends the polling: an error, or a status that a request ends
in. -/
def Final : Except ProvisionError Snapshot → Prop
  | .error _ => True
  | .ok s => s.status.isTerminal = true

instance : (a : Except ProvisionError Snapshot) → Decidable (Final a)
  | .error _ => isTrue trivial
  | .ok s => inferInstanceAs (Decidable (s.status.isTerminal = true))

theorem hear_of_final {a : Except ProvisionError Snapshot} (h : Final a) (interval : Duration)
    (now : Instant) (stamp : Nat) : Poller.hear interval now stamp a = .ended a := by
  cases a with
  | error => rfl
  | ok s => exact if_pos h

theorem hear_of_not_final {a : Except ProvisionError Snapshot} (h : ¬Final a)
    (interval : Duration) (now : Instant) (stamp : Nat) :
    Poller.hear interval now stamp a = .asleep (Alarm.after now interval stamp) := by
  cases a with
  | error => exact absurd trivial h
  | ok s => exact if_neg h

instance decidableEqExcept {ε α : Type} [DecidableEq ε] [DecidableEq α] :
    DecidableEq (Except ε α)
  | .ok a, .ok b => decidable_of_iff (a = b) (by simp)
  | .error a, .error b => decidable_of_iff (a = b) (by simp)
  | .ok _, .error _ => isFalse nofun
  | .error _, .ok _ => isFalse nofun

/-! ## Runs on time -/

/-- Whether the caller goes before the poller: the limit is over, and was set
before the alarm that the poller sleeps by, if it does, rings. -/
def CallerFirst (w : Wait) (now : Instant) : Prop :=
  w.limit.rings now ∧ ∀ a ∈ w.poller.alarm?, w.limit.before a

instance (w : Wait) (now : Instant) : Decidable (CallerFirst w now) :=
  inferInstanceAs (Decidable (_ ∧ _))

namespace Session

/-- The wait that is under way. -/
def watch? (σ : Session C T) : Option Watch :=
  match σ.phase with
  | .waiting w => some w
  | _ => none

/-- How the wait is decided if the caller looks now. -/
def decision? (σ : Session C T) : Option (Except ProvisionError Snapshot) :=
  σ.watch?.bind fun w => w.wait.settled? σ.now

/-- What can happen to a wait that is not decided, on a clock whose timers ring
on time and with a service that answers at once. Time passes only while the
caller and the poller sleep, and no alarm is passed by. -/
def Timely (answers : Instant → Except ProvisionError Snapshot) (σ : Session C T) :
    Event C T → Prop
  | .pass t => ∃ w ∈ σ.watch?, w.asking = false ∧ w.wait.settled? σ.now = none ∧
      w.wait.poller.isDue σ.now = false ∧ t ≤ w.wait.limit.due ∧
      ∀ a ∈ w.wait.poller.alarm?, t ≤ a.due
  | .poll => ∃ w ∈ σ.watch?, w.asking = false ∧ w.wait.poller.isDue σ.now ∧
      ¬CallerFirst w.wait σ.now
  | .described a => a = answers σ.now ∧ ∃ w ∈ σ.watch?, w.asking = true
  | .look => σ.decision? = none ∧ σ.watch?.isSome
  | .submitted _ | .answered _ | .drop | .giveBack => False

instance (answers : Instant → Except ProvisionError Snapshot) (σ : Session C T)
    (e : Event C T) : Decidable (σ.Timely answers e) :=
  match e with
  | .pass _ | .poll => inferInstanceAs (Decidable (∃ w, w ∈ σ.watch? ∧ _))
  | .described a => inferInstanceAs (Decidable (a = answers σ.now ∧ ∃ w, w ∈ σ.watch? ∧ _))
  | .look => inferInstanceAs (Decidable (_ ∧ _))
  | .submitted _ | .answered _ | .drop | .giveBack => isFalse id

/-- Everything that happens in a run is on time. -/
def OnTime (answers : Instant → Except ProvisionError Snapshot) (σ : Session C T) :
    List (Event C T) → Prop
  | [] => True
  | e :: es => σ.Timely answers e ∧ (σ.step e).OnTime answers es

instance decidableOnTime (answers : Instant → Except ProvisionError Snapshot) :
    (σ : Session C T) → (es : List (Event C T)) → Decidable (σ.OnTime answers es)
  | _, [] => isTrue trivial
  | σ, e :: es =>
    have := decidableOnTime answers (σ.step e) es
    inferInstanceAs (Decidable (σ.Timely answers e ∧ (σ.step e).OnTime answers es))

variable {answers : Instant → Except ProvisionError Snapshot} {σ : Session C T} {w : Watch}

@[simp] theorem mem_watch?_iff : w ∈ σ.watch? ↔ σ.phase = .waiting w := by
  cases h : σ.phase <;> simp [watch?, h]

theorem eq_of_mem_watch? {v : Watch} (hw : σ.phase = .waiting w) (hv : v ∈ σ.watch?) : v = w :=
  Phase.waiting.inj ((mem_watch?_iff.mp hv).symm.trans hw)

theorem decision?_of_waiting (h : σ.phase = .waiting w) :
    σ.decision? = w.wait.settled? σ.now := by
  simp [decision?, watch?, h]

theorem act_look_of_none (hphase : σ.phase = .waiting w) (h : σ.decision? = none) :
    σ.act .look = (.waiting w, []) := by
  rw [decision?_of_waiting hphase] at h
  simp only [act, hphase, h]

end Session

/-- How often notes say that the status was asked for. -/
def describes (ns : List (Note C T)) : Nat :=
  ns.countP fun | .described _ => true | _ => false

theorem describes_append (ns ms : List (Note C T)) :
    describes (ns ++ ms) = describes ns + describes ms := List.countP_append

/-! ## When the status is asked for -/

/-- A wait for a request from when it begins, and what the service answers over
time. -/
structure Course where
  id : String
  start : Instant
  interval : Duration
  limit : Duration
  answers : Instant → Except ProvisionError Snapshot

namespace Course

/-- When the status is asked for: at once, and then whenever an interval is
over. -/
def pollAt (c : Course) : Nat → Instant
  | 0 => c.start
  | k + 1 => Instant.ceilMilli (Instant.deadline (c.pollAt k) c.interval)

/-- When the limit is over. -/
def limitAt (c : Course) : Instant := Instant.ceilMilli (Instant.deadline c.start c.limit)

/-- The answers to the first questions are not final, and all these questions
come before the limit. -/
def Undecided (c : Course) (k : Nat) : Prop :=
  ∀ j < k, c.pollAt j < c.limitAt ∧ ¬Final (c.answers (c.pollAt j))

/-- What decides a wait, when, and after how many questions: the first final
answer to a question before the limit, or else the limit. -/
inductive DecidedBy (c : Course) : Except ProvisionError Snapshot → Instant → Nat → Prop
  | answer {k} (hbefore : c.pollAt k < c.limitAt) (hfinal : Final (c.answers (c.pollAt k)))
      (hfirst : ∀ j < k, ¬Final (c.answers (c.pollAt j))) :
      DecidedBy c (c.answers (c.pollAt k)) (c.pollAt k) (k + 1)
  | limit {n} (hnone : ∀ k, c.pollAt k < c.limitAt → ¬Final (c.answers (c.pollAt k)))
      (hcount : ∀ k, k < n ↔ c.pollAt k < c.limitAt) :
      DecidedBy c (.error (.timeout c.id)) c.limitAt n

variable {c : Course}

theorem limitAt_le_horizon : c.limitAt ≤ Instant.horizon :=
  calc c.limitAt ≤ Instant.ceilMilli Instant.horizon :=
        Instant.ceilMilli_mono (Instant.deadline_le_horizon ..)
    _ = Instant.horizon := by decide

theorem pollAt_le_succ {k : Nat} (h : c.pollAt k < c.limitAt) : c.pollAt k ≤ c.pollAt (k + 1) :=
  Nat.le_trans (Instant.le_deadline (Nat.le_of_lt (Nat.lt_of_lt_of_le h limitAt_le_horizon)) c.interval)
    (Instant.le_ceilMilli _)

theorem Undecided.succ {k : Nat} (h : c.Undecided k) (hbefore : c.pollAt k < c.limitAt)
    (hnot : ¬Final (c.answers (c.pollAt k))) : c.Undecided (k + 1) := by
  intro j hj
  rcases Nat.lt_succ_iff_lt_or_eq.mp hj with hlt | rfl
  · exact h j hlt
  · exact ⟨hbefore, hnot⟩

end Course

/-! ## Stages -/

section

variable {c : Course} {σ : Session C T} {k n : Nat}

/-- The wait of a session is the one that a course begins with. -/
structure Fits (c : Course) (σ : Session C T) (w : Wait) : Prop where
  id : w.id = c.id
  interval : w.interval = c.interval
  limit : w.limit.due = c.limitAt
  -- any alarm that the poller sets from now on comes after the limit
  stamp : w.limit.stamp < σ.stamp

/-- The question of number `k` is next. -/
structure Resting (c : Course) (σ : Session C T) (k : Nat) (w : Wait) : Prop extends
    Fits c σ w where
  phase : σ.phase = .waiting ⟨w, false⟩
  poller : w.poller = .starting ∧ k = 0 ∧ σ.now = c.start ∨
    ∃ a, w.poller = .asleep a ∧ a.due = c.pollAt k ∧ w.limit.stamp < a.stamp
  by_next : σ.now ≤ c.pollAt k
  by_limit : σ.now ≤ c.limitAt
  undecided : c.Undecided k

/-- The question of number `k` has been asked and is not answered. -/
structure Asking (c : Course) (σ : Session C T) (k : Nat) (w : Wait) : Prop extends
    Fits c σ w where
  phase : σ.phase = .waiting ⟨w, true⟩
  poller : ∀ a, w.poller ≠ .ended a
  now : σ.now = c.pollAt k
  before : c.pollAt k < c.limitAt
  undecided : c.Undecided k

/-- The answer to the question of number `k` is final. -/
structure Ended (c : Course) (σ : Session C T) (k : Nat) (w : Wait) : Prop extends
    Fits c σ w where
  phase : σ.phase = .waiting ⟨w, false⟩
  poller : w.poller = .ended (c.answers (c.pollAt k))
  now : σ.now = c.pollAt k
  before : c.pollAt k < c.limitAt
  undecided : c.Undecided k
  final : Final (c.answers (c.pollAt k))

/-- How far an undecided wait has come when so many questions have been asked. -/
inductive Stage (c : Course) (σ : Session C T) : Nat → Prop
  | resting {k w} (h : Resting c σ k w) : Stage c σ k
  | asking {k w} (h : Asking c σ k w) : Stage c σ (k + 1)
  | ended {k w} (h : Ended c σ k w) : Stage c σ (k + 1)

variable {w : Wait}

theorem Fits.step (h : Fits c σ w) (e : Event C T) : Fits c (σ.step e) w :=
  ⟨h.id, h.interval, h.limit, Nat.lt_succ_of_lt h.stamp⟩

theorem Fits.rings_iff (h : Fits c σ w) (now : Instant) : w.limit.rings now ↔ c.limitAt ≤ now := by
  simp [Alarm.rings, h.limit]

namespace Resting

theorem alarm (h : Resting c σ k w) {a : Alarm} (ha : a ∈ w.poller.alarm?) :
    a.due = c.pollAt k ∧ w.limit.stamp < a.stamp := by
  rcases h.poller with ⟨hpoller, -⟩ | ⟨b, hpoller, halarm⟩ <;> rw [hpoller] at ha
  · cases ha
  · obtain rfl : b = a := Option.some.inj ha
    exact halarm

theorem not_ended (h : Resting c σ k w) (a : Except ProvisionError Snapshot) :
    w.poller ≠ .ended a := by
  rcases h.poller with ⟨hpoller, -⟩ | ⟨b, hpoller, -⟩ <;> simp [hpoller]

theorem isDue_iff (h : Resting c σ k w) : w.poller.isDue σ.now ↔ σ.now = c.pollAt k := by
  rcases h.poller with ⟨hstarting, rfl, hnow⟩ | ⟨a, hasleep, hdue, -⟩
  · simp [Poller.isDue, hstarting, hnow, Course.pollAt]
  · simp only [Poller.isDue, hasleep, Alarm.rings, hdue, decide_eq_true_eq]
    exact ⟨fun hle => Nat.le_antisymm h.by_next hle, fun heq => Nat.le_of_eq heq.symm⟩

/-- The poller has its turn as long as the limit is not over. -/
theorem callerFirst_iff (h : Resting c σ k w) : CallerFirst w σ.now ↔ c.limitAt ≤ σ.now := by
  refine ⟨fun hfirst => (h.rings_iff _).mp hfirst.1, fun hover =>
    ⟨(h.rings_iff _).mpr hover, fun a ha => ?_⟩⟩
  -- the alarm is not due before the limit, and was set after it
  obtain ⟨hdue, hstamp⟩ := h.alarm ha
  have hle : w.limit.due ≤ a.due := by
    rw [h.limit, hdue]
    exact Nat.le_trans hover h.by_next
  rcases Nat.lt_or_eq_of_le hle with hlt | heq
  · simp [Alarm.before, hlt]
  · simp [Alarm.before, heq, Nat.le_of_lt hstamp]

theorem pass (h : Resting c σ k w) (hasleep : w.poller.isDue σ.now = false) {t : Instant}
    (hlimit : t ≤ w.limit.due) (hnext : ∀ a ∈ w.poller.alarm?, t ≤ a.due) :
    Resting c (σ.step (.pass t)) k w := by
  rcases h.poller with ⟨hstarting, -⟩ | ⟨a, hpoller, hdue, hstamp⟩
  · simp [Poller.isDue, hstarting] at hasleep
  · have hnext : t ≤ c.pollAt k := hdue ▸ hnext a (by rw [hpoller]; rfl)
    exact {
      toFits := h.step _
      phase := h.phase
      poller := Or.inr ⟨a, hpoller, hdue, hstamp⟩
      by_next := Nat.max_le.mpr ⟨h.by_next, hnext⟩
      by_limit := Nat.max_le.mpr ⟨h.by_limit, h.limit ▸ hlimit⟩
      undecided := h.undecided }

theorem poll (h : Resting c σ k w) (hdue : w.poller.isDue σ.now) (hbefore : σ.now < c.limitAt) :
    Asking c (σ.step .poll) k w ∧ (σ.act .poll).2 = [.described w.id] := by
  have hnow := h.isDue_iff.mp hdue
  have hact : σ.act .poll = (.waiting ⟨w, true⟩, [.described w.id]) := by
    simp [Session.act, Phase.watch, Watch.poll, h.phase, hdue]
  exact ⟨⟨h.step _, congrArg Prod.fst hact, h.not_ended, hnow, hnow ▸ hbefore, h.undecided⟩,
    congrArg Prod.snd hact⟩

end Resting

namespace Asking

theorem timely (h : Asking c σ k w) : σ.Timely c.answers (.described (c.answers σ.now)) :=
  ⟨rfl, _, Session.mem_watch?_iff.mpr h.phase, rfl⟩

/-- The answer to a question either ends the polling or lets the next question
come an interval later. -/
theorem answered (h : Asking c σ k w) :
    let τ := σ.step (.described (c.answers σ.now))
    ((∃ w, Ended c τ k w) ∨ ∃ w, Resting c τ (k + 1) w) ∧
      (σ.act (.described (c.answers σ.now))).2 = [] := by
  intro τ
  let heard := w.hear σ.now σ.stamp (c.answers σ.now)
  have hact : σ.act (.described (c.answers σ.now)) = (.waiting ⟨heard, false⟩, []) := by
    simp [Session.act, Phase.watch, Watch.hear, h.phase, heard]
  have hphase : τ.phase = .waiting ⟨heard, false⟩ := congrArg Prod.fst hact
  have hfits : Fits c τ heard := ⟨h.id, h.interval, h.limit, Nat.lt_succ_of_lt h.stamp⟩
  refine ⟨?_, congrArg Prod.snd hact⟩
  by_cases hfinal : Final (c.answers (c.pollAt k))
  · refine Or.inl ⟨heard, hfits, hphase, ?_, h.now, h.before, h.undecided, hfinal⟩
    show Poller.hear w.interval σ.now σ.stamp (c.answers σ.now) = _
    rw [h.now, hear_of_final hfinal]
  · have hpoller : heard.poller = .asleep (Alarm.after σ.now c.interval σ.stamp) := by
      show Poller.hear w.interval σ.now σ.stamp (c.answers σ.now) = _
      rw [h.interval, hear_of_not_final (h.now ▸ hfinal)]
    have hnext : (Alarm.after σ.now c.interval σ.stamp).due = c.pollAt (k + 1) := by
      rw [h.now]
      rfl
    refine Or.inr ⟨heard, hfits, hphase, Or.inr ⟨_, hpoller, hnext, h.stamp⟩, ?_, ?_,
      h.undecided.succ h.before hfinal⟩
    · exact h.now ▸ Course.pollAt_le_succ h.before
    · exact h.now ▸ Nat.le_of_lt h.before

end Asking

theorem Stage.waiting (h : Stage c σ n) : ∃ w, σ.phase = .waiting w ∧ Fits c σ w.wait := by
  cases h with
  | resting h => exact ⟨_, h.phase, h.toFits⟩
  | asking h => exact ⟨_, h.phase, h.toFits⟩
  | ended h => exact ⟨_, h.phase, h.toFits⟩

/-- A look before the decision changes nothing. -/
theorem Stage.look (h : Stage c σ n) (hnone : σ.decision? = none) :
    Stage c (σ.step .look) n ∧ (σ.act .look).2 = [] := by
  obtain ⟨w, hphase, -⟩ := h.waiting
  have hact := Session.act_look_of_none hphase hnone
  have hstill : (σ.step .look).phase = σ.phase := (congrArg Prod.fst hact).trans hphase.symm
  refine ⟨?_, congrArg Prod.snd hact⟩
  cases h with
  | resting h => exact .resting { h with toFits := h.step _, phase := hstill.trans h.phase }
  | asking h => exact .asking { h with toFits := h.step _, phase := hstill.trans h.phase }
  | ended h => exact .ended { h with toFits := h.step _, phase := hstill.trans h.phase }

theorem stage_step (h : Stage c σ n) {e : Event C T} (he : σ.Timely c.answers e) :
    Stage c (σ.step e) (n + describes (σ.act e).2) := by
  cases e with
  | submitted | answered | drop | giveBack => exact he.elim
  | look =>
    obtain ⟨hstage, hnotes⟩ := h.look he.1
    rwa [hnotes]
  | pass t =>
    obtain ⟨v, hv, hquiet, hopen, hasleep, hlimit, hnext⟩ := he
    cases h with
    | resting h =>
      obtain rfl := Session.eq_of_mem_watch? h.phase hv
      exact .resting (h.pass hasleep hlimit hnext)
    | asking h =>
      obtain rfl := Session.eq_of_mem_watch? h.phase hv
      cases hquiet
    | ended h =>
      obtain rfl := Session.eq_of_mem_watch? h.phase hv
      simp [settled?, h.poller] at hopen
  | poll =>
    obtain ⟨v, hv, hquiet, hdue, hfirst⟩ := he
    cases h with
    | resting h =>
      obtain rfl := Session.eq_of_mem_watch? h.phase hv
      obtain ⟨hasking, hnotes⟩ := h.poll hdue (Nat.lt_of_not_le (mt h.callerFirst_iff.mpr hfirst))
      rw [hnotes]
      exact .asking hasking
    | asking h =>
      obtain rfl := Session.eq_of_mem_watch? h.phase hv
      cases hquiet
    | ended h =>
      obtain rfl := Session.eq_of_mem_watch? h.phase hv
      simp [Poller.isDue, h.poller] at hdue
  | described a =>
    obtain ⟨rfl, v, hv, hasked⟩ := he
    cases h with
    | resting h =>
      obtain rfl := Session.eq_of_mem_watch? h.phase hv
      cases hasked
    | ended h =>
      obtain rfl := Session.eq_of_mem_watch? h.phase hv
      cases hasked
    | asking h =>
      obtain ⟨hstage, hnotes⟩ := h.answered
      rw [hnotes]
      rcases hstage with ⟨v, hended⟩ | ⟨v, hresting⟩
      · exact .ended hended
      · exact .resting hresting

theorem stage_run (h : Stage c σ n) {es : List (Event C T)} (hes : σ.OnTime c.answers es) :
    Stage c (σ.run es) (n + describes (σ.notes es)) := by
  induction es generalizing σ n with
  | nil => exact h
  | cons e rest ih =>
    have hrest := ih (stage_step h hes.1) hes.2
    rwa [Nat.add_assoc, ← describes_append] at hrest

end

end Waiting

end Fleet
