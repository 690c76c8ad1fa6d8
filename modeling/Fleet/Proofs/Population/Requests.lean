import Fleet.Proofs.Population.Reconciliation

/-!
# What becomes of requests for growth

A request is queued, or refused by a worker that is gone. From the queue it
leaves at the front, when its pass begins, or with all others, when the worker
stops.

* **order** — the requests queued over a run are those whose pass has begun, in
  the same order, then those discarded, then those that still wait
  (`queued_eq`);
* **one at a time** — the passes begun are those that have ended, in the same
  order, and the one under way if there is one (`begun_eq`);
* **stopping** — only a worker that is gone has turned requests away
  (`gone_of_turned_away`), only one that has been closed is gone (`Sound`), and
  one that has been closed begins no pass (`begun_of_closed`).
-/

namespace Fleet.Growth

/-- Who has asked for the pass under way. -/
def serving? (g : Growth) : Option Asker :=
  match g.phase with
  | .asking asker _ => some asker
  | .idle | .gone => none

/-- A worker has nothing to do, and waits for no page. -/
def AtRest (g : Growth) : Prop := g.isReady = false ∧ g.serving? = none

instance (g : Growth) : Decidable g.AtRest :=
  inferInstanceAs (Decidable (g.isReady = false ∧ g.serving? = none))

/-- A worker stops only when it has been closed, and leaves nobody waiting. -/
def Sound (g : Growth) : Prop := g.phase = .gone → g.closed = true ∧ g.queue = []

variable {g : Growth}

theorem serving?_of_phase {asker : Asker} {p : Pass} (hphase : g.phase = .asking asker p) :
    g.serving? = some asker := by
  unfold serving?
  rw [hphase]

theorem serving?_of_idle (hidle : g.phase = .idle) : g.serving? = none := by
  unfold serving?
  rw [hidle]

theorem serving?_of_gone (hgone : g.phase = .gone) : g.serving? = none := by
  unfold serving?
  rw [hgone]

theorem sound_of_idle (hidle : g.phase = .idle) : g.Sound := fun hgone => by
  rw [hidle] at hgone
  cases hgone

theorem wanted?_eq_none_iff : g.wanted? = none ↔ g.serving? = none := by
  unfold wanted? serving?
  cases g.phase <;> simp

/-- A worker at rest is gone, or its queue is empty and it has not been closed. -/
theorem AtRest.cases (h : g.AtRest) :
    g.phase = .gone ∨ g.phase = .idle ∧ g.queue = [] ∧ g.closed = false := by
  obtain ⟨hready, hserving⟩ := h
  cases hphase : g.phase with
  | idle => exact Or.inr ⟨rfl, by simpa [isReady, hphase, and_comm] using hready⟩
  | asking => rw [serving?_of_phase hphase] at hserving; cases hserving
  | gone => exact Or.inl rfl

theorem request?_eq_none_iff {asker : Asker} : g.request? asker = none ↔ g.phase = .gone := by
  simp [request?, accepts]

/-- What an event can do to a worker: which request it queues, whose pass it
begins, which requests it discards, and whose pass it ends. -/
inductive Turn (g : Growth) :
    Option Asker → Option Asker → List Asker → Option Asker → Growth → Prop
  | rests : Turn g none none [] none g
  | queues {asker} (hhere : g.phase ≠ .gone) :
      Turn g (some asker) none [] none { g with queue := g.queue ++ [asker] }
  | closes : Turn g none none [] none { g with closed := true }
  | begins {asker rest pass} (hidle : g.phase = .idle) (hopen : g.closed = false)
      (hqueue : g.queue = asker :: rest) :
      Turn g none (some asker) [] none { g with phase := .asking asker pass, queue := rest }
  | pages {asker pass pass'} (hphase : g.phase = .asking asker pass) :
      Turn g none none [] none { g with phase := .asking asker pass' }
  | ends {asker pass} (hphase : g.phase = .asking asker pass) :
      Turn g none none [] (some asker) { g with phase := .idle }
  | stops (hidle : g.phase = .idle) (hclosed : g.closed = true) :
      Turn g none none g.queue none { g with phase := .gone, queue := [] }

namespace Turn

variable {queued begun ended : Option Asker} {dropped : List Asker} {g' : Growth}

/-- Requests go from one end of the queue to the other, or off it. -/
theorem queue (h : Turn g queued begun dropped ended g') :
    g.queue ++ queued.toList = begun.toList ++ (dropped ++ g'.queue) := by
  cases h with
  | rests | closes | pages | ends => exact List.append_nil _
  | queues | stops => rfl
  | begins _ _ hqueue => exact (List.append_nil _).trans hqueue

/-- A pass begins when none is under way, and ends before the next one begins. -/
theorem serving (h : Turn g queued begun dropped ended g') :
    g.serving?.toList ++ begun.toList = ended.toList ++ g'.serving?.toList := by
  cases h with
  | rests | queues | closes => exact List.append_nil _
  | begins hidle | stops hidle =>
    rw [serving?_of_idle hidle]
    rfl
  | pages hphase | ends hphase =>
    rw [serving?_of_phase hphase]
    rfl

/-- A worker that is gone stays so, and neither begins, ends nor discards
anything. -/
theorem of_gone (h : Turn g queued begun dropped ended g') (hgone : g.phase = .gone) :
    g'.phase = .gone ∧ begun = none ∧ ended = none ∧ dropped = [] := by
  cases h with
  | rests | closes => exact ⟨hgone, rfl, rfl, rfl⟩
  | queues hhere => exact absurd hgone hhere
  | begins hphase | pages hphase | ends hphase | stops hphase =>
    rw [hgone] at hphase
    cases hphase

/-- A worker discards requests only when it stops. -/
theorem dropped_eq_nil_or_gone (h : Turn g queued begun dropped ended g') :
    dropped = [] ∨ g'.phase = .gone := by
  cases h with
  | rests | queues | closes | begins | pages | ends => exact .inl rfl
  | stops => exact .inr rfl

/-- A worker that has been closed remains so, and begins no pass. -/
theorem of_closed (h : Turn g queued begun dropped ended g') (hclosed : g.closed = true) :
    g'.closed = true ∧ begun = none := by
  cases h with
  | rests | queues | pages | ends | stops => exact ⟨hclosed, rfl⟩
  | closes => exact ⟨rfl, rfl⟩
  | begins _ hopen =>
    rw [hclosed] at hopen
    cases hopen

theorem sound (h : Turn g queued begun dropped ended g') (hg : g.Sound) : g'.Sound := by
  intro hgone
  cases h with
  | rests => exact hg hgone
  | queues hhere => exact absurd hgone hhere
  | closes => exact ⟨rfl, (hg hgone).2⟩
  | begins | pages | ends => cases hgone
  | stops _ hclosed => exact ⟨hclosed, rfl⟩

end Turn

namespace Site

section Gather

variable {α : Type}

/-- What the events of a run bring, one after the other. -/
def gather (f : Site → Event → List α) (σ : Site) : List Event → List α
  | [] => []
  | e :: es => f σ e ++ (σ.step e).gather f es

variable {f : Site → Event → List α}

theorem gather_append (σ : Site) (es fs : List Event) :
    σ.gather f (es ++ fs) = σ.gather f es ++ (σ.run es).gather f fs := by
  induction es generalizing σ with
  | nil => rfl
  | cons e rest ih =>
    show f σ e ++ (σ.step e).gather f (rest ++ fs) = _
    rw [ih, ← List.append_assoc]
    rfl

/-- What is brought only with a request is brought with one of the run's. -/
theorem notMem_gather {f : Site → Event → List Asker} {asker : Asker}
    (hf : ∀ σ e, asker ∈ f σ e → e = .request asker) {σ : Site} {es : List Event}
    (hnot : .request asker ∉ es) : asker ∉ σ.gather f es := by
  induction es generalizing σ with
  | nil => exact List.not_mem_nil
  | cons e rest ih =>
    intro hmem
    rcases List.mem_append.mp hmem with hfirst | hrest
    · exact hnot (hf σ e hfirst ▸ List.mem_cons_self)
    · exact ih (fun hin => hnot (List.mem_cons_of_mem e hin)) hrest

end Gather

variable {σ : Site}

theorem outcomes_cons (e : Event) (es : List Event) :
    σ.outcomes (e :: es) = (σ.outcome? e).toList ++ (σ.step e).outcomes es := rfl

theorem outcomes_eq_gather (es : List Event) :
    σ.outcomes es = σ.gather (fun σ e => (σ.outcome? e).toList) es := by
  induction es generalizing σ with
  | nil => rfl
  | cons e rest ih => exact congrArg _ ih

theorem outcomes_append (es fs : List Event) :
    σ.outcomes (es ++ fs) = σ.outcomes es ++ (σ.run es).outcomes fs := by
  simp only [outcomes_eq_gather, gather_append]

/-! ## What an event does with requests -/

/-- The request that an event queues. -/
def queued? (σ : Site) : Event → Option Asker
  | .request asker => (σ.growth.request? asker).map fun _ => asker
  | .close | .next | .answer _ => none

/-- The request that is refused, because the worker is gone. -/
def refused? (σ : Site) : Event → Option Asker
  | .request asker => if (σ.growth.request? asker).isNone then some asker else none
  | .close | .next | .answer _ => none

/-- The request whose pass an event begins. -/
def begun? (σ : Site) : Event → Option Asker
  | .next => if σ.growth.isReady then (σ.growth.next σ.members).1.serving? else none
  | .request _ | .close | .answer _ => none

/-- The requests that are taken off the queue unserved, because the worker
stops. -/
def dropped (σ : Site) : Event → List Asker
  | .next => if σ.growth.isReady then (σ.growth.next σ.members).2 else []
  | .request _ | .close | .answer _ => []

/-- The requests queued over a run. -/
def queued (σ : Site) (es : List Event) : List Asker :=
  σ.gather (fun σ e => (σ.queued? e).toList) es

/-- The requests refused over a run. -/
def refused (σ : Site) (es : List Event) : List Asker :=
  σ.gather (fun σ e => (σ.refused? e).toList) es

/-- The requests whose passes have begun over a run. -/
def begun (σ : Site) (es : List Event) : List Asker :=
  σ.gather (fun σ e => (σ.begun? e).toList) es

/-- The requests discarded over a run. -/
def discarded (σ : Site) (es : List Event) : List Asker := σ.gather dropped es

theorem queued?_eq_some {e : Event} {asker : Asker} (h : σ.queued? e = some asker) :
    e = .request asker := by
  cases e with
  | request asker' =>
    obtain ⟨_, -, rfl⟩ := Option.map_eq_some_iff.mp h
    rfl
  | close | next | answer => cases h

theorem refused?_eq_some {e : Event} {asker : Asker} (h : σ.refused? e = some asker) :
    e = .request asker ∧ σ.growth.phase = .gone := by
  cases e with
  | request asker' =>
    obtain ⟨hnone, rfl⟩ : (σ.growth.request? asker').isNone = true ∧ asker' = asker := by
      simpa [refused?] using h
    exact ⟨rfl, request?_eq_none_iff.mp (Option.isNone_iff_eq_none.mp hnone)⟩
  | close | next | answer => cases h

/-- An idle worker that has something to do stops, or begins a pass. -/
theorem turn_next (hready : σ.growth.isReady) :
    Turn σ.growth none (σ.growth.next σ.members).1.serving? (σ.growth.next σ.members).2 none
      (σ.growth.next σ.members).1 := by
  obtain ⟨hphase, hwork⟩ := Bool.and_eq_true_iff.mp hready
  have hidle : σ.growth.phase = .idle := by simpa using hphase
  unfold next
  split
  · next hclosed => exact .stops hidle hclosed
  · next hopen =>
    have hopen : σ.growth.closed = false := Bool.eq_false_iff.mpr hopen
    split
    · next hqueue => simp [hopen, hqueue] at hwork
    · next hqueue => exact .begins hidle hopen hqueue

/-- What an event does to the worker. -/
theorem turn (σ : Site) (e : Event) :
    Turn σ.growth (σ.queued? e) (σ.begun? e) (σ.dropped e) ((σ.outcome? e).map Outcome.asker)
      (σ.step e).growth := by
  cases e with
  | request asker =>
    show Turn σ.growth ((σ.growth.request? asker).map fun _ => asker) none [] none
      ((σ.growth.request? asker).getD σ.growth)
    cases hrequest : σ.growth.request? asker with
    | none => exact .rests
    | some g =>
      obtain ⟨haccepts, rfl⟩ : σ.growth.accepts = true ∧ _ = g := by
        simpa [request?] using hrequest
      exact .queues (by simpa [accepts] using haccepts)
  | close => exact .closes
  | next =>
    show Turn σ.growth none (if _ then _ else _) (if _ then _ else _) none
      (if σ.growth.isReady then (σ.growth.next σ.members).1 else σ.growth)
    by_cases hready : σ.growth.isReady
    · rw [if_pos hready, if_pos hready, if_pos hready]
      exact turn_next hready
    · rw [if_neg hready, if_neg hready, if_neg hready]
      exact .rests
  | answer a =>
    show Turn σ.growth none none [] ((σ.growth.receive σ.members a).2.2.2.map _)
      (σ.growth.receive σ.members a).1
    unfold receive
    split
    · next hphase =>
      split
      · exact .ends hphase
      · split
        · exact .pages hphase
        · exact .ends hphase
    · exact .rests

/-- A worker turns requests away only when it stops or is gone. -/
theorem turned_away_eq_nil_or_gone (σ : Site) (e : Event) :
    σ.dropped e = [] ∧ σ.refused? e = none ∨ (σ.step e).growth.phase = .gone := by
  cases hrefused : σ.refused? e with
  | none => exact (σ.turn e).dropped_eq_nil_or_gone.imp_left fun hnil => ⟨hnil, rfl⟩
  | some asker => exact .inr ((σ.turn e).of_gone (refused?_eq_some hrefused).2).1

/-! ## Runs -/

theorem gone_run (hgone : σ.growth.phase = .gone) (es : List Event) :
    (σ.run es).growth.phase = .gone ∧ σ.begun es = [] ∧ σ.outcomes es = [] ∧
      σ.discarded es = [] := by
  induction es generalizing σ with
  | nil => exact ⟨hgone, rfl, rfl, rfl⟩
  | cons e rest ih =>
    obtain ⟨hstep, hbegun, hended, hdropped⟩ := (σ.turn e).of_gone hgone
    have houtcome : σ.outcome? e = none := Option.map_eq_none_iff.mp hended
    obtain ⟨hrun, hbegins, hends, hdrops⟩ := ih hstep
    refine ⟨hrun, ?_, ?_, ?_⟩
    · show (σ.begun? e).toList ++ (σ.step e).begun rest = []
      rw [hbegun, hbegins]
      rfl
    · show (σ.outcome? e).toList ++ (σ.step e).outcomes rest = []
      rw [houtcome, hends]
      rfl
    · show σ.dropped e ++ (σ.step e).discarded rest = []
      rw [hdropped, hdrops]
      rfl

theorem closed_run (hclosed : σ.growth.closed = true) (es : List Event) :
    (σ.run es).growth.closed = true := by
  induction es generalizing σ with
  | nil => exact hclosed
  | cons e rest ih => exact ih ((σ.turn e).of_closed hclosed).1

theorem sound_run (hσ : σ.growth.Sound) (es : List Event) : (σ.run es).growth.Sound := by
  induction es generalizing σ with
  | nil => exact hσ
  | cons e rest ih => exact ih ((σ.turn e).sound hσ)

theorem begun_of_closed (hclosed : σ.growth.closed = true) (es : List Event) : σ.begun es = [] := by
  induction es generalizing σ with
  | nil => rfl
  | cons e rest ih =>
    show (σ.begun? e).toList ++ (σ.step e).begun rest = []
    obtain ⟨hstep, hnone⟩ := (σ.turn e).of_closed hclosed
    rw [hnone, ih hstep]
    rfl

/-- Requests are taken up in the order in which they were queued, and those that
are not taken up are discarded or still wait. -/
theorem queued_eq (σ : Site) (es : List Event) :
    σ.growth.queue ++ σ.queued es =
      σ.begun es ++ (σ.discarded es ++ (σ.run es).growth.queue) := by
  induction es generalizing σ with
  | nil => exact List.append_nil _
  | cons e rest ih =>
    -- once requests have been discarded, none is taken up
    have hcomm : σ.dropped e ++ (σ.step e).begun rest = (σ.step e).begun rest ++ σ.dropped e := by
      rcases (σ.turn e).dropped_eq_nil_or_gone with hnil | hgone
      · rw [hnil, List.append_nil, List.nil_append]
      · rw [(gone_run hgone rest).2.1, List.append_nil, List.nil_append]
    calc σ.growth.queue ++ ((σ.queued? e).toList ++ (σ.step e).queued rest)
        = (σ.begun? e).toList ++ (σ.dropped e ++
            ((σ.step e).growth.queue ++ (σ.step e).queued rest)) := by
          rw [← List.append_assoc, (σ.turn e).queue, List.append_assoc, List.append_assoc]
      _ = (σ.begun? e).toList ++ (σ.dropped e ++ ((σ.step e).begun rest ++
            ((σ.step e).discarded rest ++ ((σ.step e).run rest).growth.queue))) := by rw [ih]
      _ = ((σ.begun? e).toList ++ (σ.step e).begun rest) ++
            ((σ.dropped e ++ (σ.step e).discarded rest) ++
              ((σ.step e).run rest).growth.queue) := by
          rw [← List.append_assoc (σ.dropped e), hcomm]
          simp only [List.append_assoc]

/-- The passes that have begun have ended, one after the other, up to the one
under way. -/
theorem begun_eq (σ : Site) (es : List Event) :
    σ.growth.serving?.toList ++ σ.begun es =
      (σ.outcomes es).map Outcome.asker ++ (σ.run es).growth.serving?.toList := by
  induction es generalizing σ with
  | nil => exact List.append_nil _
  | cons e rest ih =>
    calc σ.growth.serving?.toList ++ ((σ.begun? e).toList ++ (σ.step e).begun rest)
        = ((σ.outcome? e).map Outcome.asker).toList ++
            ((σ.step e).growth.serving?.toList ++ (σ.step e).begun rest) := by
          rw [← List.append_assoc, (σ.turn e).serving, List.append_assoc]
      _ = ((σ.outcome? e).map Outcome.asker).toList ++
            (((σ.step e).outcomes rest).map Outcome.asker ++
              ((σ.step e).run rest).growth.serving?.toList) := by rw [ih]
      _ = (σ.outcomes (e :: rest)).map Outcome.asker ++
            ((σ.step e).run rest).growth.serving?.toList := by
          rw [outcomes_cons, List.map_append, Option.toList_map, List.append_assoc]

/-- A worker that has not gone has turned nobody away. -/
theorem gone_of_turned_away {es : List Event} (haway : σ.discarded es ≠ [] ∨ σ.refused es ≠ []) :
    (σ.run es).growth.phase = .gone := by
  induction es generalizing σ with
  | nil => exact absurd rfl (haway.elim id id)
  | cons e rest ih =>
    rcases σ.turned_away_eq_nil_or_gone e with ⟨hdropped, hrefused⟩ | hgone
    · refine ih (haway.imp (fun hne hnil => hne ?_) fun hne hnil => hne ?_)
      · show σ.dropped e ++ (σ.step e).discarded rest = []
        rw [hdropped, hnil]
        rfl
      · show (σ.refused? e).toList ++ (σ.step e).refused rest = []
        rw [hrefused, hnil]
        rfl
    · exact (gone_run hgone rest).1

end Site

end Fleet.Growth
