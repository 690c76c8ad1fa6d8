import Fleet.Proofs.Pool.Sessions

/-!
# Waits give back what they do not return

`Follows` says how the notes of a wait tell of its stage: what has been given
back so far, what was asked and answered, and whether there was an end. It is
kept by every event, so that for every run

* a request that was refused is neither asked for nor given back;
* one that was entered is given back not at all before success, exactly once,
  and answered, before an error, and at least once after the caller went away;
* the status is not asked for after the end

(`failed_or_abandoned_releases`).
-/

namespace Fleet

namespace Waiting

open Wait Dialogue

variable {C T : Type}

/-! ## What the notes tell -/

/-- The request that a note says is being given back. -/
def Note.released? : Note C T → Option String
  | .asked q => q.released?
  | _ => none

/-- What a note says was asked and answered. -/
def Note.exchange? : Note C T → Option (PoolExchange C T)
  | .heard x => some x
  | _ => none

/-- What a note says entering the request was answered. -/
def Note.submitted? : Note C T → Option (Except ProvisionError Snapshot)
  | .submitted a => some a
  | _ => none

/-- How a note says that the wait is over for the caller: with a result, or
because the caller went away. -/
def Note.ending? : Note C T → Option (Option (Result C T))
  | .returned r => some (some r)
  | .dropped => some none
  | _ => none

/-- The requests that are given back, in order. -/
def released (ns : List (Note C T)) : List String := ns.filterMap Note.released?

/-- What is asked and answered, in order. -/
def exchanges (ns : List (Note C T)) : List (PoolExchange C T) :=
  ns.filterMap Note.exchange?

/-- What notes tell of the wait for a request that was entered. -/
structure Tells (s : Snapshot) (ns : List (Note C T)) (givenBack : List String)
    (heard : List (PoolExchange C T)) (endings : List (Option (Result C T))) : Prop where
  submitted : ns.filterMap Note.submitted? = [.ok s]
  released : released ns = givenBack
  exchanges : exchanges ns = heard
  endings : ns.filterMap Note.ending? = endings

/-- How the wait for a request that was entered stands, and what has been seen
of it. -/
inductive Follows (s : Snapshot) : Phase C T → List (Note C T) → Prop
  | waiting {w ns} (hid : w.wait.id = s.id) (h : Tells s ns [] [] []) : Follows s (.waiting w) ns
  | obtaining {t w ns decision heard q next} (hid : w.wait.id = s.id) (h : Tells s ns [] heard [])
      (hsettled : .settled decision ∈ ns) (hverdict : verdict s.id decision = .ok t)
      (hleads : (PoolDialogue.obtain t).Leads heard (.ask q next)) :
      Follows s (.concluding w (.ask q fun a => (next a).bind (afterObtain s.id))) ns
  | releasing {w ns decision heard e} (hid : w.wait.id = s.id) (h : Tells s ns [s.id] heard [])
      (hsettled : .settled decision ∈ ns)
      (hends : Ends (C := C) (T := T) s.id decision heard (.error e)) :
      Follows s (.concluding w (giveBack s.id e)) ns
  | succeeded {ns heard devices} (h : Tells s ns [] heard [some (.ok devices)]) :
      Follows s (.returned (.ok devices)) ns
  | failed {ns decision heard e} (a : Except ProvisionError Unit) (h : Tells s ns [s.id] heard [])
      (hsettled : .settled decision ∈ ns)
      (hends : Ends (C := C) (T := T) s.id decision heard (.error e)) :
      Follows s (.returned (.error e)) (ns ++ [.heard ⟨.release s.id, a⟩, .returned (.error e)])
  | abandoned {ns givenBack heard rest begun} (h : Tells s ns givenBack heard [none])
      (hdue : begun = false ∧ rest = Wait.abandon s.id ∨ s.id ∈ givenBack) :
      Follows s (.abandoned rest begun) ns

/-- How a wait stands and what has been seen of it. -/
inductive Tracks : Phase C T → List (Note C T) → Prop
  | entering : Tracks .entering []
  | refused (e : ProvisionError) :
      Tracks (.returned (.error e)) [.submitted (.error e), .returned (.error e)]
  | withdrawn (begun : Bool) : Tracks (.abandoned (.done ()) begun) [.dropped]
  | entered {s phase ns} (h : Follows s phase ns) : Tracks phase ns

/-! ## Steps -/

section

variable {s t : Snapshot} {w : Watch} {ns more : List (Note C T)} {givenBack : List String}
  {heard : List (PoolExchange C T)} {endings : List (Option (Result C T))}
  {decision : Except ProvisionError Snapshot}

theorem Tells.note (h : Tells s ns givenBack heard endings) {n : Note C T}
    (hn : n.submitted? = none) :
    Tells s (ns ++ [n]) (givenBack ++ n.released?.toList) (heard ++ n.exchange?.toList)
      (endings ++ n.ending?.toList) where
  submitted := by simp [h.submitted, hn]
  released := by cases hr : n.released? <;> simp [← h.released, Waiting.released, hr]
  exchanges := by cases hx : n.exchange? <;> simp [← h.exchanges, Waiting.exchanges, hx]
  endings := by cases he : n.ending? <;> simp [h.endings, he]

theorem Tells.asked (h : Tells s ns givenBack heard endings) (q : PoolCall C T) :
    Tells s (ns ++ [.asked q]) (givenBack ++ q.released?.toList) heard endings := by
  simpa [Note.released?, Note.exchange?, Note.ending?] using h.note (n := .asked q) rfl

theorem Tells.answered (h : Tells s ns givenBack heard endings) (x : PoolExchange C T) :
    Tells s (ns ++ [.heard x]) givenBack (heard ++ [x]) endings := by
  simpa [Note.released?, Note.exchange?, Note.ending?] using h.note (n := .heard x) rfl

theorem Tells.described (h : Tells s ns givenBack heard endings) (id : String) :
    Tells s (ns ++ [.described id]) givenBack heard endings := by
  simpa [Note.released?, Note.exchange?, Note.ending?] using h.note (n := .described id) rfl

theorem Tells.settled (h : Tells s ns givenBack heard endings)
    (answer : Except ProvisionError Snapshot) :
    Tells s (ns ++ [.settled answer]) givenBack heard endings := by
  simpa [Note.released?, Note.exchange?, Note.ending?] using h.note (n := .settled answer) rfl

theorem Tells.returned (h : Tells s ns givenBack heard endings) (r : Result C T) :
    Tells s (ns ++ [.returned r]) givenBack heard (endings ++ [some r]) := by
  simpa [Note.released?, Note.exchange?, Note.ending?] using h.note (n := .returned r) rfl

theorem Tells.dropped (h : Tells s ns givenBack heard endings) :
    Tells s (ns ++ [.dropped]) givenBack heard (endings ++ [none]) := by
  simpa [Note.released?, Note.exchange?, Note.ending?] using h.note (n := .dropped) rfl

/-- The caller has come to a point of obtaining devices. -/
theorem Follows.reach_obtaining (hid : w.wait.id = s.id) (h : Tells s ns [] heard [])
    (hsettled : .settled decision ∈ ns) (hverdict : verdict s.id decision = .ok t)
    {d : PoolDialogue C T (Result C T)} (hleads : (PoolDialogue.obtain t).Leads heard d) :
    Follows s (reach w (d.bind (afterObtain s.id))).1
      (ns ++ (reach w (d.bind (afterObtain s.id))).2) := by
  have hmem {more : List (Note C T)} := List.mem_append_left more hsettled
  cases d with
  | ask q next =>
    -- obtaining gives nothing back, so the next call is not that
    cases (PoolDialogue.obtain_keeps t).leads hleads with
    | ask hq =>
      have h' := h.asked q
      rw [hq] at h'
      exact .obtaining hid h' hmem hverdict hleads
  | done r =>
    cases r with
    | ok devices => exact .succeeded (h.returned (.ok devices))
    | error e => exact .releasing hid (h.asked (.release s.id)) hmem (.obtained hverdict hleads)

/-- The caller begins to conclude. -/
theorem Follows.reach_conclude (hid : w.wait.id = s.id) (h : Tells s ns [] [] [])
    (hsettled : .settled decision ∈ ns) :
    Follows s (reach w (conclude (C := C) (T := T) s.id decision)).1
      (ns ++ (reach w (conclude s.id decision)).2) := by
  cases hverdict : verdict s.id decision with
  | ok t =>
    rw [conclude_of_ok hverdict]
    exact reach_obtaining hid h hsettled hverdict (.here _)
  | error e =>
    rw [conclude_of_error hverdict]
    exact .releasing hid (h.asked (.release s.id)) (List.mem_append_left _ hsettled)
      (.refused hverdict)

/-- Of a call that a dialogue has come to, notes may tell that it gives a
request back. -/
theorem Tells.opened (h : Tells s ns givenBack heard endings) {R : Type}
    (d : PoolDialogue C T R) :
    ∃ more, Tells s (ns ++ opening d) (givenBack ++ more) heard endings := by
  cases d with
  | done r => exact ⟨[], by simpa [opening] using h⟩
  | ask q next => exact ⟨q.released?.toList, h.asked q⟩

/-- What a poller does that keeps to its request and at most asks for the
status. -/
def Discreet (f : Watch → Watch × List (Note C T)) : Prop :=
  ∀ w, (f w).1.wait.id = w.wait.id ∧ ((f w).2 = [] ∨ (f w).2 = [.described w.wait.id])

theorem discreet_poll (now : Instant) : Discreet (C := C) (T := T) fun w => w.poll now := by
  intro w
  simp only [Watch.poll]
  split <;> simp

theorem discreet_hear (now : Instant) (stamp : Nat) (a : Except ProvisionError Snapshot) :
    Discreet (C := C) (T := T) fun w => w.hear now stamp a := by
  intro w
  simp only [Watch.hear]
  split <;> simp [Wait.hear]

theorem Follows.watch {phase : Phase C T} (h : Follows s phase ns)
    {f : Watch → Watch × List (Note C T)} (hf : Discreet f) :
    Follows s (phase.watch f).1 (ns ++ (phase.watch f).2) := by
  have hid {w : Watch} {id : String} (hw : w.wait.id = id) : (f w).1.wait.id = id :=
    (hf w).1.trans hw
  have htells {w : Watch} {givenBack : List String} {heard : List (PoolExchange C T)}
      (h : Tells s ns givenBack heard []) : Tells s (ns ++ (f w).2) givenBack heard [] := by
    rcases (hf w).2 with heq | heq <;> rw [heq]
    · simpa using h
    · exact h.described w.wait.id
  have hidle : Follows s phase (ns ++ []) := by simpa using h
  cases h with
  | waiting hw h => exact .waiting (hid hw) (htells h)
  | obtaining hw h hsettled hverdict hleads =>
    exact .obtaining (hid hw) (htells h) (List.mem_append_left _ hsettled) hverdict hleads
  | releasing hw h hsettled hends =>
    exact .releasing (hid hw) (htells h) (List.mem_append_left _ hsettled) hends
  | succeeded | failed | abandoned => exact hidle

variable {interval limit : Duration} {now : Instant} {stamp : Nat} {phase : Phase C T}

theorem Follows.look (h : Follows s phase ns) :
    let σ : Session C T := ⟨interval, limit, now, stamp, phase⟩
    Follows s (σ.act .look).1 (ns ++ (σ.act .look).2) := by
  have hidle : Follows s phase (ns ++ []) := by simpa using h
  cases h with
  | waiting hid h =>
    simp only [Session.act]
    split
    · exact hidle
    · next decision _ =>
      have hmem : Note.settled decision ∈ ns ++ [.settled decision] := by simp
      have hreach := Follows.reach_conclude hid (h.settled decision) hmem
      rw [hid]
      simpa using hreach
  | _ => exact hidle

theorem Follows.answered (h : Follows s phase ns) (f : (q : PoolCall C T) → q.Answer) :
    let σ : Session C T := ⟨interval, limit, now, stamp, phase⟩
    Follows s (σ.act (.answered f)).1 (ns ++ (σ.act (.answered f)).2) := by
  have hidle : Follows s phase (ns ++ []) := by simpa using h
  cases h with
  | @obtaining _ _ _ _ _ q next hid h hsettled hverdict hleads =>
    have hreach := Follows.reach_obtaining hid (h.answered ⟨q, f q⟩)
      (List.mem_append_left _ hsettled) hverdict (hleads.answered (f q))
    simpa [Session.act] using hreach
  | releasing hid h hsettled hends => exact .failed (f (.release s.id)) h hsettled hends
  | @abandoned _ _ _ rest begun h hdue =>
    cases rest with
    | done => exact hidle
    | ask q next =>
      cases begun with
      | false => exact hidle
      | true =>
        obtain ⟨more, h'⟩ := (h.answered ⟨q, f q⟩).opened (next (f q))
        have hmem := hdue.resolve_left fun hfalse => Bool.noConfusion hfalse.1
        rw [List.append_assoc] at h'
        exact .abandoned h' (.inr (List.mem_append_left more hmem))
  | waiting | succeeded | failed => exact hidle

theorem Follows.drop (h : Follows s phase ns) :
    let σ : Session C T := ⟨interval, limit, now, stamp, phase⟩
    Follows s (σ.act .drop).1 (ns ++ (σ.act .drop).2) := by
  have hidle : Follows s phase (ns ++ []) := by simpa using h
  cases h with
  | waiting hid h | obtaining hid h | releasing hid h =>
    exact .abandoned h.dropped (.inl ⟨rfl, by rw [hid]⟩)
  | succeeded | failed | abandoned => exact hidle

theorem Follows.giveBack (h : Follows s phase ns) :
    let σ : Session C T := ⟨interval, limit, now, stamp, phase⟩
    Follows s (σ.act .giveBack).1 (ns ++ (σ.act .giveBack).2) := by
  have hidle : Follows s phase (ns ++ []) := by simpa using h
  cases h with
  | @abandoned _ _ _ rest begun h hdue =>
    cases begun with
    | true => exact hidle
    | false =>
      rcases hdue with ⟨-, rfl⟩ | hmem
      · exact .abandoned (h.asked (.release s.id)) (.inr (by simp [PoolCall.released?]))
      · obtain ⟨more, h'⟩ := h.opened rest
        exact .abandoned h' (.inr (List.mem_append_left more hmem))
  | _ => exact hidle

theorem Follows.act {σ : Session C T} (h : Follows s σ.phase ns) (e : Event C T) :
    Follows s (σ.act e).1 (ns ++ (σ.act e).2) := by
  have hidle : Follows s σ.phase (ns ++ []) := by simpa using h
  cases e with
  | pass => exact hidle
  | poll => exact h.watch (discreet_poll σ.now)
  | described a => exact h.watch (discreet_hear σ.now σ.stamp a)
  | look => exact h.look
  | answered f => exact h.answered f
  | drop => exact h.drop
  | giveBack => exact h.giveBack
  | submitted a =>
    obtain ⟨interval, limit, now, stamp, phase⟩ := σ
    change Follows s phase ns at h
    cases h <;> exact hidle

theorem Tracks.act {σ : Session C T} (h : Tracks σ.phase ns) (e : Event C T) :
    Tracks (σ.act e).1 (ns ++ (σ.act e).2) := by
  obtain ⟨interval, limit, now, stamp, phase⟩ := σ
  change Tracks phase ns at h
  have hidle : Tracks phase (ns ++ []) := by simpa using h
  cases h with
  | entered h => exact .entered (h.act (σ := ⟨interval, limit, now, stamp, phase⟩) e)
  | refused e' => cases e <;> exact hidle
  | withdrawn begun =>
    cases e with
    | giveBack => cases begun <;> exact .withdrawn true
    | _ => exact hidle
  | entering =>
    cases e with
    | submitted a =>
      cases a with
      | error e => exact .refused e
      | ok s => exact .entered (.waiting (s := s) rfl ⟨rfl, rfl, rfl, rfl⟩)
    | drop => exact .withdrawn false
    | _ => exact hidle

theorem Tracks.run {σ : Session C T} (h : Tracks σ.phase ns) (es : List (Event C T)) :
    Tracks (σ.run es).phase (ns ++ σ.notes es) := by
  induction es generalizing σ ns with
  | nil => simpa [Session.run, Session.notes] using h
  | cons e rest ih =>
    have hrest := ih (σ := σ.step e) (h.act e)
    rwa [List.append_assoc] at hrest

end

/-! ## The end -/

/-- The wait is over for the caller. -/
def Note.IsEnd (n : Note C T) : Prop := n.ending?.isSome

/-- After the end the status is not asked for. -/
def Quiet (ns : List (Note C T)) : Prop :=
  ns.Pairwise fun n m => n.IsEnd → ∀ id, m ≠ .described id

section

variable {ns : List (Note C T)} {σ : Session C T}

theorem Tells.not_isEnd {s : Snapshot} {givenBack : List String}
    {heard : List (PoolExchange C T)} (h : Tells s ns givenBack heard []) {n : Note C T}
    (hn : n ∈ ns) : ¬ n.IsEnd := by
  have hnone := List.filterMap_eq_nil_iff.mp h.endings n hn
  simp [Note.IsEnd, hnone]

/-- Once an end has been seen, the caller is not there any more. -/
theorem Tracks.over (h : Tracks σ.phase ns) {n : Note C T} (hn : n ∈ ns) (hend : n.IsEnd) :
    (∃ r, σ.phase = .returned r) ∨ ∃ rest begun, σ.phase = .abandoned rest begun := by
  generalize σ.phase = phase at h
  cases h with
  | entering => cases hn
  | refused => exact .inl ⟨_, rfl⟩
  | withdrawn => exact .inr ⟨_, _, rfl⟩
  | entered h =>
    cases h with
    | waiting _ h | obtaining _ h | releasing _ h => exact absurd hend (h.not_isEnd hn)
    | succeeded | failed => exact .inl ⟨_, rfl⟩
    | abandoned => exact .inr ⟨_, _, rfl⟩

theorem Quiet.cons {n : Note C T} (h : Quiet ns) (hn : ¬ n.IsEnd) : Quiet (n :: ns) :=
  List.pairwise_cons.mpr ⟨fun _ _ hend => absurd hend hn, h⟩

theorem quiet_reach (w : Watch) (d : PoolDialogue C T (Result C T)) : Quiet (reach w d).2 := by
  cases d <;> exact List.pairwise_singleton ..

theorem quiet_opening {R : Type} (d : PoolDialogue C T R) : Quiet (opening d) := by
  cases d with
  | done r => exact .nil
  | ask q next => exact List.pairwise_singleton ..

theorem quiet_watch (phase : Phase C T) {f : Watch → Watch × List (Note C T)} (hf : Discreet f) :
    Quiet (phase.watch f).2 := by
  have hquiet (w : Watch) : Quiet (f w).2 := by
    rcases (hf w).2 with heq | heq <;> rw [heq]
    · exact .nil
    · exact List.pairwise_singleton ..
  cases phase with
  | waiting w | concluding w => exact hquiet w
  | _ => exact .nil

theorem quiet_act (σ : Session C T) (e : Event C T) : Quiet (σ.act e).2 := by
  have hdropped : Quiet [(.dropped : Note C T)] := List.pairwise_singleton ..
  obtain ⟨interval, limit, now, stamp, phase⟩ := σ
  cases e with
  | poll => exact quiet_watch phase (discreet_poll now)
  | described a => exact quiet_watch phase (discreet_hear now stamp a)
  | pass => exact .nil
  | submitted a =>
    cases phase with
    | entering =>
      cases a with
      | error e =>
        exact Quiet.cons (List.pairwise_singleton ..) (by simp [Note.IsEnd, Note.ending?])
      | ok s => exact List.pairwise_singleton ..
    | _ => exact .nil
  | look =>
    cases phase with
    | waiting w =>
      simp only [Session.act]
      split
      · exact .nil
      · exact (quiet_reach w _).cons (by simp [Note.IsEnd, Note.ending?])
    | _ => exact .nil
  | answered f =>
    simp only [Session.act]
    split
    · exact (quiet_reach _ _).cons (by simp [Note.IsEnd, Note.ending?])
    · exact (quiet_opening _).cons (by simp [Note.IsEnd, Note.ending?])
    · exact .nil
  | drop => cases phase <;> first | exact hdropped | exact .nil
  | giveBack =>
    simp only [Session.act]
    split
    · exact quiet_opening _
    · exact .nil

theorem described_notMem_opening {R : Type} (d : PoolDialogue C T R) (id : String) :
    .described id ∉ opening d := by
  cases d <;> simp [opening]

/-- When the caller is not there any more, the status is not asked for. -/
theorem described_notMem_of_over (hover : (∃ r, σ.phase = .returned r) ∨
      ∃ rest begun, σ.phase = .abandoned rest begun) (e : Event C T) (id : String) :
    .described id ∉ (σ.act e).2 := by
  obtain ⟨interval, limit, now, stamp, phase⟩ := σ
  rcases hover with ⟨r, rfl⟩ | ⟨rest, begun, rfl⟩
  · cases e <;> simp [Session.act, Phase.watch]
  · cases e with
    | answered | giveBack =>
      cases rest <;> cases begun <;> simp [Session.act, described_notMem_opening]
    | _ => simp [Session.act, Phase.watch]

theorem quiet_run (h : Tracks σ.phase ns) (hquiet : Quiet ns) (es : List (Event C T)) :
    Quiet (ns ++ σ.notes es) := by
  induction es generalizing σ ns with
  | nil => simpa [Session.notes] using hquiet
  | cons e rest ih =>
    have hstep : Quiet (ns ++ (σ.act e).2) := by
      refine List.pairwise_append.mpr ⟨hquiet, quiet_act σ e, fun n hn m hm hend id heq => ?_⟩
      exact described_notMem_of_over (h.over hn hend) e id (heq ▸ hm)
    have hrest := ih (σ := σ.step e) (h.act e) hstep
    rwa [List.append_assoc] at hrest

/-- Notes that tell of a request are those of the request that was entered. -/
theorem Tells.eq_of_submitted {s : Snapshot} {givenBack : List String}
    {heard : List (PoolExchange C T)} {endings : List (Option (Result C T))}
    (h : Tells s ns givenBack heard endings)
    {a : Except ProvisionError Snapshot} (ha : .submitted a ∈ ns) : a = .ok s := by
  have hmem : a ∈ ns.filterMap Note.submitted? := List.mem_filterMap.mpr ⟨_, ha, rfl⟩
  rw [h.submitted] at hmem
  exact List.mem_singleton.mp hmem

theorem Follows.eq_of_submitted {s : Snapshot} {phase : Phase C T} (h : Follows s phase ns)
    {a : Except ProvisionError Snapshot} (ha : .submitted a ∈ ns) : a = .ok s := by
  cases h with
  | waiting _ h | obtaining _ h | releasing _ h | succeeded h | abandoned h =>
    exact h.eq_of_submitted ha
  | failed _ h => exact h.eq_of_submitted (by simpa using ha)

theorem Tracks.eq_of_refused {phase : Phase C T} (h : Tracks phase ns) {e : ProvisionError}
    (he : .submitted (.error e) ∈ ns) : ns = [.submitted (.error e), .returned (.error e)] := by
  cases h with
  | entering => cases he
  | refused => simp_all
  | withdrawn => simp at he
  | entered h => cases h.eq_of_submitted he

theorem Tracks.follows {phase : Phase C T} (h : Tracks phase ns) {s : Snapshot}
    (hs : .submitted (.ok s) ∈ ns) : Follows s phase ns := by
  cases h with
  | entering => cases hs
  | refused | withdrawn => simp at hs
  | entered h =>
    obtain rfl := Except.ok.inj (h.eq_of_submitted hs)
    exact h

theorem Tells.ending_mem {s : Snapshot} {givenBack : List String}
    {heard : List (PoolExchange C T)} {endings : List (Option (Result C T))}
    (h : Tells s ns givenBack heard endings)
    {n : Note C T} (hn : n ∈ ns) {r : Option (Result C T)} (hr : n.ending? = some r) :
    r ∈ endings := by
  rw [← h.endings]
  exact List.mem_filterMap.mpr ⟨n, hn, hr⟩

theorem Follows.released_of_ok {s : Snapshot} {phase : Phase C T} (h : Follows s phase ns)
    {devices : List (Device C T)} (hr : .returned (.ok devices) ∈ ns) : released ns = [] := by
  cases h with
  | waiting _ h | obtaining _ h | releasing _ h => exact absurd rfl (h.not_isEnd hr)
  | succeeded h => exact h.released
  | @failed before _ _ _ _ h =>
    have hbefore : Note.returned (.ok devices) ∈ before := by simpa using hr
    exact absurd rfl (h.not_isEnd hbefore)
  | abandoned h => simpa using h.ending_mem hr rfl

theorem Follows.released_of_error {s : Snapshot} {phase : Phase C T} (h : Follows s phase ns)
    {e : ProvisionError} (hr : .returned (.error e) ∈ ns) :
    ∃ before a decision, ns = before ++ [.heard ⟨.release s.id, a⟩, .returned (.error e)] ∧
      released ns = [s.id] ∧ .settled decision ∈ before ∧
      Ends (C := C) (T := T) s.id decision (exchanges before) (.error e) := by
  cases h with
  | waiting _ h | obtaining _ h | releasing _ h => exact absurd rfl (h.not_isEnd hr)
  | succeeded h | abandoned h => simpa using h.ending_mem hr rfl
  | @failed before decision heard e' a h hsettled hends =>
    -- there is no other end before this one
    have heq : e = e' := by
      by_cases hbefore : .returned (.error e) ∈ before
      · exact absurd rfl (h.not_isEnd hbefore)
      · simpa [hbefore] using hr
    subst heq
    have hreleased := ((h.answered ⟨.release s.id, a⟩).returned (.error e)).released
    rw [List.append_assoc] at hreleased
    exact ⟨before, a, decision, rfl, hreleased, hsettled, by rw [h.exchanges]; exact hends⟩

theorem Follows.abandoned_of_dropped {s : Snapshot} {phase : Phase C T} (h : Follows s phase ns)
    (hd : .dropped ∈ ns) : ∃ rest begun, phase = .abandoned rest begun := by
  cases h with
  | waiting _ h | obtaining _ h | releasing _ h => exact absurd rfl (h.not_isEnd hd)
  | succeeded h => simpa using h.ending_mem hd rfl
  | @failed before _ _ _ _ h =>
    have hbefore : Note.dropped ∈ before := by simpa using hd
    exact absurd rfl (h.not_isEnd hbefore)
  | abandoned => exact ⟨_, _, rfl⟩

theorem Follows.mem_released_of_begun {s : Snapshot} {rest : PoolDialogue C T Unit}
    (h : Follows s (.abandoned rest true) ns) : s.id ∈ released ns := by
  cases h with
  | abandoned h hdue =>
    rw [h.released]
    exact hdue.resolve_left fun hfalse => Bool.noConfusion hfalse.1

theorem abandoned_step {rest : PoolDialogue C T Unit} {begun : Bool}
    (h : σ.phase = .abandoned rest begun) (e : Event C T) :
    ∃ rest' begun', (σ.step e).phase = .abandoned rest' begun' ∧
      (begun = true ∨ e = .giveBack → begun' = true) := by
  obtain ⟨interval, limit, now, stamp, phase⟩ := σ
  obtain rfl : phase = .abandoned rest begun := h
  cases e with
  | answered f => cases rest <;> cases begun <;> exact ⟨_, _, rfl, by simp⟩
  | giveBack => cases begun <;> exact ⟨_, _, rfl, by simp⟩
  | _ => exact ⟨_, _, rfl, by simp⟩

/-- Who gives an abandoned request back has begun once it had its turn. -/
theorem abandoned_run {rest : PoolDialogue C T Unit} {begun : Bool}
    (h : σ.phase = .abandoned rest begun) {es : List (Event C T)}
    (hbegun : begun = true ∨ .giveBack ∈ es) :
    ∃ rest, (σ.run es).phase = .abandoned rest true := by
  induction es generalizing σ rest begun with
  | nil =>
    obtain rfl := hbegun.resolve_right List.not_mem_nil
    exact ⟨rest, h⟩
  | cons e more ih =>
    obtain ⟨rest', begun', hstep, hkept⟩ := abandoned_step h e
    refine ih hstep ?_
    rcases hbegun with hbegun | hmem
    · exact .inl (hkept (.inl hbegun))
    · rcases List.mem_cons.mp hmem with heq | hmem
      · exact .inl (hkept (.inr heq.symm))
      · exact .inr hmem

end

/-- A request that was refused is neither asked for nor given back. One that was
entered is given back not at all before success, once before an error, which
waits for the answer but not for what it is, and at least once when the caller
goes away. After the end the status is not asked for. -/
theorem failed_or_abandoned_releases (interval limit : Duration) (now : Instant) (stamp : Nat)
    (es : List (Event C T)) :
    let σ : Session C T := { interval, limit, now, stamp }
    let ns := σ.notes es
    (∀ e, .submitted (.error e) ∈ ns → ns = [.submitted (.error e), .returned (.error e)]) ∧
    (∀ s, .submitted (.ok s) ∈ ns →
      (∀ devices, .returned (.ok devices) ∈ ns → released ns = []) ∧
      (∀ e, .returned (.error e) ∈ ns →
        ∃ before a decision, ns = before ++ [.heard ⟨.release s.id, a⟩, .returned (.error e)] ∧
          released ns = [s.id] ∧ .settled decision ∈ before ∧
          Ends (C := C) (T := T) s.id decision (exchanges before) (.error e)) ∧
      (.dropped ∈ ns → ∀ fs, .giveBack ∈ fs → s.id ∈ released (σ.notes (es ++ fs)))) ∧
    ns.Pairwise fun n m => n.IsEnd → ∀ id, m ≠ .described id := by
  intro σ ns
  have htracks : Tracks (σ.run es).phase ns := Tracks.run (σ := σ) .entering es
  refine ⟨fun e => htracks.eq_of_refused, fun s hs => ?_, quiet_run (σ := σ) .entering .nil es⟩
  have hfollows := htracks.follows hs
  refine ⟨fun devices => hfollows.released_of_ok, fun e => hfollows.released_of_error,
    fun hd fs hfs => ?_⟩
  obtain ⟨rest, begun, hphase⟩ := hfollows.abandoned_of_dropped hd
  obtain ⟨rest', hbegun⟩ := abandoned_run hphase (.inr hfs)
  have hlater := (Tracks.run htracks fs).follows (List.mem_append_left _ hs)
  rw [hbegun] at hlater
  rw [Session.notes_append]
  exact hlater.mem_released_of_begun

/-- A request fails, and giving it back fails too: the caller hears of the first.
A caller who goes away meanwhile has it given back once more. -/
theorem failed_or_abandoned_releases_meanwhile :
    let s : Snapshot := .requested "r"
    let refuse (q : PoolCall Nat Nat) : q.Answer :=
      match q with
      | .exchange _ => .error (.hostNotFound "h")
      | .connect _ | .openTransfer .. => .ok 0
      | .release request => .error (.notFound request)
      | .closeTransfer _ | .closeConnection _ | .closeService | .closeConnections
      | .closeTransfers => .ok ()
    let σ : Session Nat Nat :=
      { interval := .ofMillis 250, limit := .ofMillis 1000, now := 0, stamp := 0 }
    let es : List (Event Nat Nat) :=
      [.submitted (.ok s), .poll, .described (.ok (s.withStatus .failed)), .look]
    let stayed := σ.notes (es ++ [.answered refuse])
    let left := σ.notes (es ++ [.drop])
    (.submitted (.ok s) ∈ stayed ∧ .returned (.error (.failed "r" .failed)) ∈ stayed ∧
      released stayed = ["r"]) ∧
    .submitted (.ok s) ∈ left ∧ .dropped ∈ left ∧
      "r" ∈ released (σ.notes (es ++ [.drop] ++ [.giveBack])) := by
  intro s refuse σ es stayed left
  have hnotes : stayed = [.submitted (.ok s), .described "r",
      .settled (.ok (s.withStatus .failed)), .asked (.release "r"),
      .heard ⟨.release "r", .error (.notFound "r")⟩,
      .returned (.error (.failed "r" .failed))] := rfl
  have hnotes' : left = [.submitted (.ok s), .described "r",
      .settled (.ok (s.withStatus .failed)), .asked (.release "r"), .dropped] := rfl
  have hstayed : .submitted (.ok s) ∈ stayed := by simp [hnotes]
  have hreturned : .returned (.error (.failed "r" .failed)) ∈ stayed := by simp [hnotes]
  have hleft : .submitted (.ok s) ∈ left := by simp [hnotes']
  have hdropped : .dropped ∈ left := by simp [hnotes']
  obtain ⟨-, hentered, -⟩ := failed_or_abandoned_releases (C := Nat) (T := Nat) (.ofMillis 250)
    (.ofMillis 1000) 0 0 (es ++ [.answered refuse])
  obtain ⟨-, hentered', -⟩ := failed_or_abandoned_releases (C := Nat) (T := Nat) (.ofMillis 250)
    (.ofMillis 1000) 0 0 (es ++ [.drop])
  obtain ⟨-, -, -, -, hreleased, -⟩ := (hentered s hstayed).2.1 _ hreturned
  exact ⟨⟨hstayed, hreturned, hreleased⟩, hleft, hdropped,
    (hentered' s hleft).2.2 hdropped [.giveBack] List.mem_cons_self⟩

end Waiting

end Fleet
