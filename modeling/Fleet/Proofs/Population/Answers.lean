import Fleet.Proofs.Population.Requests

/-!
# Answers to those who ask for growth

The `i`-th request that is queued is served by the `i`-th pass, which ends before
the next one begins, and its caller is answered with the outcome of that pass and
with nothing else (`InOrder`). A pass that fails does not keep the worker from
the next one.

After closing, the pass under way goes on to its end; no other one begins, and no
page is asked for when it is over (`WindsDown`). Whoever else waits, or asks
later, is answered that the worker has stopped.
-/

namespace Fleet.Growth.Site

variable {σ : Site}

/-- What is answered with an event: how the pass went that it ends, and that the
worker has stopped to those whom it turns away. -/
def answered (σ : Site) (e : Event) : List Outcome :=
  (σ.outcome? e).toList ++
    (σ.dropped e ++ (σ.refused? e).toList).map (⟨·, .error .workerStopped⟩)

/-- What a caller is answered over a run. -/
def told (σ : Site) (n : Nat) (es : List Event) : List (Except PopulationError PassSummary) :=
  ((σ.gather answered es).filter fun o => o.asker = some n).map Outcome.result

/-- The answer to the request that is queued as the `i`-th: the outcome of the
`i`-th pass, or that the worker has stopped before it came to that pass. -/
def answerTo? (σ : Site) (es : List Event) (i : Nat) :
    Option (Except PopulationError PassSummary) :=
  match (σ.outcomes es)[i]? with
  | some o => some o.result
  | none => if (σ.run es).growth.phase = .gone then some (.error .workerStopped) else none

/-- Outcomes are answered before anybody is turned away. -/
theorem gather_answered (σ : Site) (es : List Event) :
    σ.gather answered es =
      σ.outcomes es ++ (σ.discarded es ++ σ.refused es).map (⟨·, .error .workerStopped⟩) := by
  induction es generalizing σ with
  | nil => rfl
  | cons e rest ih =>
    show σ.answered e ++ (σ.step e).gather answered rest = ((σ.outcome? e).toList ++ _) ++
      ((σ.dropped e ++ (σ.step e).discarded rest) ++
        ((σ.refused? e).toList ++ (σ.step e).refused rest)).map _
    rw [ih, answered]
    rcases σ.turned_away_eq_nil_or_gone e with ⟨hdropped, hrefused⟩ | hgone
    · simp [hdropped, hrefused]
    · obtain ⟨-, -, houtcomes, hdiscarded⟩ := gone_run hgone rest
      simp [houtcomes, hdiscarded]

/-! ## One caller -/

theorem filter_asker_of_notMem {passes : List Outcome} {asker : Asker}
    (hnot : asker ∉ passes.map Outcome.asker) : passes.filter (fun o => o.asker = asker) = [] :=
  List.filter_eq_nil_iff.mpr fun _ ho heq =>
    hnot (of_decide_eq_true heq ▸ List.mem_map_of_mem ho)

theorem filter_eq_of_notMem {askers : List Asker} {asker : Asker} (hnot : asker ∉ askers) :
    askers.filter (fun a => a = asker) = [] :=
  List.filter_eq_nil_iff.mpr fun _ ha heq => hnot (of_decide_eq_true heq ▸ ha)

/-- The requests of passes and some others, in which one request occurs once: it
has the pass at its place, or it is one of the others. -/
theorem filter_of_unique {passes : List Outcome} {others first later : List Asker} {asker : Asker}
    (h : passes.map Outcome.asker ++ others = first ++ asker :: later) (hfirst : asker ∉ first)
    (hlater : asker ∉ later) :
    passes.filter (fun o => o.asker = asker) = passes[first.length]?.toList ∧
      others.filter (fun a => a = asker) =
        if passes.length ≤ first.length then [asker] else [] := by
  induction first generalizing passes with
  | nil =>
    cases passes with
    | nil =>
      obtain rfl : others = asker :: later := h
      simp [filter_eq_of_notMem hlater]
    | cons o rest =>
      obtain ⟨hasker, hrest⟩ := List.cons.inj h
      obtain ⟨hpasses, hothers⟩ := not_or.mp (mt List.mem_append.mpr (hrest ▸ hlater))
      simp [hasker, filter_asker_of_notMem hpasses, filter_eq_of_notMem hothers]
  | cons a first ih =>
    obtain ⟨hne, hfirst⟩ := not_or.mp (mt List.mem_cons.mpr hfirst)
    cases passes with
    | nil =>
      obtain rfl : others = a :: (first ++ asker :: later) := h
      simp [Ne.symm hne, List.filter_append, filter_eq_of_notMem hfirst,
        filter_eq_of_notMem hlater]
    | cons o rest =>
      obtain ⟨hasker, hrest⟩ := List.cons.inj h
      obtain ⟨hpasses, hothers⟩ := ih hrest hfirst
      have hother : o.asker ≠ asker := fun heq => hne (heq.symm.trans hasker)
      simp [hother, hpasses, hothers]

/-- What a caller is told comes from the passes and from those turned away. -/
theorem told_eq (σ : Site) (n : Nat) (es : List Event) :
    σ.told n es = ((σ.outcomes es).filter fun o => o.asker = some n).map Outcome.result ++
      ((σ.discarded es).filter (fun a => a = some n) ++
        (σ.refused es).filter (fun a => a = some n)).map fun _ => .error .workerStopped := by
  unfold told
  rw [gather_answered, List.filter_append, List.map_append, List.filter_map, List.map_map,
    List.filter_append]
  rfl

theorem queued_split (σ : Site) (before : List Event) (asker : Asker) (after : List Event) :
    σ.queued (before ++ .request asker :: after) =
      σ.queued before ++ ((((σ.run before).growth.request? asker).map fun _ => asker).toList ++
        ((σ.run before).step (.request asker)).queued after) :=
  gather_append σ before (.request asker :: after)

theorem refused_split (σ : Site) (before : List Event) (asker : Asker) (after : List Event) :
    σ.refused (before ++ .request asker :: after) =
      σ.refused before ++ (((σ.run before).refused? (.request asker)).toList ++
        ((σ.run before).step (.request asker)).refused after) :=
  gather_append σ before (.request asker :: after)

theorem notMem_queued {asker : Asker} {es : List Event} (hnot : .request asker ∉ es) :
    asker ∉ σ.queued es :=
  notMem_gather (fun _ _ h => queued?_eq_some (Option.mem_toList.mp h)) hnot

theorem notMem_refused {asker : Asker} {es : List Event} (hnot : .request asker ∉ es) :
    asker ∉ σ.refused es :=
  notMem_gather (fun _ _ h => (refused?_eq_some (Option.mem_toList.mp h)).1) hnot

/-- The requests queued by an idle worker's run are those of the passes that have
ended, of the one under way, those discarded and those that wait. -/
theorem queued_of_idle (hidle : σ.growth.phase = .idle) (hqueue : σ.growth.queue = [])
    (es : List Event) :
    σ.queued es = (σ.outcomes es).map Outcome.asker ++
      ((σ.run es).growth.serving?.toList ++ (σ.discarded es ++ (σ.run es).growth.queue)) := by
  have hbegun := σ.begun_eq es
  have hqueued := σ.queued_eq es
  rw [serving?_of_idle hidle, Option.toList_none, List.nil_append] at hbegun
  rw [hqueue, List.nil_append, hbegun, List.append_assoc] at hqueued
  exact hqueued

/-- A request that comes when the worker is gone is refused, whatever happens
otherwise. -/
theorem told_of_refused (hidle : σ.growth.phase = .idle) (hqueue : σ.growth.queue = []) {n : Nat}
    {first later : List Event} (hfirst : .request (some n) ∉ first)
    (hlater : .request (some n) ∉ later) (hgone : (σ.run first).growth.phase = .gone) :
    σ.told n (first ++ .request (some n) :: later) = [.error .workerStopped] := by
  have hrequest : (σ.run first).growth.request? (some n) = none :=
    request?_eq_none_iff.mpr hgone
  have hqueued : some n ∉ σ.queued (first ++ .request (some n) :: later) := by
    rw [queued_split, hrequest]
    simpa using ⟨notMem_queued hfirst, notMem_queued hlater⟩
  rw [queued_of_idle hidle hqueue] at hqueued
  simp only [List.mem_append, not_or] at hqueued
  obtain ⟨hpasses, -, hdiscarded, -⟩ := hqueued
  have hrefused : (σ.run first).refused? (.request (some n)) = some (some n) := by
    simp [refused?, hrequest]
  rw [told_eq, filter_asker_of_notMem hpasses, filter_eq_of_notMem hdiscarded, refused_split,
    hrefused]
  simp [List.filter_append, filter_eq_of_notMem (notMem_refused hfirst),
    filter_eq_of_notMem (notMem_refused hlater)]

/-- A caller whose request is queued is told what the pass at its place comes
to. -/
theorem told_of_queued (hidle : σ.growth.phase = .idle) (hqueue : σ.growth.queue = []) {n : Nat}
    {first later : List Event} (hfirst : .request (some n) ∉ first)
    (hlater : .request (some n) ∉ later) (hhere : (σ.run first).growth.phase ≠ .gone) :
    σ.told n (first ++ .request (some n) :: later) =
      (σ.answerTo? (first ++ .request (some n) :: later) (σ.queued first).length).toList := by
  generalize hes : first ++ .request (some n) :: later = es
  obtain ⟨g, hrequest⟩ := Option.ne_none_iff_exists'.mp (mt request?_eq_none_iff.mp hhere)
  have hqueued : σ.queued es = σ.queued first ++
      some n :: ((σ.run first).step (.request (some n))).queued later := by
    rw [← hes, queued_split, hrequest]
    rfl
  have hrefused : some n ∉ σ.refused es := by
    rw [← hes, refused_split]
    simpa [refused?, hrequest] using ⟨notMem_refused hfirst, notMem_refused hlater⟩
  rw [queued_of_idle hidle hqueue] at hqueued
  obtain ⟨hpasses, hothers⟩ :=
    filter_of_unique hqueued (notMem_queued hfirst) (notMem_queued hlater)
  rw [told_eq, hpasses, filter_eq_of_notMem hrefused, List.append_nil]
  -- nobody is discarded before the worker is gone, and then nobody waits any more
  have hdiscarded : (σ.discarded es).filter (fun a => a = some n) =
      if (σ.run es).growth.phase = .gone ∧ (σ.outcomes es).length ≤ (σ.queued first).length
      then [some n] else [] := by
    by_cases hgone : (σ.run es).growth.phase = .gone
    · rw [serving?_of_gone hgone, (sound_run (sound_of_idle hidle) es hgone).2, List.append_nil]
        at hothers
      simpa [hgone] using hothers
    · have hnil : σ.discarded es = [] :=
        Classical.byContradiction fun hne => hgone (gone_of_turned_away (Or.inl hne))
      simp [hgone, hnil]
  unfold answerTo?
  cases hpass : (σ.outcomes es)[(σ.queued first).length]? with
  | some o =>
    have hlt := (List.getElem?_eq_some_iff.mp hpass).1
    rw [hdiscarded, if_neg fun h => Nat.not_le_of_lt hlt h.2]
    rfl
  | none =>
    have hle := List.getElem?_eq_none_iff.mp hpass
    by_cases hgone : (σ.run es).growth.phase = .gone <;> simp [hdiscarded, hgone, hle]

/-! ## The pass of one request -/

theorem EndsWith.outcomes {es : List Event} {o : Outcome} (hend : σ.EndsWith es o) :
    σ.outcomes es = [o] := by
  induction hend with
  | last hlast =>
    rw [outcomes_cons, hlast]
    rfl
  | more hnone _ ih =>
    rw [outcomes_cons, hnone, ih]
    rfl

/-- A run over which a pass ends has a first part that ends with the first. -/
theorem exists_endsWith {es : List Event} {o : Outcome} {rest : List Outcome}
    (h : σ.outcomes es = o :: rest) :
    ∃ own later, es = own ++ later ∧ σ.EndsWith own o ∧ (σ.run own).outcomes later = rest := by
  induction es generalizing σ with
  | nil => cases h
  | cons e es ih =>
    rw [outcomes_cons] at h
    cases hend : σ.outcome? e with
    | some first =>
      rw [hend] at h
      obtain ⟨rfl, hrest⟩ := List.cons.inj h
      exact ⟨[e], es, rfl, .last hend, hrest⟩
    | none =>
      rw [hend] at h
      obtain ⟨own, later, rfl, hown, hrest⟩ := ih h
      exact ⟨e :: own, later, rfl, .more hend hown, hrest⟩

/-- Events over which one pass begins, is all that the worker does, and ends. -/
structure OwnPass (σ : Site) (own : List Event) (o : Outcome) : Prop where
  idle : σ.growth.phase = .idle
  begun : σ.begun own = [o.asker]
  ends : σ.EndsWith own o
  completed : ∀ s, o.result = .ok s →
    Reconciled σ.members σ.growth.leaseSize (σ.pages own) (σ.asked own) (σ.changes own) s
      (σ.run own).members.hosts
  failed : ∀ reason, o.result = .error reason →
    own.getLast? = some (.answer (.error reason)) ∧
      BrokenOff σ.members σ.growth.leaseSize (σ.pages own) (σ.asked own) (σ.changes own)
        (σ.run own).members.hosts
  serves : (σ.run own).Serves

theorem EndsWith.ownPass {own : List Event} {o : Outcome} (hend : σ.EndsWith own o)
    (hidle : σ.growth.phase = .idle) : σ.OwnPass own o where
  idle := hidle
  begun := by
    have hbegun := σ.begun_eq own
    rwa [serving?_of_idle hidle, serving?_of_idle (hend.idle hidle), hend.outcomes,
      Option.toList_none, List.nil_append, List.append_nil] at hbegun
  ends := hend
  completed s hs := by
    obtain ⟨asker, result⟩ := o
    obtain rfl : result = .ok s := hs
    exact hend.reconciled hidle
  failed reason hreason := by
    refine ⟨hend.getLast?_of_error hreason, ?_⟩
    obtain ⟨asker, result⟩ := o
    obtain rfl : result = .error reason := hreason
    exact hend.brokenOff hidle
  serves := serves_of_idle (hend.idle hidle)

/-- Each outcome is that of a pass of its own, and so many passes have ended
before it as come before it. -/
theorem exists_ownPass (hidle : σ.growth.phase = .idle) {es : List Event} {i : Nat} {o : Outcome}
    (h : (σ.outcomes es)[i]? = some o) :
    ∃ before own after, es = before ++ (own ++ after) ∧ (σ.outcomes before).length = i ∧
      (σ.run before).OwnPass own o := by
  induction i generalizing σ es with
  | zero =>
    obtain ⟨rest, hrest⟩ : ∃ rest, σ.outcomes es = o :: rest := by
      cases hes : σ.outcomes es with
      | nil => simp [hes] at h
      | cons first rest => exact ⟨rest, by simpa [hes] using h⟩
    obtain ⟨own, later, rfl, hown, -⟩ := exists_endsWith hrest
    exact ⟨[], own, later, rfl, rfl, hown.ownPass hidle⟩
  | succ i ih =>
    obtain ⟨first, rest, hrest⟩ : ∃ first rest, σ.outcomes es = first :: rest := by
      cases hes : σ.outcomes es with
      | nil => simp [hes] at h
      | cons first rest => exact ⟨first, rest, rfl⟩
    obtain ⟨own, later, rfl, hown, hlater⟩ := exists_endsWith hrest
    rw [hrest, List.getElem?_cons_succ, ← hlater] at h
    obtain ⟨before, own', after, rfl, hlength, hpass⟩ := ih (hown.idle hidle) h
    refine ⟨own ++ before, own', after, (List.append_assoc ..).symm, ?_, ?_⟩
    · rw [outcomes_append, hown.outcomes, List.length_append, hlength, Nat.add_comm]
      rfl
    · rwa [run_append]

/-! ## Closing -/

/-- A closed worker without a pass under way asks for no page any more. -/
theorem asked_of_closed (hclosed : σ.growth.closed = true) (hserving : σ.growth.serving? = none)
    (es : List Event) : σ.asked es = [] := by
  induction es generalizing σ with
  | nil => rfl
  | cons e rest ih =>
    have hstep : (σ.step e).growth.serving? = none := by
      have hpasses := (σ.turn e).serving
      rw [hserving, ((σ.turn e).of_closed hclosed).2] at hpasses
      exact Option.toList_eq_nil_iff.mp (List.append_eq_nil_iff.mp hpasses.symm).2
    have hasked : σ.asked? e = none := by
      cases e with
      | request | close => rfl
      | next =>
        by_cases hready : σ.growth.isReady
        · rw [asked?, if_pos hready]
          exact wanted?_eq_none_iff.mpr hstep
        · exact if_neg hready
      | answer a => exact wanted?_eq_none_iff.mpr hstep
    show (σ.asked? e).toList ++ (σ.step e).asked rest = []
    rw [hasked, ih ((σ.turn e).of_closed hclosed).1 hstep]
    rfl

/-- What a closed worker does over some events: it goes on with the pass under
way, and with nothing else. -/
structure WindsDown (σ : Site) (after : List Event) : Prop where
  begun : σ.begun after = []
  -- the pass under way has ended, and has been answered, or is under way still
  underway : σ.growth.serving?.toList =
    (σ.outcomes after).map Outcome.asker ++ (σ.run after).growth.serving?.toList
  -- when it is over, no page is asked for
  quiet : ∀ first rest, after = first ++ rest → (σ.run first).growth.serving? = none →
    (σ.run first).asked rest = []
  -- whoever is queued waits until the worker stops, and is turned away then
  others : σ.growth.queue ++ σ.queued after = σ.discarded after ++ (σ.run after).growth.queue
  stops : (σ.run after).growth.serving? = none → ((σ.run after).step .next).growth.phase = .gone

/-- The next turn of a closed worker without a pass under way is its last. -/
theorem gone_of_closed (hclosed : σ.growth.closed = true) (hserving : σ.growth.serving? = none) :
    (σ.step .next).growth.phase = .gone := by
  cases hphase : σ.growth.phase with
  | idle =>
    have hready : σ.growth.isReady := by simp [isReady, hphase, hclosed]
    show (if σ.growth.isReady then (σ.growth.next σ.members).1 else σ.growth).phase = _
    rw [if_pos hready, next, if_pos hclosed]
  | asking =>
    rw [serving?_of_phase hphase] at hserving
    cases hserving
  | gone => exact ((σ.turn .next).of_gone hphase).1

theorem windsDown_of_closed (hclosed : σ.growth.closed = true) (after : List Event) :
    σ.WindsDown after where
  begun := begun_of_closed hclosed after
  underway := by
    have hbegun := σ.begun_eq after
    rwa [begun_of_closed hclosed, List.append_nil] at hbegun
  quiet first rest _ hserving := asked_of_closed (closed_run hclosed first) hserving rest
  others := by
    rw [queued_eq, begun_of_closed hclosed, List.nil_append]
  stops hserving := gone_of_closed (closed_run hclosed after) hserving

/-- A run in which the requests are served in order, by one pass each. -/
structure InOrder (σ : Site) (es : List Event) : Prop where
  -- the requests queued are those whose pass has begun, then those discarded, then those that wait
  queued : σ.queued es = σ.begun es ++ (σ.discarded es ++ (σ.run es).growth.queue)
  -- at any time the passes begun have ended, up to the one under way
  begun : ∀ before after, es = before ++ after →
    σ.begun before =
      (σ.outcomes before).map Outcome.asker ++ (σ.run before).growth.serving?.toList
  -- the pass at a place is that of the request at this place, and runs by itself
  passes : ∀ i o, (σ.outcomes es)[i]? = some o → (σ.queued es)[i]? = some o.asker ∧
    ∃ before own after, es = before ++ (own ++ after) ∧ (σ.outcomes before).length = i ∧
      (σ.run before).OwnPass own o
  -- a caller is told the outcome of its pass, and nothing else
  told : ∀ first n later, es = first ++ .request (some n) :: later →
    .request (some n) ∉ first → .request (some n) ∉ later →
    σ.told n es = if (σ.run first).growth.phase = .gone then [.error .workerStopped]
      else (σ.answerTo? es (σ.queued first).length).toList
  answers : (σ.run es).growth.AtRest → ∀ i < (σ.queued es).length, (σ.answerTo? es i).isSome
  turnsAway : σ.discarded es ≠ [] ∨ σ.refused es ≠ [] → (σ.run es).growth.closed = true

theorem isSome_answerTo? {es : List Event} {i : Nat}
    (h : i < (σ.outcomes es).length ∨ (σ.run es).growth.phase = .gone) :
    (σ.answerTo? es i).isSome := by
  unfold answerTo?
  cases hpass : (σ.outcomes es)[i]? with
  | some o => rfl
  | none =>
    have hgone := h.resolve_left (Nat.not_lt_of_le (List.getElem?_eq_none_iff.mp hpass))
    simp [hgone]

theorem inOrder (hidle : σ.growth.phase = .idle) (hqueue : σ.growth.queue = [])
    (es : List Event) : σ.InOrder es where
  queued := by
    have hqueued := σ.queued_eq es
    rwa [hqueue, List.nil_append] at hqueued
  begun before _ _ := by
    have hbegun := σ.begun_eq before
    rwa [serving?_of_idle hidle, Option.toList_none, List.nil_append] at hbegun
  passes i o ho := by
    refine ⟨?_, exists_ownPass hidle ho⟩
    obtain ⟨hlt, heq⟩ := List.getElem?_eq_some_iff.mp ho
    rw [queued_of_idle hidle hqueue, List.getElem?_append_left (by simpa using hlt),
      List.getElem?_map, ho]
    rfl
  told first n later hes hfirst hlater := by
    subst hes
    split
    · next hgone => exact told_of_refused hidle hqueue hfirst hlater hgone
    · next hhere => exact told_of_queued hidle hqueue hfirst hlater hhere
  answers hrest i hi := by
    refine isSome_answerTo? (hrest.cases.symm.imp_left fun ⟨hstill, hnobody, hopen⟩ => ?_)
    -- nobody is under way, discarded or waiting
    have hdiscarded : σ.discarded es = [] := by
      refine Classical.byContradiction fun hne => ?_
      rw [gone_of_turned_away (Or.inl hne)] at hstill
      cases hstill
    rwa [queued_of_idle hidle hqueue, serving?_of_idle hstill, hdiscarded, hnobody,
      Option.toList_none, List.append_nil, List.append_nil, List.append_nil, List.length_map] at hi
  turnsAway haway := (sound_run (sound_of_idle hidle) es (gone_of_turned_away haway)).1

/-- **One pass for each request.** Take any run of an expanding population in which
growth is requested, the population is closed and the directory answers, or
fails to, at any times. The requests are served in order, by one pass each, and
each caller is answered with the outcome of the pass of its own. When the
population has been closed, the pass under way is the last one: once the worker is
at rest, it has ended and been answered, and whoever else is queued has been told
that the worker has stopped. -/
theorem one_pass_for_each_request (hidle : σ.growth.phase = .idle) (hqueue : σ.growth.queue = [])
    (es : List Event) :
    σ.InOrder es ∧
    ∀ before after, es = before ++ .close :: after →
      ((σ.run before).step .close).WindsDown after ∧
      ((σ.run es).growth.AtRest →
        (∀ i < (σ.begun before).length, ∃ o, (σ.outcomes es)[i]? = some o) ∧
        ∀ i, (σ.begun before).length ≤ i → σ.answerTo? es i = some (.error .workerStopped)) := by
  refine ⟨inOrder hidle hqueue es, fun before after hes => ?_⟩
  have hclosed : ((σ.run before).step .close).growth.closed = true := rfl
  refine ⟨windsDown_of_closed hclosed after, fun hrest => ?_⟩
  have hrun : σ.run es = ((σ.run before).step .close).run after := by
    rw [hes, run_append]
    rfl
  have hgone : (σ.run es).growth.phase = .gone := by
    refine hrest.cases.resolve_right fun ⟨_, _, hopen⟩ => ?_
    rw [hrun, closed_run hclosed after] at hopen
    cases hopen
  have hlength : (σ.outcomes es).length = (σ.begun before).length := by
    have hbegun : σ.begun es = σ.begun before ++ ((σ.run before).step .close).begun after := by
      rw [hes]
      exact gather_append σ before (.close :: after)
    have hpasses := (inOrder hidle hqueue es).begun es [] (List.append_nil es).symm
    rw [serving?_of_gone hgone, hbegun, begun_of_closed hclosed, Option.toList_none,
      List.append_nil, List.append_nil] at hpasses
    rw [hpasses, List.length_map]
  refine ⟨fun i hi => ?_, fun i hi => ?_⟩
  · exact ⟨_, List.getElem?_eq_getElem (hlength ▸ hi)⟩
  · unfold answerTo?
    rw [List.getElem?_eq_none_iff.mpr (hlength ▸ hi)]
    exact if_pos hgone

/-- The first pass fails, and the second one, for which nobody waits, is under way
when the population is closed. A request from before and one from after are
discarded when it is over, and one more is refused. -/
theorem one_pass_for_each_request_closed_meanwhile :
    let host (n : String) : Host := .conventional n
    let σ : Site := ⟨.ofLeaseSize 2, .empty⟩
    let before : List Event := [.request (some 1), .request none, .next, .request (some 2),
      .answer (.error (.expansion "down")), .next, .answer (.ok ⟨[host "a"], some "2"⟩)]
    let after : List Event := [.request (some 3), .answer (.ok ⟨[host "b"], none⟩), .next,
      .request (some 4)]
    let es := before ++ .close :: after
    (σ.growth.phase = .idle ∧ σ.growth.queue = []) ∧
    (σ.queued es = [some 1, none, some 2, some 3] ∧ σ.begun es = [some 1, none] ∧
      (σ.run es).growth.AtRest) ∧
    σ.told 1 es = [.error (.expansion "down")] ∧
    σ.told 2 es = [.error .workerStopped] ∧
    σ.told 3 es = [.error .workerStopped] ∧
    σ.told 4 es = [.error .workerStopped] ∧
    (∃ o, (σ.outcomes es)[1]? = some o) ∧
    σ.answerTo? es 2 = some (.error .workerStopped) := by
  intro host σ before after es
  obtain ⟨horder, hclosing⟩ := one_pass_for_each_request (σ := σ) rfl rfl es
  obtain ⟨-, hrest⟩ := hclosing before after rfl
  have hatRest : (σ.run es).growth.AtRest := by decide +kernel
  obtain ⟨hserved, hstopped⟩ := hrest hatRest
  have htold := horder.told
  refine ⟨⟨rfl, rfl⟩, ⟨by decide +kernel, by decide +kernel, hatRest⟩, ?_, ?_, ?_, ?_,
    hserved 1 (by decide +kernel), hstopped 2 (by decide +kernel)⟩
  · rw [htold [] 1 (before.drop 1 ++ .close :: after) rfl (by simp) (by simp [before, after])]
    rfl
  · rw [htold (before.take 3) 2 (before.drop 4 ++ .close :: after) rfl (by simp [before])
      (by simp [before, after]), if_neg (by decide +kernel)]
    exact congrArg Option.toList (hstopped 2 (by decide +kernel))
  · rw [htold (before ++ [.close]) 3 (after.drop 1) rfl (by simp [before]) (by simp [after]),
      if_neg (by decide +kernel)]
    exact congrArg Option.toList (hstopped 3 (by decide +kernel))
  · rw [htold (before ++ .close :: after.take 3) 4 [] rfl (by simp [before, after]) (by simp),
      if_pos (by decide +kernel)]

end Fleet.Growth.Site
