import Fleet.Proofs.Engine.Completion

/-!
# First come, first served

A run of an engine has two records: the requests in the order in which they
were entered (`entrants`), and the hosts that the worker handed out, each with
the name that it went to (`handed`). No name is entered twice.

* **a hand-out** — `hand_of_hands?` says all that handing out does: the host is
  the first free one, and it becomes the last reservation of its request;
* **what is left** — the worker's request and the queue are what was entered
  last (`Served.suffix`), so whoever came before the worker's request has been
  dealt with, and whoever stands behind it has got nothing;
* **blocks** — the record of the hand-outs is the record of the entrants, each
  repeated as often as it was granted a host (`Served.ordered`);
* **runs** — every event keeps this (`served_step`), so every run does
  (`served_run`), and `first_come_first_served` reads it off.
-/

namespace Fleet.Engine

/-! ## Entrants and hand-outs -/

theorem admits_iff {σ : Engine} {r : Request} :
    σ.Admits r ↔ σ.ledger.describe? r.id = none ∧ σ.stopped = false ∧ σ.worker ≠ .gone :=
  ⟨fun h => ⟨h.unknown, h.running, h.working⟩, fun h => ⟨h.1, h.2.1, h.2.2⟩⟩

instance (σ : Engine) (r : Request) : Decidable (σ.Admits r) :=
  decidable_of_iff _ admits_iff.symm

/-- The request that an event enters. -/
def enters? (σ : Engine) : Event → Option Request
  | .submit _ r => if σ.Admits r then some r else none
  | .release _ | .releaseDevice _ | .releaseExpired _ | .extend _ | .change _ | .stop | .work
  | .reap _ _ => none

/-- The requests that are entered over a run, in order. -/
def entrants (σ : Engine) : List Event → List Request
  | [] => []
  | e :: es => (σ.enters? e).toList ++ (σ.step e).entrants es

/-- The host that the next step of the worker hands out, and the name that it
goes to. -/
def nextHand? (σ : Engine) : Option (String × Host) :=
  match σ.worker with
  | .seeking r n _ =>
    match σ.ledger.grant? r.id (n + 1 = r.amount) with
    | .granted h _ => some (r.id, h)
    | .abandoned | .noHost => none
  | .idle | .parked _ _ | .gone => none

/-- The host that an event hands out, and the name that it goes to. -/
def hands? (σ : Engine) : Event → Option (String × Host)
  | .work => σ.nextHand?
  | .submit _ _ | .release _ | .releaseDevice _ | .releaseExpired _ | .extend _ | .change _
  | .stop | .reap _ _ => none

/-- The hosts that are handed out over a run, in order. -/
def handed (σ : Engine) : List Event → List (String × Host)
  | [] => []
  | e :: es => (σ.hands? e).toList ++ (σ.step e).handed es

/-- The names that an event hands a host to. -/
def takers (σ : Engine) (e : Event) : List String := (σ.hands? e).toList.map Prod.fst

section
variable {σ τ : Engine} {e : Event} {id : String} {host : Host}

theorem enters?_of_admits {r : Request} (h : σ.Admits r) (now : Instant) :
    σ.enters? (.submit now r) = some r :=
  if_pos h

theorem enters?_of_not {r : Request} (h : ¬σ.Admits r) (now : Instant) :
    σ.enters? (.submit now r) = none :=
  if_neg h

theorem submit_of_enters? {r : Request} (h : σ.enters? e = some r) :
    ∃ now, e = .submit now r ∧ σ.Admits r := by
  cases e with
  | submit now q =>
    by_cases ha : σ.Admits q
    · rw [enters?_of_admits ha] at h
      cases h
      exact ⟨now, rfl, ha⟩
    · rw [enters?_of_not ha] at h
      cases h
  | release | releaseDevice | releaseExpired | extend | change | stop | work | reap => cases h

theorem hands?_of_ne_work (he : e ≠ .work) : σ.hands? e = none := by
  cases e with
  | work => exact absurd rfl he
  | submit | release | releaseDevice | releaseExpired | extend | change | stop | reap => rfl

theorem takers_of_none (h : σ.hands? e = none) : σ.takers e = [] := by
  unfold takers
  rw [h]
  rfl

theorem takers_of_some (h : σ.hands? e = some (id, host)) : σ.takers e = [id] := by
  unfold takers
  rw [h]
  rfl

theorem nextHand?_of_seeking {r : Request} {n : Nat} {hinted : Bool}
    (hw : σ.worker = .seeking r n hinted) : σ.nextHand? =
      match σ.ledger.grant? r.id (n + 1 = r.amount) with
      | .granted h _ => some (r.id, h)
      | .abandoned | .noHost => none := by
  unfold nextHand?
  rw [hw]

theorem leases_work (σ : Engine) (id : String) :
    σ.leases id .work = decide (id ∈ σ.takers .work) := by
  show _ = decide (id ∈ σ.nextHand?.toList.map Prod.fst)
  cases hw : σ.worker with
  | idle | parked | gone =>
    unfold leases nextHand?
    rw [hw]
    rfl
  | seeking r n hinted =>
    rw [leases_of_seeking hw, nextHand?_of_seeking hw]
    cases σ.ledger.grant? r.id (n + 1 = r.amount) with
    | abandoned | noHost => rfl
    | granted host L =>
      show decide (r.id = id) = decide (id ∈ [r.id])
      simp only [List.mem_singleton, eq_comm]

/-- An event leases a host to the request of a name if it hands one to it. -/
theorem leases_eq (σ : Engine) (id : String) (e : Event) :
    σ.leases id e = decide (id ∈ σ.takers e) := by
  by_cases he : e = .work
  · subst he
    exact σ.leases_work id
  · rw [leases_of_ne_work he, takers_of_none (hands?_of_ne_work he)]
    rfl

theorem toNat_leases (σ : Engine) (id : String) (e : Event) :
    (σ.leases id e).toNat = (σ.takers e).count id := by
  rw [leases_eq]
  unfold takers
  cases σ.hands? e with
  | none => rfl
  | some p =>
    show (decide (id ∈ [p.1])).toNat = [p.1].count id
    rw [List.count_singleton]
    by_cases hid : id = p.1
    · simp [hid]
    · simp [hid, Ne.symm hid]

/-- Handing out takes a step of a worker that is at a request which is still
there, and the first free host. -/
theorem leasedOut_of_hands? (h : σ.hands? e = some (id, host)) :
    ∃ r n hinted s rest, e = .work ∧ σ.worker = .seeking r n hinted ∧ r.id = id ∧
      σ.ledger.describe? id = some s ∧ σ.ledger.free = host :: rest ∧
      σ.step e = σ.leasedOut r n s host rest := by
  by_cases he : e = .work
  · subst he
    have h : σ.nextHand? = some (id, host) := h
    cases hw : σ.worker with
    | idle | parked | gone =>
      unfold nextHand? at h
      rw [hw] at h
      cases h
    | seeking r n hinted =>
      rw [nextHand?_of_seeking hw] at h
      cases hs : σ.ledger.describe? r.id with
      | none =>
        rw [Ledger.grant?_of_none hs] at h
        cases h
      | some s =>
        cases hfree : σ.ledger.free with
        | nil =>
          rw [Ledger.grant?_of_free_nil hs hfree] at h
          cases h
        | cons first rest =>
          rw [Ledger.grant?_of_some hs hfree] at h
          cases h
          exact ⟨r, n, hinted, s, rest, rfl, rfl, rfl, hs, rfl, step_of_move (.grant hw hs hfree)⟩
  · rw [hands?_of_ne_work he] at h
    cases h

/-- A host that is handed out is the first free one, and it becomes the last
reservation of its request. -/
theorem hand_of_hands? (h : σ.hands? e = some (id, host)) :
    σ.ledger.free = host :: (σ.step e).ledger.free ∧
      ∃ s t, σ.ledger.describe? id = some s ∧ (σ.step e).ledger.describe? id = some t ∧
        t.reservations = s.reservations ++ [⟨host.deviceId, .succeeded⟩] := by
  obtain ⟨r, n, hinted, s, rest, -, -, hid, hs, hfree, hstep⟩ := leasedOut_of_hands? h
  rw [hstep, hfree]
  have ht := (describe?_leasedOut (hid ▸ hs) n host rest id).trans (if_pos hid.symm)
  refine ⟨?_, s, _, hs, ht, rfl⟩
  show _ = host :: (Ledger.setSnapshot { σ.ledger with free := rest } r.id _).free
  rw [free_setSnapshot]

/-- A request gains no reservation from an event that hands nothing to it. -/
theorem sublist_of_not_hands? {s t : Snapshot} (hL : σ.ledger.Sound)
    (hs : σ.ledger.describe? id = some s) (ht : (σ.step e).ledger.describe? id = some t)
    (hno : ∀ h, σ.hands? e ≠ some (id, h)) : t.reservations.Sublist s.reservations := by
  have hleases : σ.leases id e = false := by
    rw [leases_eq, decide_eq_false_iff_not]
    intro hin
    obtain ⟨p, hp, rfl⟩ := List.mem_map.mp hin
    exact hno p.2 (Option.mem_toList.mp hp)
  have hprogress := progress_step hL hs ht
  rw [hleases] at hprogress
  -- only a hand-out adds a reservation
  generalize hS : σ.standing id s = S at hprogress
  generalize hT : (σ.step e).standing id t = T at hprogress
  generalize σ.withdraws id e = withdrawn at hprogress
  have hbefore : s = S.snapshot := congrArg Standing.snapshot hS
  have hafter : t = T.snapshot := congrArg Standing.snapshot hT
  rw [hbefore, hafter]
  cases hprogress with
  | rest | takeUp | leave => exact List.Sublist.refl _
  | withdraw => exact List.filter_sublist

end

theorem grants_eq_count (σ : Engine) (id : String) (es : List Event) :
    σ.grants id es = ((σ.handed es).map Prod.fst).count id := by
  induction es generalizing σ with
  | nil => rfl
  | cons e rest ih =>
    show (σ.leases id e).toNat + (σ.step e).grants id rest =
      (((σ.hands? e).toList ++ (σ.step e).handed rest).map Prod.fst).count id
    rw [ih, toNat_leases, List.map_append, List.count_append]
    rfl

/-! ## What is left to serve -/

/-- The requests that the worker has not done with yet, in order. -/
def pending (σ : Engine) : List Request := (σ.worker.serving?.map Prod.fst).toList ++ σ.queue

/-- The names of the requests, each as often as it is in a record. -/
def blocks (log : List String) (entrants : List Request) : List String :=
  entrants.flatMap fun r => List.replicate (log.count r.id) r.id

/-- What is known when those requests were entered and those names were handed
a host, both in order. -/
structure Served (σ : Engine) (entrants : List Request) (log : List String) : Prop where
  -- what is left is what was entered last
  suffix : σ.pending <:+ entrants
  -- a queued request has got nothing
  waiting : ∀ r ∈ σ.queue, log.count r.id = 0
  -- the worker knows how much its request has got
  serving : ∀ r n, σ.worker.serving? = some (r, n) → log.count r.id = n
  -- a request that is not left any more has got all or is gone
  done : σ.worker ≠ .gone → ∀ r ∈ entrants, r ∉ σ.pending →
    (σ.ledger.describe? r.id).isSome → log.count r.id = r.amount
  -- whoever was entered first was served first
  ordered : log = blocks log entrants

theorem pending_of_cons {σ : Engine} {r : Request} {rest : List Request} (hw : σ.worker = .idle)
    (hq : σ.queue = r :: rest) : σ.pending = r :: rest := by
  unfold pending
  rw [hw, hq]
  rfl

theorem pending_of_serving {σ : Engine} {r : Request} {n : Nat}
    (hw : σ.worker.serving? = some (r, n)) : σ.pending = r :: σ.queue := by
  unfold pending
  rw [hw]
  rfl

section
variable {σ τ : Engine} {entrants : List Request} {log : List String} {asks : Bool}

/-- A worker that does not get done with anything keeps the account. -/
theorem Served.of_pending (h : Served σ entrants log) (hp : τ.pending = σ.pending)
    (hwork : τ.worker ≠ .gone → σ.worker ≠ .gone)
    (hlive : ∀ id, (τ.ledger.describe? id).isSome → (σ.ledger.describe? id).isSome)
    (hqueue : ∀ r ∈ τ.queue, r ∈ σ.queue)
    (hserving : ∀ r n, τ.worker.serving? = some (r, n) → log.count r.id = n) :
    Served τ entrants log where
  suffix := by
    rw [hp]
    exact h.suffix
  waiting r hr := h.waiting r (hqueue r hr)
  serving := hserving
  done hrun r hr hout hlives :=
    h.done (hwork hrun) r hr (by rwa [hp] at hout) (hlive r.id hlives)
  ordered := h.ordered

/-- A worker that stays at its request keeps the account. -/
theorem Served.of_same (h : Served σ entrants log)
    (hserving : τ.worker.serving? = σ.worker.serving?) (hqueue : τ.queue = σ.queue)
    (hwork : τ.worker ≠ .gone → σ.worker ≠ .gone)
    (hlive : ∀ id, (τ.ledger.describe? id).isSome → (σ.ledger.describe? id).isSome) :
    Served τ entrants log := by
  have hp : τ.pending = σ.pending := by
    unfold pending
    rw [hserving, hqueue]
  refine h.of_pending hp hwork hlive (fun r hr => hqueue ▸ hr) ?_
  rw [hserving]
  exact h.serving

/-- A worker that gets past a request which is gone keeps the account. -/
theorem Served.of_gone {r : Request} (h : Served σ entrants log)
    (hp : σ.pending = r :: τ.pending) (hw : τ.worker.serving? = none) (hwork : σ.worker ≠ .gone)
    (hsame : τ.ledger = σ.ledger) (hqueue : ∀ q ∈ τ.queue, q ∈ σ.queue)
    (hgone : σ.ledger.describe? r.id = none) : Served τ entrants log where
  suffix := by
    have hsuffix := h.suffix
    rw [hp] at hsuffix
    exact (List.suffix_cons r τ.pending).trans hsuffix
  waiting q hq := h.waiting q (hqueue q hq)
  serving q n hserving := by
    rw [hw] at hserving
    cases hserving
  done _ q hq hout hlives := by
    rw [hsame] at hlives
    refine h.done hwork q hq ?_ hlives
    rw [hp, List.mem_cons, not_or]
    refine ⟨?_, hout⟩
    rintro rfl
    rw [hgone] at hlives
    cases hlives
  ordered := h.ordered

/-- The entrants are those before the worker's request, that request, and the
queue, and no other has its name. -/
theorem Served.split_entrants {r : Request} {n : Nat} (h : Served σ entrants log)
    (hw : σ.worker.serving? = some (r, n)) (hone : (entrants.map (·.id)).Nodup) :
    ∃ before, entrants = before ++ r :: σ.queue ∧
      (∀ q ∈ before, q.id ≠ r.id) ∧ ∀ q ∈ σ.queue, q.id ≠ r.id := by
  obtain ⟨before, hbefore⟩ := h.suffix
  rw [pending_of_serving hw] at hbefore
  refine ⟨before, hbefore.symm, ?_⟩
  rw [← hbefore, List.map_append, List.map_cons, List.nodup_middle, List.nodup_cons,
    List.mem_append, not_or] at hone
  obtain ⟨⟨hfirst, hlast⟩, -⟩ := hone
  exact ⟨fun q hq hid => hfirst (List.mem_map.mpr ⟨q, hq, hid⟩),
    fun q hq hid => hlast (List.mem_map.mpr ⟨q, hq, hid⟩)⟩

theorem blocks_append (log : List String) (before after : List Request) :
    blocks log (before ++ after) = blocks log before ++ blocks log after :=
  List.flatMap_append

theorem blocks_cons (log : List String) (r : Request) (after : List Request) :
    blocks log (r :: after) = List.replicate (log.count r.id) r.id ++ blocks log after :=
  List.flatMap_cons

theorem count_snoc_of_ne {id other : String} (h : other ≠ id) :
    (log ++ [id]).count other = log.count other := by
  rw [List.count_append, List.count_singleton, if_neg (by simpa using h.symm), Nat.add_zero]

theorem count_snoc_self (log : List String) (id : String) :
    (log ++ [id]).count id = log.count id + 1 := by
  rw [List.count_append, List.count_singleton_self]

theorem blocks_snoc_of_ne {id : String} {others : List Request} (h : ∀ q ∈ others, q.id ≠ id) :
    blocks (log ++ [id]) others = blocks log others := by
  induction others with
  | nil => rfl
  | cons q rest ih =>
    rw [blocks_cons, blocks_cons, count_snoc_of_ne (h q List.mem_cons_self),
      ih fun p hp => h p (List.mem_cons_of_mem _ hp)]

theorem blocks_of_waiting {queue : List Request} (h : ∀ q ∈ queue, log.count q.id = 0) :
    blocks log queue = [] := by
  refine List.flatMap_eq_nil_iff.mpr ?_
  intro q hq
  rw [h q hq]
  rfl

/-- A hand-out makes the block of the worker's request longer, which is the
last one. -/
theorem blocks_snoc {r : Request} {before queue : List Request}
    (hbefore : ∀ q ∈ before, q.id ≠ r.id) (hqueue : ∀ q ∈ queue, q.id ≠ r.id)
    (hwaiting : ∀ q ∈ queue, log.count q.id = 0) :
    blocks (log ++ [r.id]) (before ++ r :: queue) =
      blocks log (before ++ r :: queue) ++ [r.id] := by
  rw [blocks_append, blocks_append, blocks_cons, blocks_cons, blocks_snoc_of_ne hbefore,
    blocks_snoc_of_ne hqueue, blocks_of_waiting hwaiting, List.append_nil, List.append_nil,
    count_snoc_self, List.replicate_succ', List.append_assoc]

/-- The worker's request after one more host was handed to it. -/
theorem serving?_leasedOut (σ : Engine) (r : Request) (n : Nat) (s : Snapshot) (host : Host)
    (rest : List Host) : (σ.leasedOut r n s host rest).worker.serving? =
      if n + 1 = r.amount then none else some (r, n + 1) := by
  by_cases hlast : n + 1 = r.amount
  · rw [if_pos hlast]
    exact congrArg Worker.serving? (if_pos hlast)
  · rw [if_neg hlast]
    exact congrArg Worker.serving? (if_neg hlast)

theorem pending_leasedOut (σ : Engine) (r : Request) (n : Nat) (s : Snapshot) (host : Host)
    (rest : List Host) : (σ.leasedOut r n s host rest).pending =
      if n + 1 = r.amount then σ.queue else r :: σ.queue := by
  have hnext := serving?_leasedOut σ r n s host rest
  by_cases hlast : n + 1 = r.amount
  · rw [if_pos hlast] at hnext ⊢
    unfold pending
    rw [hnext]
    rfl
  · rw [if_neg hlast] at hnext ⊢
    exact pending_of_serving hnext

/-- A host handed to the worker's request keeps the account. -/
theorem served_leasedOut {r : Request} {n : Nat} {hinted : Bool} {s : Snapshot} {host : Host}
    {rest : List Host} (h : Served σ entrants log) (hone : (entrants.map (·.id)).Nodup)
    (hw : σ.worker = .seeking r n hinted) (hs : σ.ledger.describe? r.id = some s)
    (hfree : σ.ledger.free = host :: rest) :
    Served (σ.leasedOut r n s host rest) entrants (log ++ [r.id]) := by
  have hat : σ.worker.serving? = some (r, n) := by rw [hw]; rfl
  have hpending : σ.pending = r :: σ.queue := pending_of_serving hat
  obtain ⟨before, hsplit, hbefore, hqueue⟩ := h.split_entrants hat hone
  have hcount : (log ++ [r.id]).count r.id = n + 1 := by
    rw [count_snoc_self, h.serving r n hat]
  refine ⟨?_, ?_, ?_, ?_, ?_⟩
  · refine List.IsSuffix.trans ?_ h.suffix
    rw [pending_leasedOut, hpending]
    split
    · exact List.suffix_cons r σ.queue
    · exact List.suffix_refl _
  · intro q hq
    rw [count_snoc_of_ne (hqueue q hq)]
    exact h.waiting q hq
  · intro q m hserving
    rw [serving?_leasedOut] at hserving
    split at hserving
    · cases hserving
    · cases hserving
      exact hcount
  · intro _ q hq hout hlives
    rw [pending_leasedOut] at hout
    by_cases hid : q.id = r.id
    · -- no other entrant has the name, so it is the worker's request and this was its last host
      obtain rfl : q = r := List.inj_on_of_nodup_map hone hq (by simp [hsplit]) hid
      split at hout
      · next hlast => exact hcount.trans hlast
      · exact absurd List.mem_cons_self hout
    · have hother : q ∉ σ.pending := by
        rw [hpending, List.mem_cons, not_or]
        refine ⟨fun heq => hid (congrArg Request.id heq), fun hin => hout ?_⟩
        split
        · exact hin
        · exact List.mem_cons_of_mem r hin
      rw [count_snoc_of_ne hid]
      refine h.done (by rw [hw]; exact Worker.noConfusion) q hq hother ?_
      exact (isSome_describe?_move (.grant hw hs hfree) q.id).symm.trans hlives
  · rw [hsplit, blocks_snoc hbefore hqueue h.waiting, ← hsplit, ← h.ordered]

/-- A step of the worker that hands nothing out keeps the account. -/
theorem served_move (h : Served σ entrants log) (hm : Move σ τ asks)
    (hno : σ.nextHand? = none) : Served τ entrants log := by
  have hlive : ∀ id, (τ.ledger.describe? id).isSome → (σ.ledger.describe? id).isSome :=
    fun id hlives => (isSome_describe?_move hm id).symm.trans hlives
  cases hm with
  | leave =>
    refine ⟨List.nil_suffix, fun r hr => absurd hr List.not_mem_nil, ?_, ?_, h.ordered⟩
    · intro r n hserving
      cases hserving
    · intro hwork
      exact absurd rfl hwork
  | skip hw _ hq hgone =>
    have hp := pending_of_cons hw hq
    refine h.of_gone ?_ (by rw [hw]; rfl) (by rw [hw]; exact Worker.noConfusion) rfl ?_ hgone
    · rw [hp]
      unfold pending
      rw [hw]
      rfl
    · intro q hin
      rw [hq]
      exact List.mem_cons_of_mem _ hin
  | @takeUp r rest s hw _ hq hs =>
    refine h.of_pending ?_ (fun _ => by rw [hw]; exact Worker.noConfusion) hlive ?_ ?_
    · rw [pending_of_cons hw hq]
      exact pending_of_serving rfl
    · intro q hin
      rw [hq]
      exact List.mem_cons_of_mem _ hin
    · intro q m hserving
      cases hserving
      exact h.waiting r (by rw [hq]; exact List.mem_cons_self)
  | @abandon r n hinted hw hgone =>
    have hp : σ.pending = r :: σ.queue := pending_of_serving (by rw [hw]; rfl)
    exact h.of_gone hp rfl (by rw [hw]; exact Worker.noConfusion) rfl (fun q hin => hin) hgone
  | park hw _ _ =>
    exact h.of_same (by rw [hw]; rfl) rfl (fun _ => by rw [hw]; exact Worker.noConfusion) hlive
  | grant hw hs hfree =>
    rw [nextHand?_of_seeking hw, Ledger.grant?_of_some hs hfree] at hno
    cases hno
  | resume hw _ _ =>
    exact h.of_same (by rw [hw]; rfl) rfl (fun _ => by rw [hw]; exact Worker.noConfusion) hlive

/-- A new request stands behind all others and has got nothing. -/
theorem served_entered {r : Request} (h : Served σ entrants log) (now : Instant)
    (hone : ((entrants ++ [r]).map (·.id)).Nodup) :
    Served (σ.entered now r) (entrants ++ [r]) log := by
  have hpending : (σ.entered now r).pending = σ.pending ++ [r] := (List.append_assoc ..).symm
  have hnew : ∀ q ∈ entrants, q.id ≠ r.id := by
    rw [List.map_append, List.nodup_append] at hone
    intro q hq
    exact hone.2.2 q.id (List.mem_map.mpr ⟨q, hq, rfl⟩) r.id (List.mem_singleton_self _)
  -- every name in the record is an entrant's
  have hzero : log.count r.id = 0 := by
    rw [h.ordered, List.count_eq_zero]
    intro hin
    obtain ⟨q, hq, hin⟩ := List.mem_flatMap.mp hin
    exact hnew q hq (List.eq_of_mem_replicate hin).symm
  refine ⟨?_, ?_, h.serving, ?_, ?_⟩
  · rw [hpending]
    exact (List.suffix_append_self_iff).mpr h.suffix
  · intro q hq
    rcases List.mem_append.mp hq with hold | hnew
    · exact h.waiting q hold
    · rw [List.mem_singleton.mp hnew]
      exact hzero
  · intro hwork q hq hout hlives
    rw [hpending, List.mem_append, not_or] at hout
    rcases List.mem_append.mp hq with hold | hlast
    · refine h.done hwork q hold hout.1 ?_
      have hother : (σ.entered now r).ledger.describe? q.id = σ.ledger.describe? q.id := by
        show (σ.ledger.submit r.id _).describe? q.id = _
        rw [Ledger.describe?_submit, if_neg (hnew q hold)]
      rwa [hother] at hlives
    · exact absurd hlast hout.2
  · rw [blocks_append, blocks_cons, hzero, ← h.ordered]
    exact (List.append_nil _).symm

/-- An event that neither enters a request nor is a step of the worker keeps
the account. -/
theorem served_of_ne_work (h : Served σ entrants log) (hL : σ.ledger.Sound) {e : Event}
    (he : e ≠ .work) (hno : σ.enters? e = none) : Served (σ.step e) entrants log := by
  have hqueue : (σ.step e).queue = σ.queue := by
    rcases queue_step he with hq | ⟨now, r, rfl, ha, -⟩
    · exact hq
    · rw [enters?_of_admits ha] at hno
      cases hno
  have hwork : (σ.step e).worker = σ.worker := worker_step he
  refine h.of_same (congrArg Worker.serving? hwork) hqueue (fun hrun => hwork ▸ hrun) ?_
  intro id hlives
  by_contra hs
  rw [Option.not_isSome_iff_eq_none] at hs
  obtain ⟨now, r, rfl, -, ha⟩ := exists_submit_of_unknown hL hs hlives
  rw [enters?_of_admits ha] at hno
  cases hno

/-- Every event keeps the account. -/
theorem served_step {e : Event} (h : Served σ entrants log) (hL : σ.ledger.Sound)
    (hone : ((entrants ++ (σ.enters? e).toList).map (·.id)).Nodup) :
    Served (σ.step e) (entrants ++ (σ.enters? e).toList) (log ++ σ.takers e) := by
  by_cases he : e = .work
  · subst he
    have hone : (entrants.map (·.id)).Nodup := by
      rwa [show σ.enters? .work = none from rfl, Option.toList_none, List.append_nil] at hone
    rw [show σ.enters? .work = none from rfl, Option.toList_none, List.append_nil]
    cases hhands : σ.hands? .work with
    | some p =>
      obtain ⟨r, n, hinted, s, rest, -, hw, hid, hs, hfree, hstep⟩ := leasedOut_of_hands? hhands
      rw [hstep, takers_of_some hhands, ← hid]
      exact served_leasedOut h hone hw (hid ▸ hs) hfree
    | none =>
      rw [takers_of_none hhands, List.append_nil]
      rcases σ.step_work with ⟨-, heq⟩ | hm
      · rw [heq]
        exact h
      · exact served_move h hm hhands
  · rw [takers_of_none (hands?_of_ne_work he), List.append_nil]
    cases hin : σ.enters? e with
    | none =>
      rw [Option.toList_none, List.append_nil]
      exact served_of_ne_work h hL he hin
    | some r =>
      obtain ⟨now, rfl, ha⟩ := submit_of_enters? hin
      rw [hin] at hone
      rw [step_submit ha]
      exact served_entered h now hone

end

/-! ## Runs -/

/-- Every run keeps the account. -/
theorem served_run {σ : Engine} {es : List Event} {before : List Request} {log : List String}
    (hL : σ.ledger.Sound) (h : Served σ before log)
    (hone : ((before ++ σ.entrants es).map (·.id)).Nodup) :
    Served (σ.run es) (before ++ σ.entrants es) (log ++ (σ.handed es).map Prod.fst) := by
  induction es generalizing σ before log with
  | nil =>
    show Served σ (before ++ []) (log ++ [])
    rw [List.append_nil, List.append_nil]
    exact h
  | cons e rest ih =>
    have hin : before ++ σ.entrants (e :: rest) =
        (before ++ (σ.enters? e).toList) ++ (σ.step e).entrants rest :=
      (List.append_assoc ..).symm
    have hout : log ++ (σ.handed (e :: rest)).map Prod.fst =
        (log ++ σ.takers e) ++ ((σ.step e).handed rest).map Prod.fst := by
      show log ++ ((σ.hands? e).toList ++ (σ.step e).handed rest).map Prod.fst = _
      rw [List.map_append, List.append_assoc]
      rfl
    rw [hin] at hone
    have hfirst : ((before ++ (σ.enters? e).toList).map (·.id)).Nodup := by
      rw [List.map_append] at hone
      exact (List.nodup_append.mp hone).1
    rw [hin, hout]
    exact ih (sound_step σ e hL) (served_step h hL hfirst) hone

/-- A new engine has nothing to account for. -/
theorem served_engine (d : EngineDraft) (members : List Host) :
    Served (d.engine members) [] [] := by
  refine ⟨List.suffix_refl _, fun r hr => absurd hr List.not_mem_nil, ?_, ?_, rfl⟩
  · intro r n hserving
    cases hserving
  · intro _ r hr
    exact absurd hr List.not_mem_nil

/-- **First come, first served.** Over a run that enters no name twice: no host
is handed to a request while one that was entered before it is there and has not
got all its hosts; the hosts handed to one request are one block of the record,
and the blocks are in the order of entry; and a host that is handed out is the
first free one and becomes the last reservation of its request, which gains
none in any other way. A caller's call is one event: the calls of two threads do
not overlap between the entry of a request and its place in the queue. -/
theorem first_come_first_served (d : EngineDraft) (members : List Host) (es : List Event)
    (hone : (((d.engine members).entrants es).map (·.id)).Nodup) :
    let σ := d.engine members
    let τ := σ.run es
    (∀ before b after, σ.entrants es = before ++ b :: after →
      ∀ e host, τ.hands? e = some (b.id, host) →
        ∀ a ∈ before, (τ.ledger.describe? a.id).isSome → σ.grants a.id es = a.amount) ∧
      (σ.handed es).map Prod.fst =
        (σ.entrants es).flatMap (fun r => List.replicate (σ.grants r.id es) r.id) ∧
      (∀ e id host, τ.hands? e = some (id, host) →
        τ.ledger.free = host :: (τ.step e).ledger.free ∧
          ∃ s t, τ.ledger.describe? id = some s ∧ (τ.step e).ledger.describe? id = some t ∧
            t.reservations = s.reservations ++ [⟨host.deviceId, .succeeded⟩]) ∧
      ∀ e id s t, τ.ledger.describe? id = some s → (τ.step e).ledger.describe? id = some t →
        (∀ host, τ.hands? e ≠ some (id, host)) → t.reservations.Sublist s.reservations := by
  intro σ τ
  have hL : τ.ledger.Sound := sound_run d members es
  have hserved : Served τ (σ.entrants es) ((σ.handed es).map Prod.fst) :=
    served_run (Ledger.sound_ofHosts members) (served_engine d members) hone
  refine ⟨?_, ?_, fun e id host h => hand_of_hands? h,
    fun e id s t hs ht hno => sublist_of_not_hands? hL hs ht hno⟩
  · intro before b after hsplit e host hhands a ha hlives
    obtain ⟨r, n, hinted, -, -, -, hw, hid, -⟩ := leasedOut_of_hands? hhands
    have hat : τ.worker.serving? = some (r, n) := by rw [hw]; rfl
    obtain ⟨first, hfirst, hbefore, hqueue⟩ := hserved.split_entrants hat hone
    have hb : b ∈ σ.entrants es := by rw [hsplit]; simp
    have hr : r ∈ σ.entrants es := by rw [hfirst]; simp
    obtain rfl : r = b := List.inj_on_of_nodup_map hone hr hb hid
    have hnodup : (first ++ r :: τ.queue).Nodup := hfirst ▸ hone.of_map
    obtain ⟨-, -, hapart⟩ := List.nodup_append.mp hnodup
    -- whoever came before the worker's request is not left to serve
    obtain ⟨rfl, -, -⟩ := (List.append_cons_inj_of_notMem
      (fun hin => hbefore r hin rfl) (fun hin => hqueue r hin rfl)).mp (hfirst.symm.trans hsplit)
    have hout : a ∉ τ.pending := by
      rw [pending_of_serving hat]
      exact fun hin => hapart a ha a hin rfl
    rw [grants_eq_count]
    exact hserved.done (by rw [hw]; exact Worker.noConfusion) a (by rw [hsplit]; simp [ha]) hout
      hlives
  · show _ = (σ.entrants es).flatMap fun r => List.replicate (σ.grants r.id es) r.id
    simp only [grants_eq_count]
    exact hserved.ordered

/-- Two requests, the first of which has to wait for its second host while the
other one is queued. -/
theorem first_come_first_served_two_requests :
    let a : Request := ⟨"a", 2, by decide⟩
    let b : Request := ⟨"b", 1, by decide⟩
    let es : List Event :=
      [.submit 0 a, .submit 1 b, .work, .work, .work, .change (.added (Host.conventional "host-2")),
        .work, .work, .work, .work, .change (.added (Host.conventional "host-3")), .work]
    let σ := ({} : EngineDraft).engine [Host.conventional "host-1"]
    ((σ.entrants es).map (·.id)).Nodup ∧ σ.entrants es = [a, b] ∧
      (σ.handed es).map Prod.fst = ["a", "a"] ∧
      (σ.run es).hands? .work = some ("b", Host.conventional "host-3") ∧
      ((σ.run es).ledger.describe? "a").isSome ∧ σ.grants "a" es = 2 := by
  intro a b es σ
  have hone : ((σ.entrants es).map (·.id)).Nodup := by decide
  have hin : σ.entrants es = [a, b] := by decide
  have hlog : (σ.handed es).map Prod.fst = ["a", "a"] := by decide
  have hhand : (σ.run es).hands? .work = some (b.id, Host.conventional "host-3") := by decide
  have hlive : ((σ.run es).ledger.describe? a.id).isSome := by decide
  obtain ⟨hfirst, -⟩ := first_come_first_served {} [Host.conventional "host-1"] es hone
  exact ⟨hone, hin, hlog, hhand, hlive,
    hfirst [a] b [] hin .work _ hhand a (List.mem_singleton_self a) hlive⟩

end Fleet.Engine
