import Fleet.Proofs.Engine.Lifetimes

/-!
# What a fulfilled request holds

The worker counts the hosts that it grants to a request, and takes no notice of
a device that is taken back from the request meanwhile. Over a run that asks
for no name twice, what a fulfilled request holds and what was taken back from
it one by one are together what it asks for (`complete_iff_no_withdrawal`), so
it holds what it asks for exactly if nothing was taken back.

* **fates** — `Fate` says what may have become of a name: nobody has asked for
  it yet, its request is gone, or its request is there and its account is kept
  (`Stage`). Every event keeps this, as long as no name is asked for twice
  (`fate_step`, `fate_run`).
-/

namespace Fleet

/-- A request got different devices, and as many as it asks for. -/
def Request.CompletedBy (r : Request) (s : Snapshot) : Prop :=
  s.devices.Nodup ∧ s.devices.length = r.amount

namespace Engine

/-- The requests that an event submits. -/
def Event.requests : Event → List Request
  | .submit _ r => [r]
  | .release _ | .releaseDevice _ | .releaseExpired _ | .extend _ | .change _ | .stop | .work
  | .reap _ _ => []

/-- The requests that are asked for over a run, in order. -/
def submitted (es : List Event) : List Request := es.flatMap Event.requests

theorem exists_submit_of_mem {e : Event} {r : Request} (h : r ∈ e.requests) :
    ∃ now, e = .submit now r := by
  cases e with
  | submit now q =>
    obtain rfl := List.mem_singleton.mp h
    exact ⟨now, rfl⟩
  | release | releaseDevice | releaseExpired | extend | change | stop | work | reap => cases h

/-! ## Unknown names -/

theorem noStray_iff {σ : Engine} {id : String} :
    σ.NoStray id ↔ (∀ q ∈ σ.queue, q.id ≠ id) ∧
      ∀ r n, σ.worker.serving? = some (r, n) → r.id ≠ id := by
  have hqueued : σ.queued id = [] ↔ ∀ q ∈ σ.queue, q.id ≠ id := by
    unfold queued
    rw [List.filter_eq_nil_iff]
    simp only [decide_eq_true_eq, ne_eq]
  have hserving : σ.serving? id = none ↔
      ∀ r n, σ.worker.serving? = some (r, n) → r.id ≠ id := by
    cases hw : σ.worker.serving? with
    | none =>
      rw [serving?_of_none hw]
      exact ⟨fun _ _ _ h => absurd h (Option.some_ne_none _).symm, fun _ => rfl⟩
    | some p =>
      rw [serving?_of_some hw]
      refine ⟨fun h r n heq hid => ?_, fun h => if_neg (h p.1 p.2 rfl)⟩
      cases heq
      rw [if_pos hid] at h
      cases h
  rw [← hqueued, ← hserving]
  exact ⟨fun h => ⟨h.queued, h.serving⟩, fun h => ⟨h.1, h.2⟩⟩

/-- The worker makes no stray of a name out of nothing. -/
theorem noStray_move {σ τ : Engine} {id : String} {asks : Bool} (hm : Move σ τ asks)
    (h : σ.NoStray id) : τ.NoStray id := by
  obtain ⟨hqueue, hserving⟩ := noStray_iff.mp h
  refine noStray_iff.mpr ?_
  cases hm with
  | leave => exact ⟨fun _ hq => absurd hq List.not_mem_nil, fun _ _ hw => by cases hw⟩
  | skip _ _ hq =>
    rw [hq] at hqueue
    exact ⟨fun q hin => hqueue q (List.mem_cons_of_mem _ hin), hserving⟩
  | takeUp _ _ hq =>
    rw [hq] at hqueue
    refine ⟨fun q hin => hqueue q (List.mem_cons_of_mem _ hin), fun r n hw => ?_⟩
    cases hw
    exact hqueue _ List.mem_cons_self
  | abandon => exact ⟨hqueue, fun _ _ hw => by cases hw⟩
  | park hw | resume hw =>
    refine ⟨hqueue, fun r n hnext => ?_⟩
    cases hnext
    exact hserving _ _ (by rw [hw]; rfl)
  | @grant r' n' _ s host rest hw =>
    refine ⟨hqueue, fun r n hnext => ?_⟩
    have hnext : Worker.serving? (if n' + 1 = r'.amount then .idle
      else .seeking r' (n' + 1) false) = some (r, n) := hnext
    by_cases hlast : n' + 1 = r'.amount
    · rw [if_pos hlast] at hnext
      cases hnext
    · rw [if_neg hlast] at hnext
      cases hnext
      exact hserving r' n' (by rw [hw]; rfl)

/-- Only a request of its name makes a name known, or leaves a stray of it. -/
theorem unknown_step {σ : Engine} {e : Event} {id : String} (hL : σ.ledger.Sound)
    (hs : σ.ledger.describe? id = none) (h : σ.NoStray id) (hother : ∀ r ∈ e.requests, r.id ≠ id) :
    (σ.step e).ledger.describe? id = none ∧ (σ.step e).NoStray id := by
  refine ⟨?_, ?_⟩
  · by_contra hlive
    obtain ⟨now, r, rfl, hid, -⟩ :=
      exists_submit_of_unknown hL hs (Option.isSome_iff_ne_none.mpr hlive)
    exact hother r (List.mem_singleton_self r) hid
  · by_cases he : e = .work
    · subst he
      rcases σ.step_work with ⟨-, heq⟩ | hm
      · rw [heq]
        exact h
      · exact noStray_move hm h
    · obtain ⟨hqueue, hserving⟩ := noStray_iff.mp h
      refine noStray_iff.mpr ⟨?_, ?_⟩
      · rcases queue_step he with hq | ⟨now, r, rfl, -, hq⟩
        · rw [hq]
          exact hqueue
        · rw [hq]
          intro q hin
          rcases List.mem_append.mp hin with hold | hnew
          · exact hqueue q hold
          · exact hother q hnew
      · rw [worker_step he]
        exact hserving

/-! ## Fates -/

/-- What may have become of a name when those requests were asked for, and that
many devices were taken back from it one by one. -/
inductive Fate (σ : Engine) (id : String) (asked : List Request) (w : Nat) : Prop
  -- nobody has asked for the name
  | unknown (hnew : ∀ r ∈ asked, r.id ≠ id) (hs : σ.ledger.describe? id = none)
      (hclean : σ.NoStray id) (hw : w = 0)
  -- its request was refused or is gone
  | gone {r} (hr : r ∈ asked) (hid : r.id = id) (hs : σ.ledger.describe? id = none)
  -- its request is there
  | live {r s g} (hr : r ∈ asked) (hid : r.id = id) (hs : σ.ledger.describe? id = some s)
      (hstage : Stage r (σ.standing id s) g w)

theorem withdraws_of_unknown {σ : Engine} {e : Event} {id : String}
    (hs : σ.ledger.describe? id = none) : σ.withdraws id e = false := by
  cases e with
  | releaseDevice d =>
    unfold withdraws
    rw [hs]
    rfl
  | submit | release | releaseExpired | extend | change | stop | work | reap => rfl

theorem fate_step {σ : Engine} {e : Event} {id : String} {asked : List Request} {w : Nat}
    (hL : σ.ledger.Sound) (h : Fate σ id asked w)
    (hunique : ((asked ++ e.requests).map (·.id)).Nodup) :
    Fate (σ.step e) id (asked ++ e.requests) (w + (σ.withdraws id e).toNat) := by
  -- a name that was asked for before is not asked for again
  have hother : ∀ r ∈ asked, r.id = id → ∀ q ∈ e.requests, q.id ≠ id := by
    intro r hr hid q hq heq
    rw [List.map_append, List.nodup_append] at hunique
    exact hunique.2.2 r.id (List.mem_map.mpr ⟨r, hr, rfl⟩) q.id (List.mem_map.mpr ⟨q, hq, rfl⟩)
      (hid.trans heq.symm)
  cases h with
  | unknown hnew hs hclean hw =>
    rw [withdraws_of_unknown hs, hw]
    by_cases hasked : ∃ r ∈ e.requests, r.id = id
    · obtain ⟨r, hr, rfl⟩ := hasked
      have hin : r ∈ asked ++ e.requests := List.mem_append_right _ hr
      obtain ⟨now, rfl⟩ : ∃ now, e = .submit now r := exists_submit_of_mem hr
      by_cases ha : σ.Admits r
      · refine .live hin rfl (describe?_submit ha now) (g := 0) ?_
        rw [standing_submit ha, hclean.queued, hclean.serving]
        exact .waiting
      · rw [step_submit_of_not ha]
        exact .gone hin rfl hs
    · have hnone : ∀ r ∈ e.requests, r.id ≠ id := fun r hr hid => hasked ⟨r, hr, hid⟩
      obtain ⟨hs, hclean⟩ := unknown_step hL hs hclean hnone
      refine .unknown (fun r hr => ?_) hs hclean rfl
      exact (List.mem_append.mp hr).elim (hnew r) (hnone r)
  | @gone r hr hid hs =>
    refine .gone (List.mem_append_left _ hr) hid ?_
    by_contra hlive
    obtain ⟨now, q, rfl, hq, -⟩ :=
      exists_submit_of_unknown hL hs (Option.isSome_iff_ne_none.mpr hlive)
    exact hother r hr hid q (List.mem_singleton_self q) hq
  | @live r s g hr hid hs hstage =>
    have hr := List.mem_append_left e.requests hr
    cases ht : (σ.step e).ledger.describe? id with
    | none => exact .gone hr hid ht
    | some t => exact .live hr hid ht (stage_step hstage (progress_step hL hs ht)).1

theorem fate_run {σ : Engine} {es : List Event} {id : String} {asked : List Request} {w : Nat}
    (hL : σ.ledger.Sound) (h : Fate σ id asked w)
    (hunique : ((asked ++ submitted es).map (·.id)).Nodup) :
    Fate (σ.run es) id (asked ++ submitted es) (w + σ.withdrawals id es) := by
  induction es generalizing σ asked w with
  | nil =>
    show Fate σ id (asked ++ []) w
    rw [List.append_nil]
    exact h
  | cons e rest ih =>
    have hsplit : asked ++ submitted (e :: rest) = (asked ++ e.requests) ++ submitted rest := by
      rw [submitted, List.flatMap_cons, List.append_assoc]
      rfl
    rw [hsplit] at hunique ⊢
    have hfirst : ((asked ++ e.requests).map (·.id)).Nodup := by
      rw [List.map_append] at hunique
      exact (List.nodup_append.mp hunique).1
    have hrest := ih (sound_step σ e hL) (fate_step hL h hfirst) hunique
    rw [Nat.add_assoc] at hrest
    exact hrest

/-- **Success.** Over a run that asks for no name twice, what a fulfilled
request holds and what was taken back from it one by one are together what it
asks for; it got as many different devices as it asks for exactly if nothing
was taken back. The run may end with the step that fulfils the request. -/
theorem complete_iff_no_withdrawal (d : EngineDraft) (members : List Host) (es : List Event)
    (id : String) (t : Snapshot) (hunique : ((submitted es).map (·.id)).Nodup)
    (ht : ((d.engine members).run es).ledger.describe? id = some t)
    (hdone : t.status = .succeeded) :
    ∃ r ∈ submitted es, r.id = id ∧
      t.devices.length + (d.engine members).withdrawals id es = r.amount ∧
      (r.CompletedBy t ↔ (d.engine members).withdrawals id es = 0) := by
  have hL : (d.engine members).ledger.Sound := Ledger.sound_ofHosts members
  have hstart : Fate (d.engine members) id [] 0 :=
    .unknown (fun _ hr => absurd hr List.not_mem_nil) (Ledger.describe?_ofHosts members id)
      ⟨rfl, rfl⟩ rfl
  have hfate := fate_run hL hstart hunique
  rw [List.nil_append, Nat.zero_add] at hfate
  cases hfate with
  | unknown _ hs =>
    rw [hs] at ht
    cases ht
  | gone _ _ hs =>
    rw [hs] at ht
    cases ht
  | @live r s g hr hid hs hstage =>
    obtain rfl := Option.some.inj (hs.symm.trans ht)
    have hall : g = r.amount := hstage.granted_of_succeeded hdone
    have hsum : s.devices.length + _ = g := hstage.sum
    have hdistinct : s.devices.Nodup := (sound_run d members es).devices_nodup hs
    refine ⟨r, hr, hid, hsum.trans hall, ?_, ?_⟩
    · intro hcomplete
      have hlength := hcomplete.2
      omega
    · intro hnone
      exact ⟨hdistinct, by omega⟩

/-- A request for two hosts that loses none of them. -/
theorem complete_two_hosts :
    let hosts := [Host.conventional "host-1", Host.conventional "host-2"]
    let es : List Event := [.submit 0 ⟨"a", 2, by decide⟩, .work, .work, .work]
    let σ := ({} : EngineDraft).engine hosts
    ((submitted es).map (·.id)).Nodup ∧
      ∃ t, (σ.run es).ledger.describe? "a" = some t ∧ t.status = .succeeded ∧
        σ.withdrawals "a" es = 0 ∧ ∃ r ∈ submitted es, r.id = "a" ∧ r.CompletedBy t := by
  intro hosts es σ
  have hunique : ((submitted es).map (·.id)).Nodup := by decide
  have hnone : σ.withdrawals "a" es = 0 := by decide
  let t : Snapshot := ⟨"a", .succeeded, [⟨"host-1", .succeeded⟩, ⟨"host-2", .succeeded⟩]⟩
  have ht : (σ.run es).ledger.describe? "a" = some t := by decide
  obtain ⟨r, hr, hid, -, hiff⟩ := complete_iff_no_withdrawal {} hosts es "a" t hunique ht rfl
  exact ⟨hunique, t, ht, rfl, hnone, r, hr, hid, hiff.mpr hnone⟩

/-- A request for two hosts is fulfilled with the only host there is, which is
taken back from it in between and granted to it again. -/
theorem withdrawn_is_incomplete :
    let es : List Event :=
      [.submit 0 ⟨"a", 2, by decide⟩, .work, .work, .work, .releaseDevice "host-1", .work, .work]
    let σ := ({} : EngineDraft).engine [Host.conventional "host-1"]
    ((submitted es).map (·.id)).Nodup ∧ σ.withdrawals "a" es = 1 ∧
      ((σ.run (es.take 6)).ledger.describe? "a").map (·.status) = some .provisioning ∧
      (σ.run es).ledger.describe? "a" =
        some ⟨"a", .succeeded, [⟨"host-1", .succeeded⟩]⟩ := by
  decide

end Engine

end Fleet
