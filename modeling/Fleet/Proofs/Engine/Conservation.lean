import Fleet.Proofs.Engine.Run
import Fleet.Proofs.Ledger.Conservation

/-!
# No host is lost, and none is leased twice

The ledger of an engine is sound after every run (`sound_run`): the free hosts
are the ones that the directory holds for their devices, no device is free or
leased twice, none is both, and none of the directory is neither
(`hosts_conserved`). The hosts that the population adds and removes may be any,
so this holds also of hosts that leave while they are leased, come back before
they are given back, or change their address meanwhile.
-/

namespace Fleet.Engine

theorem sound_move {σ τ : Engine} {asks : Bool} (h : σ.ledger.Sound) (hm : Move σ τ asks) :
    τ.ledger.Sound := by
  cases hm with
  | leave | skip | abandon | park | resume => exact h
  | takeUp _ _ _ hs => exact h.setSnapshot hs rfl
  | @grant r n _ s _ _ _ hs hfree =>
    have hg := Ledger.grant?_of_some hs hfree (n + 1 = r.amount)
    simp only [decide_eq_true_eq] at hg
    exact h.grant hg

/-- Every event keeps the ledger sound. -/
theorem sound_step (σ : Engine) (e : Event) (h : σ.ledger.Sound) : (σ.step e).ledger.Sound := by
  cases e with
  | submit now r =>
    by_cases ha : σ.Admits r
    · rw [step_submit ha]
      exact h.submit ha.unknown _
    · rw [step_submit_of_not ha]
      exact h
  | release id => exact h.release id
  | releaseDevice d => exact h.releaseDevice d
  | releaseExpired now => exact h.releaseAll _
  | extend id =>
    show ((σ.extend? id).elim σ Prod.fst).ledger.Sound
    rw [extend_eq]
    cases hx : σ.ledger.extend? id σ.term with
    | none => exact h
    | some p => exact h.extend hx
  | change c => exact h.applyChange c
  | stop => exact h
  | work =>
    rcases σ.step_work with ⟨-, heq⟩ | hm
    · rw [heq]
      exact h
    · exact sound_move h hm
  | reap now stamp =>
    show (σ.reaperTurn now stamp).ledger.Sound
    obtain ⟨reaper, looks, heq⟩ := σ.reaperTurn_eq now stamp
    rw [heq]
    split
    · exact h.releaseAll _
    · exact h

theorem sound_run (d : EngineDraft) (members : List Host) (es : List Event) :
    ((d.engine members).run es).ledger.Sound :=
  run_induct sound_step (Ledger.sound_ofHosts members) es

/-- What every event keeps of an engine with a sound ledger holds after every
run. -/
theorem reachable_induct {P : Engine → Prop} {d : EngineDraft} {members : List Host}
    (hstart : P (d.engine members)) (hstep : ∀ σ e, σ.ledger.Sound → P σ → P (σ.step e))
    (es : List Event) : P ((d.engine members).run es) := by
  have hboth : ∀ σ e, σ.ledger.Sound ∧ P σ → (σ.step e).ledger.Sound ∧ P (σ.step e) := by
    intro σ e h
    exact ⟨sound_step σ e h.1, hstep σ e h.1 h.2⟩
  exact (run_induct hboth ⟨Ledger.sound_ofHosts members, hstart⟩ es).2

/-- **Conservation.** After every run the free hosts are those of the directory
and are different devices, no device is leased twice over all requests
together, none is both free and leased, and every device of the directory is
one of the two. -/
theorem hosts_conserved (d : EngineDraft) (members : List Host) (es : List Event) :
    let L := ((d.engine members).run es).ledger
    ((L.free.map (·.deviceId)).Nodup ∧ ∀ h ∈ L.free, L.directory.get? h.deviceId = some h) ∧
      L.leased.Nodup ∧
      (∀ h ∈ L.free, h.deviceId ∉ L.leased) ∧
      ∀ device h, L.directory.get? device = some h →
        (∃ q ∈ L.free, q.deviceId = device) ∨ device ∈ L.leased := by
  intro L
  have hparted : Parted L.directory L.free L.leased := (sound_run d members es).parted
  exact ⟨⟨hparted.free_distinct, hparted.free_current⟩, hparted.held_once, hparted.apart,
    hparted.covered⟩

end Fleet.Engine
