import Fleet.Proofs.Pool.Obtaining
import Fleet.Proofs.Pool.Waiting

/-!
# What an abandoned wait leaves open

Who gives a request back for a caller who went away knows the request and nothing
else. So nothing is opened or closed once the caller has gone, whatever happens
then (`drop_ends_openings`): all that had been opened and not closed by that time
stays open, as a device does whose caller leaves while the next one is being
opened (`drop_leaves_device_open`).
-/

namespace Fleet.Waiting

open Dialogue PoolDialogue

variable {C T : Type} {σ : Session C T}

/-- A call neither opens nor closes a handle, whatever it is answered. -/
def Handless (q : PoolCall C T) : Prop :=
  q.closed? = none ∧ ∀ a, PoolExchange.opened? ⟨q, a⟩ = none

theorem abandon_asks (id : String) : (Wait.abandon (C := C) (T := T) id).Asks Handless :=
  .ask ⟨rfl, fun _ => rfl⟩ fun _ => .done ()

/-- What is left to others when the caller has gone opens and closes nothing. -/
def Clean : Phase C T → Prop
  | .abandoned rest _ => rest.Asks Handless
  | .entering | .waiting _ | .concluding .. | .returned _ => True

/-- The caller has gone, with a result or without one. -/
def Over : Phase C T → Prop
  | .returned _ | .abandoned .. => True
  | .entering | .waiting _ | .concluding .. => False

theorem exchanges_append (ns ms : List (Note C T)) :
    exchanges (ns ++ ms) = exchanges ns ++ exchanges ms := List.filterMap_append

theorem clean_reach (w : Watch) (d : PoolDialogue C T (Wait.Result C T)) :
    Clean (reach w d).1 := by
  cases d <;> exact trivial

theorem over_drop (σ : Session C T) : Over (σ.step .drop).phase := by
  obtain ⟨interval, limit, now, stamp, phase⟩ := σ
  cases phase <;> exact trivial

/-- A caller who has gone does not come back, and what others do opens and closes
nothing. -/
theorem over_step (hclean : Clean σ.phase) (hover : Over σ.phase) (e : Event C T) :
    Over (σ.step e).phase ∧ Clean (σ.step e).phase ∧
      opened (exchanges (σ.act e).2) = [] ∧ closed (exchanges (σ.act e).2) = [] := by
  obtain ⟨interval, limit, now, stamp, phase⟩ := σ
  cases phase with
  | entering | waiting | concluding => exact hover.elim
  | returned r => cases e <;> exact ⟨trivial, trivial, rfl, rfl⟩
  | abandoned rest begun =>
    have hrest : rest.Asks Handless := hclean
    cases e with
    | giveBack =>
      cases begun with
      | true => exact ⟨trivial, hrest, rfl, rfl⟩
      | false => cases rest <;> exact ⟨trivial, hrest, rfl, rfl⟩
    | answered f =>
      cases begun with
      | false => cases rest <;> exact ⟨trivial, hrest, rfl, rfl⟩
      | true =>
        cases hrest with
        | done => exact ⟨trivial, .done (), rfl, rfl⟩
        | @ask q next hq hnext =>
          have hexchanges : exchanges (.heard ⟨q, f q⟩ :: opening (next (f q))) = [⟨q, f q⟩] := by
            cases next (f q) <;> rfl
          show True ∧ (next (f q)).Asks Handless ∧
            opened (exchanges (.heard ⟨q, f q⟩ :: opening (next (f q)))) = [] ∧
            closed (exchanges (.heard ⟨q, f q⟩ :: opening (next (f q)))) = []
          rw [hexchanges]
          exact ⟨trivial, hnext _, by simp [opened, hq.2], by simp [closed, hq.1]⟩
    | _ => exact ⟨trivial, hrest, rfl, rfl⟩

/-- Only what a caller leaves behind who goes away is left to others. -/
theorem clean_step (hclean : Clean σ.phase) (e : Event C T) : Clean (σ.step e).phase := by
  obtain ⟨interval, limit, now, stamp, phase⟩ := σ
  cases phase with
  | returned r => exact (over_step hclean trivial e).2.1
  | abandoned rest begun => exact (over_step hclean trivial e).2.1
  | entering =>
    cases e with
    | submitted a => cases a <;> exact trivial
    | drop => exact .done ()
    | _ => exact trivial
  | waiting w =>
    cases e with
    | look =>
      unfold Session.step Session.act
      dsimp only
      cases w.wait.settled? now with
      | none => exact trivial
      | some settled => exact clean_reach ..
    | drop => exact abandon_asks _
    | _ => exact trivial
  | concluding w d =>
    cases e with
    | answered f =>
      cases d with
      | done r => exact trivial
      | ask q next => exact clean_reach w (next (f q))
    | drop => exact abandon_asks _
    | _ => exact trivial

theorem clean_run (hclean : Clean σ.phase) (es : List (Event C T)) : Clean (σ.run es).phase := by
  induction es generalizing σ with
  | nil => exact hclean
  | cons e rest ih => exact ih (clean_step hclean e)

theorem over_run (hclean : Clean σ.phase) (hover : Over σ.phase) (es : List (Event C T)) :
    opened (exchanges (σ.notes es)) = [] ∧ closed (exchanges (σ.notes es)) = [] := by
  induction es generalizing σ with
  | nil => exact ⟨rfl, rfl⟩
  | cons e rest ih =>
    obtain ⟨hstays, hclean', hopened, hclosed⟩ := over_step hclean hover e
    obtain ⟨hopens, hcloses⟩ := ih hclean' hstays
    rw [Session.notes, exchanges_append, opened_append, closed_append, hopened, hclosed, hopens,
      hcloses]
    exact ⟨rfl, rfl⟩

/-- Whatever happens after the caller has gone, what has been opened and what has
been closed is what had been by then. -/
theorem drop_ends_openings (interval limit : Duration) (now : Instant) (stamp : Nat)
    (before after : List (Event C T)) :
    let σ : Session C T := { interval, limit, now, stamp }
    let met := exchanges (σ.notes before)
    let all := exchanges (σ.notes (before ++ .drop :: after))
    opened all = opened met ∧ closed all = closed met := by
  intro σ met all
  have hclean : Clean (σ.run before).phase := clean_run (σ := σ) trivial before
  obtain ⟨hopens, hcloses⟩ :=
    over_run (clean_step hclean .drop) (over_drop (σ.run before)) after
  have hdrop : exchanges ((σ.run before).act .drop).2 = [] := by
    unfold Session.act
    cases (σ.run before).phase <;> rfl
  have hall : all = met ++ exchanges (((σ.run before).step .drop).notes after) := by
    show exchanges (σ.notes (before ++ .drop :: after)) = _
    rw [Session.notes_append, exchanges_append, Session.notes, exchanges_append, hdrop]
    rfl
  rw [hall, opened_append, closed_append, hopens, hcloses, List.append_nil, List.append_nil]
  exact ⟨rfl, rfl⟩

/-- Two devices are to be opened. The caller goes away while the second one is
being exchanged for a host: the request is given back, and the connection and the
transfer agent of the first one stay open. -/
theorem drop_leaves_device_open :
    let s : Snapshot := ⟨"r", .succeeded, [⟨"a", .succeeded⟩, ⟨"b", .succeeded⟩]⟩
    let accept (q : PoolCall Nat Nat) : q.Answer :=
      match q with
      | .exchange r => .ok (.conventional r.deviceId)
      | .connect _ | .openTransfer .. => .ok 0
      | .release _ | .closeTransfer _ | .closeConnection _ | .closeService | .closeConnections
      | .closeTransfers => .ok ()
    let σ : Session Nat Nat :=
      { interval := .ofMillis 250, limit := .ofMillis 1000, now := 0, stamp := 0 }
    let before : List (Event Nat Nat) :=
      [.submitted (.ok (.requested "r")), .poll, .described (.ok s), .look, .answered accept,
        .answered accept, .answered accept]
    let after : List (Event Nat Nat) := [.giveBack, .answered accept]
    let ns := σ.notes (before ++ .drop :: after)
    ns.filterMap Note.ending? = [none] ∧ released ns = ["r"] ∧
      opened (exchanges ns) = [.connection 0, .transfer 0] ∧ closed (exchanges ns) = [] := by
  intro s accept σ before after ns
  obtain ⟨hopened, hclosed⟩ := drop_ends_openings (C := Nat) (T := Nat) (.ofMillis 250)
    (.ofMillis 1000) 0 0 before after
  exact ⟨rfl, rfl, hopened.trans rfl, hclosed.trans rfl⟩

end Fleet.Waiting
