import Fleet.Proofs.Pool.Exchanges

/-!
# Runs of a wait

A wait is under way between three parties that take turns in any order: the
caller, the poller that asks for the status, and whatever answers them. At any
point the caller may go away; then the poller is stopped, and somebody else
gives the request back on the caller's behalf.

A run is told by notes of what can be seen from outside: what entering the
request was answered, each time the status is asked for, how the wait was
settled, each call of the pool and its answer, and the end. A caller who is left
alone ends as `Dialogue.run` says (`returned_of_run`).
-/

namespace Fleet

namespace Waiting

open Wait Dialogue

variable {C T : Type}

/-- A wait and whether its poller expects an answer. -/
structure Watch where
  wait : Wait
  asking : Bool := false

/-- How far a wait has come. -/
inductive Phase (C T : Type)
  | entering
  | waiting (watch : Watch)
  | concluding (watch : Watch) (rest : PoolDialogue C T (Result C T))
  | returned (result : Result C T)
  /-- The caller went away. -/
  | abandoned (rest : PoolDialogue C T Unit) (begun : Bool)

/-- What can happen in a wait. -/
inductive Event (C T : Type)
  | pass (now : Instant)
  -- the request was entered or refused
  | submitted (answer : Except ProvisionError Snapshot)
  | poll
  -- the poller has an answer, or died of asking
  | described (answer : Except ProvisionError Snapshot)
  -- the caller looks whether the wait is settled
  | look
  -- the call that the caller waits for is answered, or that of who gives back
  | answered (answer : (q : PoolCall C T) → q.Answer)
  | drop
  -- who gives back an abandoned request begins
  | giveBack

/-- What can be seen of a wait. -/
inductive Note (C T : Type)
  | submitted (answer : Except ProvisionError Snapshot)
  | described (id : String)
  | settled (answer : Except ProvisionError Snapshot)
  | asked (call : PoolCall C T)
  | heard (exchange : PoolExchange C T)
  | returned (result : Result C T)
  | dropped

/-- The call that a dialogue has come to. -/
def opening {R : Type} : PoolDialogue C T R → List (Note C T)
  | .done _ => []
  | .ask q _ => [.asked q]

/-- A caller who has come to a point of what is left to do. -/
def reach (w : Watch) : PoolDialogue C T (Result C T) → Phase C T × List (Note C T)
  | .done r => (.returned r, [.returned r])
  | .ask q next => (.concluding w (.ask q next), [.asked q])

/-- The poller asks if it is due and expects no answer already. -/
def Watch.poll (w : Watch) (now : Instant) : Watch × List (Note C T) :=
  if w.wait.poller.isDue now && !w.asking then ({ w with asking := true }, [.described w.wait.id])
  else (w, [])

/-- The poller hears an answer if it expects one. -/
def Watch.hear (w : Watch) (now : Instant) (stamp : Nat) (a : Except ProvisionError Snapshot) :
    Watch × List (Note C T) :=
  if w.asking then (⟨w.wait.hear now stamp a, false⟩, []) else (w, [])

/-- The poller does something, as long as the caller is there. -/
def Phase.watch (phase : Phase C T) (f : Watch → Watch × List (Note C T)) :
    Phase C T × List (Note C T) :=
  match phase with
  | .waiting w => (.waiting (f w).1, (f w).2)
  | .concluding w rest => (.concluding (f w).1 rest, (f w).2)
  | phase => (phase, [])

/-- A wait at an instant. The stamp is that of the next alarm. -/
structure Session (C T : Type) where
  interval : Duration
  limit : Duration
  now : Instant
  stamp : Nat
  phase : Phase C T := .entering

namespace Session

/-- How a wait goes on, and what is seen of it. -/
def act (σ : Session C T) : Event C T → Phase C T × List (Note C T)
  | .pass _ => (σ.phase, [])
  | .submitted a =>
    match σ.phase, a with
    | .entering, .error e => (.returned (.error e), [.submitted (.error e), .returned (.error e)])
    | .entering, .ok s =>
      (.waiting ⟨Wait.start s σ.interval σ.limit σ.now σ.stamp, false⟩, [.submitted (.ok s)])
    | phase, _ => (phase, [])
  | .poll => σ.phase.watch fun w => w.poll σ.now
  | .described a => σ.phase.watch fun w => w.hear σ.now σ.stamp a
  | .look =>
    match σ.phase with
    | .waiting w =>
      match w.wait.settled? σ.now with
      | none => (.waiting w, [])
      | some settled =>
        let (phase, notes) := reach w (Wait.conclude w.wait.id settled)
        (phase, .settled settled :: notes)
    | phase => (phase, [])
  | .answered f =>
    match σ.phase with
    | .concluding w (.ask q next) =>
      let (phase, notes) := reach w (next (f q))
      (phase, .heard ⟨q, f q⟩ :: notes)
    | .abandoned (.ask q next) true =>
      (.abandoned (next (f q)) true, .heard ⟨q, f q⟩ :: opening (next (f q)))
    | phase => (phase, [])
  | .drop =>
    match σ.phase with
    | .entering => (.abandoned (.done ()) false, [.dropped])
    | .waiting w => (.abandoned (Wait.abandon w.wait.id) false, [.dropped])
    | .concluding w _ => (.abandoned (Wait.abandon w.wait.id) false, [.dropped])
    | phase => (phase, [])
  | .giveBack =>
    match σ.phase with
    | .abandoned rest false => (.abandoned rest true, opening rest)
    | phase => (phase, [])

/-- The clock after an event. -/
def clock (σ : Session C T) : Event C T → Instant
  | .pass now => max σ.now now
  | _ => σ.now

/-- A wait after an event. -/
def step (σ : Session C T) (e : Event C T) : Session C T :=
  { σ with now := σ.clock e, stamp := σ.stamp + 1, phase := (σ.act e).1 }

/-- A wait after events in order. -/
def run (σ : Session C T) (es : List (Event C T)) : Session C T := es.foldl step σ

/-- What is seen of a wait over a run. -/
def notes (σ : Session C T) : List (Event C T) → List (Note C T)
  | [] => []
  | e :: es => (σ.act e).2 ++ (σ.step e).notes es

theorem run_append (σ : Session C T) (es fs : List (Event C T)) :
    σ.run (es ++ fs) = (σ.run es).run fs :=
  List.foldl_append

theorem notes_append (σ : Session C T) (es fs : List (Event C T)) :
    σ.notes (es ++ fs) = σ.notes es ++ (σ.run es).notes fs := by
  induction es generalizing σ with
  | nil => rfl
  | cons e rest ih =>
    show (σ.act e).2 ++ (σ.step e).notes (rest ++ fs) = _
    rw [ih, ← List.append_assoc]
    rfl

end Session

/-- A caller who is left alone ends with what leading the dialogue to its end
comes to. -/
theorem returned_of_run {E : Type} (answer : E → (q : PoolCall C T) → E × q.Answer) (env : E)
    (w : Watch) (d : PoolDialogue C T (Result C T)) {σ : Session C T}
    (h : σ.phase = (reach w d).1) :
    ∃ es, (∀ e ∈ es, ∃ f, e = .answered f) ∧
      (σ.run es).phase = .returned (d.run answer env).2 := by
  induction d generalizing σ env with
  | done r => exact ⟨[], by simp, h⟩
  | ask q next ih =>
    let f (q : PoolCall C T) : q.Answer := (answer env q).2
    have hstep : (σ.step (.answered f)).phase = (reach w (next (f q))).1 := by
      simp [Session.step, Session.act, h, reach]
    obtain ⟨es, hes, hrun⟩ := ih (f q) (answer env q).1 hstep
    refine ⟨.answered f :: es, ?_, hrun⟩
    rintro e (_ | ⟨_, he⟩)
    · exact ⟨f, rfl⟩
    · exact hes e he

end Waiting

end Fleet
