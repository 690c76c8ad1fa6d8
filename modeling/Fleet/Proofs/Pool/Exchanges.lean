import Fleet.Pool.Wait

/-!
# Exchanges of a dialogue

What has been asked and answered so far leads a dialogue from one of its points
to a later one (`Dialogue.Leads`). A question that stands nowhere in a dialogue
is not asked, however the others are answered (`Dialogue.Asks`); so devices are
obtained without giving any request back (`obtain_asks`), and that is done by
`Wait.conclude` only once it is certain that the wait ends in an error.
-/

namespace Fleet

namespace Dialogue

variable {Q : Type} {A : Q → Type} {R S : Type}

/-- A question with its answer. -/
abbrev Exchange (A : Q → Type) : Type := (q : Q) × A q

/-- Exchanges lead a dialogue from one point to another. -/
inductive Leads : Dialogue Q A R → List (Exchange A) → Dialogue Q A R → Prop
  | here (d) : Leads d [] d
  | ask {q next d exchanges} (a : A q) (h : Leads (next a) exchanges d) :
      Leads (ask q next) (⟨q, a⟩ :: exchanges) d

theorem Leads.answered {d : Dialogue Q A R} {exchanges : List (Exchange A)} {q : Q}
    {next : A q → Dialogue Q A R} (h : Leads d exchanges (.ask q next)) (a : A q) :
    Leads d (exchanges ++ [⟨q, a⟩]) (next a) := by
  generalize hend : Dialogue.ask q next = e at h
  induction h with
  | here d =>
    subst hend
    exact .ask a (.here _)
  | ask b _ ih => exact .ask b (ih hend)

/-- Every question that a dialogue can come to has a property. -/
inductive Asks (P : Q → Prop) : Dialogue Q A R → Prop
  | done (r : R) : Asks P (.done r)
  | ask {q next} (hq : P q) (hnext : ∀ a, Asks P (next a)) : Asks P (.ask q next)

theorem Asks.bind {P : Q → Prop} {d : Dialogue Q A R} {f : R → Dialogue Q A S} (h : d.Asks P)
    (hf : ∀ r, (f r).Asks P) : (d.bind f).Asks P := by
  induction h with
  | done r => exact hf r
  | ask hq _ ih => exact .ask hq ih

theorem Asks.leads {P : Q → Prop} {d e : Dialogue Q A R} {exchanges : List (Exchange A)}
    (h : d.Asks P) (hleads : d.Leads exchanges e) : e.Asks P := by
  induction hleads with
  | here => exact h
  | ask a _ ih =>
    cases h with
    | ask _ hnext => exact ih (hnext a)

end Dialogue

variable {C T : Type}

/-- A call of a pool with its answer. -/
abbrev PoolExchange (C T : Type) : Type := Dialogue.Exchange (PoolCall.Answer (C := C) (T := T))

/-- The request that a call gives back, if it does. -/
def PoolCall.released? : PoolCall C T → Option String
  | .release request => some request
  | _ => none

namespace PoolDialogue

open Dialogue

/-- A dialogue that gives no request back. -/
abbrev Keeps {R : Type} (d : PoolDialogue C T R) : Prop := d.Asks fun q => q.released? = none

theorem closeDevices_keeps (devices : List (Device C T)) : (closeDevices devices).Keeps := by
  induction devices with
  | nil => exact .done ()
  | cons d rest ih =>
    have hclose : (closeDevice d).Keeps := .ask rfl fun _ => .ask rfl fun _ => .done ()
    exact hclose.bind fun _ => ih

theorem openDevice_keeps (request : String) (r : Reservation) :
    (openDevice (C := C) (T := T) request r).Keeps := by
  refine .ask rfl fun host => ?_
  cases host with
  | error => exact .done _
  | ok host =>
    refine .ask rfl fun connection => ?_
    cases connection with
    | error => exact .done _
    | ok connection =>
      refine .ask rfl fun transfer => ?_
      cases transfer with
      | error => exact .ask rfl fun _ => .done _
      | ok => exact .done _

theorem openDevices_keeps (request : String) (opened : List (Device C T))
    (reservations : List Reservation) : (openDevices request opened reservations).Keeps := by
  induction reservations generalizing opened with
  | nil => exact .done _
  | cons r rest ih =>
    refine (openDevice_keeps request r).bind fun device => ?_
    cases device with
    | ok d => exact ih _
    | error e => exact (closeDevices_keeps opened).bind fun _ => .done _

theorem obtain_keeps (s : Snapshot) : (obtain (C := C) (T := T) s).Keeps :=
  openDevices_keeps s.id [] (granted s)

end PoolDialogue

namespace Wait

/-- What a caller ends with. -/
abbrev Result (C T : Type) : Type := Except ProvisionError (List (Device C T))

/-- What is left to do once devices were obtained or not. -/
def afterObtain (id : String) : Result C T → PoolDialogue C T (Result C T)
  | .ok devices => .done (.ok devices)
  | .error e => giveBack id e

theorem conclude_of_error {id : String} {settled : Except ProvisionError Snapshot}
    {e : ProvisionError} (h : verdict id settled = .error e) :
    conclude (C := C) (T := T) id settled = giveBack id e := by
  simp [conclude, h]

theorem conclude_of_ok {id : String} {settled : Except ProvisionError Snapshot} {s : Snapshot}
    (h : verdict id settled = .ok s) :
    conclude (C := C) (T := T) id settled = (PoolDialogue.obtain s).bind (afterObtain id) := by
  unfold conclude
  rw [h]
  rfl

/-- How a wait ends that was settled so, when exchanges have followed. -/
inductive Ends (id : String) (settled : Except ProvisionError Snapshot) :
    List (PoolExchange C T) → Result C T → Prop
  | refused {e} (h : verdict id settled = .error e) : Ends id settled [] (.error e)
  | obtained {s exchanges r} (h : verdict id settled = .ok s)
      (hleads : (PoolDialogue.obtain s).Leads exchanges (.done r)) : Ends id settled exchanges r

end Wait

end Fleet
