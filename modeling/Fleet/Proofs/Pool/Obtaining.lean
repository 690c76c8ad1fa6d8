import Fleet.Proofs.Pool.Exchanges
import Mathlib.Data.List.Perm.Basic

/-!
# Obtaining devices, call by call

The transcript of a dialogue is what was asked and answered until it ended, with
an environment that may answer as it likes and change as it does. What a pool
has opened and closed meanwhile is read off the transcript.

* **one reservation** — `openDevice_spec`: the three calls that open a device, or
  the calls up to the one that was refused (`Refusal`), and after a refused
  transfer agent the closing of the connection that it was to go over;
* **all of them** — `openDevices_spec`: the devices of the reservations before
  the refused one were opened in order, and all of them are closed in the same
  order, whatever the closing calls are answered (`Outcome`);
* **handles** — every call that was answered with a handle opened it, so the
  handles that a failed attempt closed are those that it opened
  (`closed_perm_opened`).
-/

namespace Fleet

namespace Dialogue

variable {Q : Type} {A : Q → Type} {R S E : Type}

/-- What is asked and answered until a dialogue ends. -/
def transcript (answer : E → (q : Q) → E × A q) : E → Dialogue Q A R → List (Exchange A)
  | _, done _ => []
  | σ, ask q next => ⟨q, (answer σ q).2⟩ :: transcript answer (answer σ q).1 (next (answer σ q).2)

theorem transcript_bind (answer : E → (q : Q) → E × A q) (σ : E) (d : Dialogue Q A R)
    (f : R → Dialogue Q A S) :
    transcript answer σ (d.bind f) =
      transcript answer σ d ++
        transcript answer (run answer σ d).1 (f (run answer σ d).2) := by
  induction d generalizing σ with
  | done r => rfl
  | ask q next ih => exact congrArg (_ :: ·) (ih _ _)

end Dialogue

variable {C T : Type}

/-- What a factory has opened: a connection or a transfer agent. -/
inductive Handle (C T : Type)
  | connection (connection : C)
  | transfer (transfer : T)

/-- The handles of a device in the order in which they are opened. -/
def Device.handles (d : Device C T) : List (Handle C T) :=
  [.connection d.connection, .transfer d.transfer]

/-- The calls that close a device. -/
def Device.closing (d : Device C T) : List (PoolCall C T) :=
  [.closeTransfer d.transfer, .closeConnection d.connection]

namespace PoolExchange

/-- The reservation that a call is the first one for. -/
def tried? : PoolExchange C T → Option Reservation
  | ⟨.exchange r, _⟩ => some r
  | _ => none

/-- The handle that a call has opened. -/
def opened? : PoolExchange C T → Option (Handle C T)
  | ⟨.connect _, .ok c⟩ => some (.connection c)
  | ⟨.openTransfer .., .ok t⟩ => some (.transfer t)
  | _ => none

/-- The error that a call to open something was refused with. -/
def refused? : PoolExchange C T → Option ProvisionError
  | ⟨.exchange _, .error e⟩ => some (.reservation e)
  | ⟨.connect _, .error e⟩ => some (.connection e)
  | ⟨.openTransfer .., .error e⟩ => some (.transfer e)
  | _ => none

end PoolExchange

/-- The handle that a call closes, whatever it is answered. -/
def PoolCall.closed? : PoolCall C T → Option (Handle C T)
  | .closeTransfer t => some (.transfer t)
  | .closeConnection c => some (.connection c)
  | _ => none

namespace PoolDialogue

open Dialogue

/-- The calls that open the device of a reservation. -/
def opening (request : String) (r : Reservation) (d : Device C T) : List (PoolExchange C T) :=
  [⟨.exchange r, .ok d.host⟩, ⟨.connect d.host, .ok d.connection⟩,
    ⟨.openTransfer request d.connection d.host, .ok d.transfer⟩]

/-- The calls that open the devices of reservations, one after the other. -/
def openings (request : String) (rs : List Reservation) (ds : List (Device C T)) :
    List (PoolExchange C T) :=
  (rs.zip ds).flatMap fun p => opening request p.1 p.2

/-- The calls for a reservation whose device could not be opened, and why. -/
inductive Refusal (request : String) (r : Reservation) :
    List (PoolExchange C T) → ProvisionError → Prop
  -- the reservation was not exchanged for a host
  | exchange (e) : Refusal request r [⟨.exchange r, .error e⟩] (.reservation e)
  -- no connection was opened
  | connect (host e) :
      Refusal request r [⟨.exchange r, .ok host⟩, ⟨.connect host, .error e⟩] (.connection e)
  -- no transfer agent was opened, and the connection is closed again
  | transfer (host c e) (closed : Except ConnectionError Unit) :
      Refusal request r
        [⟨.exchange r, .ok host⟩, ⟨.connect host, .ok c⟩,
          ⟨.openTransfer request c host, .error e⟩, ⟨.closeConnection c, closed⟩]
        (.transfer e)

section
variable {E : Type} (answer : E → (q : PoolCall C T) → E × q.Answer)

/-! ## One reservation -/

theorem openDevice_spec (request : String) (r : Reservation) (σ : E) :
    match ((openDevice request r).run answer σ).2 with
    | .ok d => (openDevice request r).transcript answer σ = opening request r d
    | .error e => Refusal request r ((openDevice request r).transcript answer σ) e := by
  rcases hx : answer σ (.exchange r) with ⟨τ, e | host⟩
  · simp only [openDevice, run_ask, transcript, hx]
    exact .exchange e
  rcases hc : answer τ (.connect host) with ⟨υ, e | c⟩
  · simp only [openDevice, run_ask, transcript, hx, hc]
    exact .connect host e
  rcases ht : answer υ (.openTransfer request c host) with ⟨φ, e | t⟩
  · simp only [openDevice, run_ask, transcript, hx, hc, ht]
    exact .transfer host c e _
  · simp only [openDevice, run_ask, transcript, hx, hc, ht]
    rfl

/-! ## All reservations -/

/-- Devices are closed in order, whatever the closing calls are answered. -/
theorem closeDevices_spec (devices : List (Device C T)) (σ : E) :
    ((closeDevices devices).transcript answer σ).map Sigma.fst =
      devices.flatMap Device.closing := by
  induction devices generalizing σ with
  | nil => rfl
  | cons d rest ih =>
    rw [closeDevices, transcript_bind, List.map_append, ih]
    rfl

/-- What comes of opening devices behind those that are open already. -/
inductive Outcome (request : String) (earlier : List (Device C T)) (rs : List Reservation) :
    List (PoolExchange C T) → Except ProvisionError (List (Device C T)) → Prop
  -- there is one device for each reservation
  | opened (devices) (hlen : devices.length = rs.length) :
      Outcome request earlier rs (openings request rs devices) (.ok (earlier ++ devices))
  -- a reservation was refused, and whatever is open is closed again
  | refused (before r after devices) {calls e closings} (hsplit : rs = before ++ r :: after)
      (hlen : devices.length = before.length) (hrefusal : Refusal request r calls e)
      (hclosings : closings.map Sigma.fst = (earlier ++ devices).flatMap Device.closing) :
      Outcome request earlier rs (openings request before devices ++ (calls ++ closings))
        (.error e)

theorem Outcome.cons {request : String} {earlier : List (Device C T)} {r : Reservation}
    {d : Device C T} {rs : List Reservation} {calls : List (PoolExchange C T)}
    {result : Except ProvisionError (List (Device C T))}
    (h : Outcome request (earlier ++ [d]) rs calls result) :
    Outcome request earlier (r :: rs) (opening request r d ++ calls) result := by
  cases h with
  | opened devices hlen =>
    rw [List.append_assoc]
    exact .opened (d :: devices) (by simp [hlen])
  | refused before q after devices hsplit hlen hrefusal hclosings =>
    rw [List.append_assoc] at hclosings
    rw [← List.append_assoc]
    exact .refused (r :: before) q after (d :: devices) (by simp [hsplit]) (by simp [hlen])
      hrefusal hclosings

theorem openDevices_spec (request : String) (earlier : List (Device C T))
    (rs : List Reservation) (σ : E) :
    Outcome request earlier rs ((openDevices request earlier rs).transcript answer σ)
      ((openDevices request earlier rs).run answer σ).2 := by
  induction rs generalizing earlier σ with
  | nil =>
    have hnone : Outcome request earlier [] [] (.ok (earlier ++ [])) := .opened [] rfl
    rwa [List.append_nil] at hnone
  | cons r rest ih =>
    have hfirst := openDevice_spec answer request r σ
    rw [openDevices, transcript_bind, run_bind]
    cases hr : ((openDevice request r).run answer σ).2 with
    | ok d =>
      simp only [hr] at hfirst
      rw [hfirst]
      exact (ih (earlier ++ [d]) _).cons
    | error e =>
      simp only [hr] at hfirst
      dsimp only
      rw [transcript_bind, run_bind]
      have hclosings := closeDevices_spec answer earlier ((openDevice request r).run answer σ).1
      rw [← List.append_nil earlier] at hclosings
      have hend := Outcome.refused [] r rest [] rfl rfl hfirst hclosings
      simpa [openings, transcript] using hend

end

/-! ## Handles -/

/-- The handles that calls have opened. -/
def opened (calls : List (PoolExchange C T)) : List (Handle C T) :=
  calls.filterMap PoolExchange.opened?

/-- The handles that calls have closed. -/
def closed (calls : List (PoolExchange C T)) : List (Handle C T) :=
  calls.filterMap fun x => x.1.closed?

/-- The reservations that calls were made for. -/
def tried (calls : List (PoolExchange C T)) : List Reservation :=
  calls.filterMap PoolExchange.tried?

/-- The errors that calls to open something were refused with. -/
def refusals (calls : List (PoolExchange C T)) : List ProvisionError :=
  calls.filterMap PoolExchange.refused?

section
variable (calls others : List (PoolExchange C T))

@[simp] theorem opened_append : opened (calls ++ others) = opened calls ++ opened others :=
  List.filterMap_append

@[simp] theorem closed_append : closed (calls ++ others) = closed calls ++ closed others :=
  List.filterMap_append

@[simp] theorem tried_append : tried (calls ++ others) = tried calls ++ tried others :=
  List.filterMap_append

@[simp] theorem refusals_append :
    refusals (calls ++ others) = refusals calls ++ refusals others :=
  List.filterMap_append

end

section
variable {request : String} {r : Reservation} {rs : List Reservation} {ds : List (Device C T)}
  {calls : List (PoolExchange C T)} {e : ProvisionError}

theorem openings_cons (d : Device C T) :
    openings request (r :: rs) (d :: ds) = opening request r d ++ openings request rs ds := rfl

/-- Opening devices opens their handles, and closes none. -/
theorem handles_openings (request : String) (hlen : ds.length = rs.length) :
    opened (openings request rs ds) = ds.flatMap Device.handles ∧
      closed (openings request rs ds) = [] ∧ tried (openings request rs ds) = rs ∧
      refusals (openings request rs ds) = [] := by
  induction rs generalizing ds with
  | nil =>
    rw [List.length_eq_zero_iff.mp hlen]
    exact ⟨rfl, rfl, rfl, rfl⟩
  | cons r rest ih =>
    obtain ⟨d, ds, rfl⟩ := List.exists_cons_of_length_eq_add_one hlen
    obtain ⟨hopened, hclosed, htried, hrefusals⟩ := ih (by simpa using hlen)
    rw [openings_cons]
    simp only [opened_append, closed_append, tried_append, refusals_append, hopened, hclosed,
      htried, hrefusals]
    exact ⟨rfl, rfl, rfl, rfl⟩

/-- A refused reservation leaves nothing open that was opened for it. -/
theorem handles_refusal (h : Refusal request r calls e) :
    closed calls = opened calls ∧ tried calls = [r] ∧ refusals calls = [e] := by
  cases h <;> exact ⟨rfl, rfl, rfl⟩

/-- A call that closes a handle opens none. -/
theorem handles_of_closed? (x : PoolExchange C T) (h : x.1.closed?.isSome) :
    x.opened? = none ∧ x.tried? = none ∧ x.refused? = none := by
  obtain ⟨call, a⟩ := x
  cases call with
  | closeTransfer t => exact ⟨rfl, rfl, rfl⟩
  | closeConnection c => exact ⟨rfl, rfl, rfl⟩
  | exchange | connect | openTransfer | release | closeService | closeConnections
    | closeTransfers => cases h

/-- Closing devices closes their handles, each device's transfer agent before
its connection. -/
theorem handles_closings (h : calls.map Sigma.fst = ds.flatMap Device.closing) :
    closed calls = ds.flatMap (fun d => d.handles.reverse) ∧ opened calls = [] ∧
      tried calls = [] ∧ refusals calls = [] := by
  have hcloses : ∀ x ∈ calls, x.1.closed?.isSome := by
    intro x hx
    have hin : x.1 ∈ ds.flatMap Device.closing := h ▸ List.mem_map_of_mem hx
    obtain ⟨d, -, hd⟩ := List.mem_flatMap.mp hin
    simp only [Device.closing, List.mem_cons, List.not_mem_nil, or_false] at hd
    rcases hd with hd | hd <;> rw [hd] <;> rfl
  have hnone := fun x hx => handles_of_closed? x (hcloses x hx)
  refine ⟨?_, ?_, ?_, ?_⟩
  · have hview : closed calls = (calls.map Sigma.fst).filterMap PoolCall.closed? := by
      rw [List.filterMap_map]
      rfl
    rw [hview, h, List.filterMap_flatMap]
    rfl
  · exact List.filterMap_eq_nil_iff.mpr fun x hx => (hnone x hx).1
  · exact List.filterMap_eq_nil_iff.mpr fun x hx => (hnone x hx).2.1
  · exact List.filterMap_eq_nil_iff.mpr fun x hx => (hnone x hx).2.2

end

section
variable {request : String} {r : Reservation} {rs : List Reservation} {ds : List (Device C T)}
  {refusal closings : List (PoolExchange C T)} {e : ProvisionError}

/-- The handles that a failed attempt closed are those that it opened. -/
theorem closed_perm_opened (hlen : ds.length = rs.length) (hrefusal : Refusal request r refusal e)
    (hclosings : closings.map Sigma.fst = ds.flatMap Device.closing) :
    (closed (openings request rs ds ++ (refusal ++ closings))).Perm
      (opened (openings request rs ds ++ (refusal ++ closings))) := by
  obtain ⟨hopened, hclosed, -, -⟩ := handles_openings request hlen
  obtain ⟨hlone, -, -⟩ := handles_refusal hrefusal
  obtain ⟨hback, hnone, -, -⟩ := handles_closings hclosings
  simp only [closed_append, opened_append, hopened, hclosed, hlone, hback, hnone,
    List.nil_append, List.append_nil]
  -- the connection of the refused device is opened last and closed first
  refine List.perm_append_comm.trans (List.Perm.append_right _ ?_)
  exact List.Perm.flatMap_left _ fun d _ => List.reverse_perm _

end

/-- **Nothing is left open.** Whatever the services and factories answer: if
devices are obtained, there is one for each reservation that succeeded, in
order, each was opened by three calls, and there were no other calls. If not,
the error is that of the first reservation that was refused, no call was made
for a later one, and the handles that were closed are those that were opened,
each device's transfer agent before its connection; handles that are all
different are closed once each. -/
theorem obtain_leaves_nothing_open {E : Type} (answer : E → (q : PoolCall C T) → E × q.Answer)
    (σ : E) (s : Snapshot) :
    let calls := (obtain s).transcript answer σ
    match ((obtain s).run answer σ).2 with
    | .ok devices =>
      devices.length = (granted s).length ∧ calls = openings s.id (granted s) devices ∧
        tried calls = granted s ∧ refusals calls = [] ∧
        opened calls = devices.flatMap Device.handles ∧ closed calls = []
    | .error e =>
      ∃ before r after devices refusal closings,
        granted s = before ++ r :: after ∧ devices.length = before.length ∧
          calls = openings s.id before devices ++ (refusal ++ closings) ∧
          Refusal s.id r refusal e ∧
          closings.map Sigma.fst = devices.flatMap Device.closing ∧
          tried calls = before ++ [r] ∧ refusals calls = [e] ∧
          (closed calls).Perm (opened calls) ∧
          ((opened calls).Nodup → (closed calls).Nodup) := by
  intro calls
  have hspec := openDevices_spec answer s.id [] (granted s) σ
  change Outcome s.id [] (granted s) calls ((obtain s).run answer σ).2 at hspec
  generalize calls = calls, ((obtain s).run answer σ).2 = result at hspec ⊢
  cases hspec with
  | opened devices hlen =>
    obtain ⟨hopened, hclosed, htried, hrefusals⟩ := handles_openings s.id hlen
    exact ⟨hlen, rfl, htried, hrefusals, hopened, hclosed⟩
  | @refused before r after devices refusal e closings hsplit hlen hrefusal hclosings =>
    rw [List.nil_append] at hclosings
    obtain ⟨-, -, htried, hrefusals⟩ := handles_openings s.id hlen
    obtain ⟨-, hlast, hwhy⟩ := handles_refusal hrefusal
    obtain ⟨-, -, hnobody, hnothing⟩ := handles_closings hclosings
    have hperm := closed_perm_opened hlen hrefusal hclosings
    refine ⟨before, r, after, devices, refusal, closings, hsplit, hlen, rfl, hrefusal, hclosings,
      ?_, ?_, hperm, hperm.nodup_iff.mpr⟩
    · simp [htried, hlast, hnobody]
    · simp [hrefusals, hwhy, hnothing]

end PoolDialogue

end Fleet
