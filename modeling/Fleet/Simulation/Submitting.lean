import Fleet.Simulation.Guarding
import Fleet.Simulation.Serving

/-!
# Submissions under way

A submission takes a request through the locks of a service, hands it to the
service, and leaves the locks again. It may have to wait for a lock, and for a
scripted service that takes its time.

A submission that is broken off leaves its locks and stops waiting for others;
one that is being worked on stays counted by its service.
-/

namespace Fleet.Simulation.World

/-- Where a submission stands after a turn: on its way, or over. -/
abbrev SubmissionProgress := Submission ⊕ Except ProvisionError Snapshot

/-- Ends a submission: its locks are left. -/
def endSubmission (σ : World) (s : Submission) (answer : Except ProvisionError Snapshot) :
    World × SubmissionProgress :=
  (σ.leaveAll s.held, .inr answer)

/-- Hands a request to the service behind all locks. -/
def submitToBase (σ : World) (s : Submission) : World × SubmissionProgress :=
  match s.base with
  | .engine n =>
    let (σ, answer) := σ.onEngine n (.error (.queueClosed s.request.id)) fun e =>
      e.submit σ.now s.request
    σ.endSubmission s answer
  | .scripted n =>
    let (σ, work) := σ.onScripted n ⟨0⟩ fun q => (q.beginProvision s.request, q.work)
    if work.nanos = 0 then
      let (σ, answer) := σ.onScripted n (.error (.notFound s.request.id)) fun q =>
        q.endProvision s.request
      σ.endSubmission s answer
    else
      let (σ, a) := σ.alarmAfter work
      (σ, .inl { s with layers := [], stage := .working n a })

/-- One turn of a submission that waits for a lock: whether it is inside now,
still waiting, or refused. -/
def lockTurn (σ : World) (s : Submission) (p : LockPolicy) (c : LockedCall) :
    World × Except ProvisionError LockedCall :=
  match σ.locks[p.locks]? with
  | some (.table L) =>
    let (σ, stamp) := σ.tick
    let (L, c) := c.turn L σ.now stamp
    let σ := σ.setLocks p.locks L
    match c.phase with
    | .inside number => (σ.wakeKeeper p.locks number, .ok c)
    | .refused =>
      (σ, .error (.locking s.request.id (.timeout c.acquisition.request.id (p.limit.getD ⟨0⟩))))
    | _ => (σ, .ok c)
  | some (.broken e) => (σ, .error (.locking s.request.id e))
  | none => (σ, .error (.locking s.request.id (.interrupted c.acquisition.request.id)))

/-- A call for the lock of a policy. -/
def startLock (σ : World) (n : Nat) (s : Submission) (p : LockPolicy) : World × LockedCall :=
  let (σ, holder) := σ.freshHolder
  let (σ, stamp) := σ.tick
  (σ, { acquisition := Acquisition.start n ⟨p.lockId s.request.id, holder, p.ttl⟩ p.limit σ.now
          stamp })

/-- Takes a submission through the locks ahead of it as far as it gets. -/
def passLocks (σ : World) (n : Nat) (s : Submission) : List LockPolicy → World × SubmissionProgress
  | [] => σ.submitToBase s
  | p :: rest =>
    let (σ, c) := σ.startLock n s p
    match σ.lockTurn s p c with
    | (σ, .error e) => σ.endSubmission s (.error e)
    | (σ, .ok c) =>
      match c.phase with
      | .inside _ => σ.passLocks n { s with held := (p.locks, c) :: s.held } rest
      | _ => (σ, .inl { s with layers := rest, stage := .locking p c })

/-- One turn of a submission. -/
def submissionTurn (σ : World) (n : Nat) (s : Submission) : World × SubmissionProgress :=
  match s.stage with
  | .entering => σ.passLocks n s s.layers
  | .locking p c =>
    match σ.lockTurn s p c with
    | (σ, .error e) => σ.endSubmission s (.error e)
    | (σ, .ok c) =>
      match c.phase with
      | .inside _ => σ.passLocks n { s with held := (p.locks, c) :: s.held } s.layers
      | _ => (σ, .inl { s with stage := .locking p c })
  | .working k a =>
    if a.rings σ.now then
      let (σ, answer) := σ.onScripted k (.error (.notFound s.request.id)) fun q =>
        q.endProvision s.request
      σ.endSubmission s answer
    else (σ, .inl s)

/-- Breaks a submission off. -/
def dropSubmission (σ : World) (s : Submission) : World :=
  let σ := match s.stage with
    | .locking p c => σ.leaveLock p.locks c
    | _ => σ
  σ.leaveAll s.held

end Fleet.Simulation.World
