import Fleet.Lock.LockedCall
import Fleet.Pool.Builder
import Fleet.Pool.Wait
import Fleet.Simulation.Factory
import Fleet.Simulation.Outcome

/-!
# Calls of a simulation

The services of a simulation are engines and scripted services, each behind
any number of locks. A *task* is what a caller wants; a *call* is a task under
way, and its state is what the caller waits for.

* **submissions** — a request goes through the locks of a service from the
  outermost to the innermost, then to the service itself; when the answer is
  there, or the caller goes away, the locks are left from the innermost to the
  outermost;
* **numbers** — engines, scripted services, lock services, factories,
  populations and calls are referred to by number.
-/

namespace Fleet.Simulation

/-- What answers in the end. -/
inductive Base
  | engine (n : Nat)
  | scripted (n : Nat)
  deriving DecidableEq, Repr

/-- How requests are locked on the way to a service. -/
structure LockPolicy where
  /-- The number of the lock service. -/
  locks : Nat
  /-- The name of the lock, where it is not the request's. -/
  template : Option String := none
  limit : Option Duration := none
  ttl : Duration := LockRequest.defaultTtl
  deriving DecidableEq, Repr

/-- What stands for the name of the request in a template. -/
def LockPolicy.placeholder : String := "\x7bid\x7d"

/-- The name of the lock for a request. -/
def LockPolicy.lockId (p : LockPolicy) (requestId : String) : String :=
  p.template.elim requestId fun t => t.replace placeholder requestId

/-- A provisioning service behind locks, the outermost first. -/
structure Service where
  layers : List LockPolicy := []
  base : Base
  deriving DecidableEq, Repr

/-- A pool of a simulation. -/
abbrev PoolEntry := Pool Service Base Nat

/-- A device of a simulation. -/
abbrev OpenDevice := Device Handle Handle

/-- What a caller wants that may have to wait. -/
inductive Task
  | sleep (time : Duration)
  | provision (service : Service) (id : String) (amount : Nat)
  /-- Enter a request, wait for it, and keep its devices under a group's name. -/
  | provisionWait (pool : PoolEntry) (id : String) (amount : Nat) (limit : Duration)
      (group : String)
  /-- Ask for the status of a request until it has ended. -/
  | waitTerminal (base : Base) (id : String) (limit : Duration)
  /-- Take a lock, and keep its guard under a name. -/
  | acquire (locks : Nat) (request : LockRequest) (limit : Option Duration) (guardName : String)
  | grow (population : Nat)

/-- What a submission is at. -/
inductive Stage
  | entering
  | locking (policy : LockPolicy) (call : LockedCall)
  | working (service : Nat) (alarm : Alarm)

/-- A request on its way to a service. -/
structure Submission where
  request : Request
  base : Base
  /-- The locks that are still ahead, the outermost first. -/
  layers : List LockPolicy
  /-- The locks it holds, with the numbers of their services, the innermost
  first. -/
  held : List (Nat × LockedCall) := []
  stage : Stage := .entering

/-- A request on its way to a service. -/
def Submission.start (s : Service) (r : Request) : Submission :=
  { request := r, base := s.base, layers := s.layers }

/-- What a caller who waits for a request wants besides. -/
structure WaitTicket where
  pool : PoolEntry
  limit : Duration
  group : String

/-- A task under way. -/
inductive Call
  | starting (task : Task)
  | sleeping (alarm : Alarm)
  | submitting (submission : Submission)
  /-- It enters a request that it is going to wait for. -/
  | entering (submission : Submission) (ticket : WaitTicket)
  | waiting (wait : Wait) (ticket : WaitTicket)
  | polling (base : Base) (id : String) (deadline : Instant) (alarm : Alarm)
  | acquiring (locks : Nat) (acquisition : Acquisition) (guardName : String)
  /-- It waits for the outcome of an expansion pass. -/
  | growing (population : Nat) (outcome : Option (Except PopulationError PassSummary))

/-- The services that a pool refers to. -/
def poolBases (p : PoolEntry) : List Base := [p.service.base, p.reservations]

namespace Task

/-- The services that a task refers to. -/
def bases : Task → List Base
  | provision service .. => [service.base]
  | provisionWait pool .. => poolBases pool
  | waitTerminal base .. => [base]
  | _ => []

/-- How long the task is waited for; a sleep is slept to its end. -/
def patience? : Task → Option Duration
  | sleep _ => none
  | _ => some (Duration.ofSecs (10 * 60 * 60))

end Task

/-- The alarm of a submission that waits for itself. -/
def Submission.alarms (s : Submission) : List Alarm :=
  match s.stage with
  | .entering => []
  | .locking _ c => c.acquisition.limit.toList
  | .working _ a => [a]

namespace Call

/-- The alarms that a call waits for, apart from those of the locks it waits
for. -/
def alarms : Call → List Alarm
  | sleeping a => [a]
  | submitting s => s.alarms
  | entering s _ => s.alarms
  | waiting w _ => [w.limit]
  | polling _ _ _ a => [a]
  | acquiring _ a _ => a.limit.toList
  | starting _ | growing .. => []

/-- The services that a call refers to. -/
def bases : Call → List Base
  | starting t => t.bases
  | submitting s => [s.base]
  | entering s t => s.base :: poolBases t.pool
  | waiting _ t => poolBases t.pool
  | polling b .. => [b]
  | _ => []

/-- The populations that a call refers to. -/
def populations : Call → List Nat
  | starting (.grow p) => [p]
  | growing p _ => [p]
  | _ => []

end Call

end Fleet.Simulation
