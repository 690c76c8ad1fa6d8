/-!
# Statuses

One status type serves requests and the single reservations of a request.

* **end** — `Status.isTerminal` names the statuses that a request ends in;
* **summary** — `Status.summarize` reads the statuses of the reservations from
  the left and stops at the first that decides.
-/

namespace Fleet

/-- Where a request, or one reservation of it, stands. -/
inductive Status
  | requested
  | provisioning
  | canceling
  | canceled
  | succeeded
  | failed
  deriving DecidableEq, Repr, Inhabited

namespace Status

/-- Every status, in the order of a request's life. -/
def all : List Status := [requested, provisioning, canceling, canceled, succeeded, failed]

/-- The statuses in which a request ends. -/
def isTerminal : Status → Bool
  | succeeded | failed | canceled => true
  | requested | provisioning | canceling => false

/-- The name of a status on the wire. -/
def name : Status → String
  | requested => "REQUESTED"
  | provisioning => "PROVISIONING"
  | canceling => "CANCELING"
  | canceled => "CANCELED"
  | succeeded => "SUCCEEDED"
  | failed => "FAILED"

/-- The status of a name. -/
def ofName? (text : String) : Option Status := all.find? fun s => s.name == text

theorem ofName?_name (s : Status) : ofName? s.name = some s := by cases s <;> decide

/-- The summary of reservations that come after ones which have ended well
with `last`. -/
def summarizeFrom (last : Status) : List Status → Status
  | [] => last
  | s :: rest =>
    if !s.isTerminal then provisioning
    else if s = failed then failed
    else summarizeFrom s rest

/-- The status of a request as its reservations tell it: the first reservation
that has not ended, or has failed, decides; if there is none, the last one
does; without reservations the request is still only requested. -/
def summarize (statuses : List Status) : Status := summarizeFrom requested statuses

end Status

end Fleet
