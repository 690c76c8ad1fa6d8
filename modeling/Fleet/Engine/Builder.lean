import Fleet.Engine.Basic
import Fleet.Settings.Pool

/-!
# Building engines

The draft of an engine holds what it is built from: its own hosts, how long a
request may keep its hosts, and whether and how often expired requests are
looked for. An engine needs a host of its own or a population to draw on, and
an executor to run its worker and its reaper.
-/

namespace Fleet

/-- An engine that is not built yet. -/
structure EngineDraft where
  hosts : List Host := []
  term : Duration := Engine.defaultTerm
  expires : Bool := true
  reapInterval : Duration := Engine.defaultReapInterval

namespace EngineDraft

/-- Takes over the settings of a pool. -/
def withSettings (d : EngineDraft) (s : PoolSettings) : EngineDraft :=
  { d with term := s.provisionTimeout, expires := s.expireProvisions,
           reapInterval := s.reapInterval }

/-- Why no engine can be built, given whether there is a population to draw on
and whether there is an executor. -/
def fault? (d : EngineDraft) (population executor : Bool) : Option ProvisionError :=
  if d.hosts.isEmpty && !population then some .emptyHosts
  else if executor then none
  else some (.runtime noExecutor)

/-- The engine over a population with those members. -/
def engine (d : EngineDraft) (members : List Host) : Engine :=
  { ledger := Ledger.ofHosts members, term := d.term,
    reaper := if d.expires then some (Reaper.ofInterval d.reapInterval) else none }

end EngineDraft

end Fleet
