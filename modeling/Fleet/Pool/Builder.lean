import Fleet.Error
import Fleet.Settings.Pool

/-!
# Building pools

A pool is put together from four components: a provisioning service, a
reservation service, a connection factory and a transfer agent factory. The
draft of a pool holds those that are known so far; `PoolDraft.build` names the
first that is missing. What the components are is the parameters' affair.
-/

namespace Fleet

/-- A pool of devices. -/
structure Pool (S R F : Type) where
  service : S
  reservations : R
  connections : F
  transfers : F
  /-- How often a waiting caller looks. -/
  interval : Duration

/-- A pool as far as it is put together. -/
structure PoolDraft (S R F : Type) where
  service : Option S := none
  reservations : Option R := none
  connections : Option F := none
  transfers : Option F := none
  interval : Duration := Duration.ofMillis 250

namespace PoolDraft

variable {S R F : Type}

/-- Takes over the settings of a pool. -/
def withSettings (d : PoolDraft S R F) (s : PoolSettings) : PoolDraft S R F :=
  { d with interval := s.pollInterval }

/-- A component that has to be there. -/
def require {α : Type} (component : String) : Option α → Except ProvisionError α
  | some a => .ok a
  | none => .error (.settings s!"device pool needs a {component}")

/-- Puts the pool together. -/
def build (d : PoolDraft S R F) : Except ProvisionError (Pool S R F) := do
  let service ← require "provision service" d.service
  let reservations ← require "reservation service" d.reservations
  let connections ← require "connection factory" d.connections
  let transfers ← require "transfer agent factory" d.transfers
  pure { service, reservations, connections, transfers, interval := d.interval }

end PoolDraft

end Fleet
