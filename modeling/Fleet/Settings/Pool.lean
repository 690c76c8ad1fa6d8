import Fleet.Settings.Environment

/-!
# Settings of a pool

How long a request may keep its hosts, whether and how often expired requests
are reaped, how often a waiting caller looks, how many hosts an expansion asks
for, and what is logged. `PoolSettings.validate` names the first field, in the
order of the structure, that makes no sense.
-/

namespace Fleet

/-- The settings of a pool. -/
structure PoolSettings where
  provisionTimeoutSecs : Nat := 3600
  expireProvisions : Bool := true
  reapIntervalMs : Nat := 1000
  pollIntervalMs : Nat := 250
  expansionPageSize : Nat := 20
  logFilter : String := "info"
  deriving DecidableEq, Repr, Inhabited

namespace PoolSettings

/-- How long a request may keep its hosts. -/
def provisionTimeout (s : PoolSettings) : Duration := Duration.ofSecs s.provisionTimeoutSecs

/-- How often expired requests are looked for. -/
def reapInterval (s : PoolSettings) : Duration := Duration.ofMillis s.reapIntervalMs

/-- How often a waiting caller looks. -/
def pollInterval (s : PoolSettings) : Duration := Duration.ofMillis s.pollIntervalMs

/-- What is wrong with a field, and where it is set. -/
def invalid (field problem : String) : SettingsError :=
  .invalid (s!"{field} {problem}: set DEVICE_POOL_{field.toUpper} or add {field} to " ++
    "device-pool.toml")

/-- The fields that must not be zero, in the order in which they are checked. -/
def counts (s : PoolSettings) : List (String × Nat) :=
  [("provision_timeout_secs", s.provisionTimeoutSecs), ("reap_interval_ms", s.reapIntervalMs),
   ("poll_interval_ms", s.pollIntervalMs), ("expansion_page_size", s.expansionPageSize)]

/-- The first field that makes no sense. -/
def fault? (s : PoolSettings) : Option SettingsError :=
  match s.counts.find? fun c => c.2 == 0 with
  | some (field, _) => some (invalid field "must be positive")
  | none =>
    if Text.allBlank s.logFilter then some (invalid "log_filter" "must not be empty") else none

/-- Accepts settings that make sense. -/
def validate (s : PoolSettings) : Except SettingsError PoolSettings :=
  match s.fault? with
  | some e => .error e
  | none => .ok s

/-- Settings that make sense have no zero count. -/
theorem counts_pos {s : PoolSettings} (h : s.validate = .ok s) {c : String × Nat}
    (hc : c ∈ s.counts) : 0 < c.2 := by
  have hnone : s.counts.find? (fun c => c.2 == 0) = none := by
    unfold validate fault? at h
    cases hfind : s.counts.find? fun c => c.2 == 0 with
    | none => rfl
    | some bad => simp [hfind] at h
  have hne : ¬(c.2 == 0) = true := List.find?_eq_none.mp hnone c hc
  exact Nat.pos_of_ne_zero (by simpa using hne)

/-- They let a request keep its hosts for some time. -/
theorem provisionTimeout_pos {s : PoolSettings} (h : s.validate = .ok s) :
    0 < s.provisionTimeout.nanos := by
  have hsecs : 0 < s.provisionTimeoutSecs := counts_pos h (.head _)
  exact Nat.mul_pos hsecs (by decide)

/-- The settings that the environment gives. -/
def load (env : Settings.Environment) : Except SettingsError PoolSettings := do
  let d : PoolSettings := {}
  let provisionTimeoutSecs ←
    env.number "DEVICE_POOL_PROVISION_TIMEOUT_SECS" d.provisionTimeoutSecs
  let reapIntervalMs ← env.number "DEVICE_POOL_REAP_INTERVAL_MS" d.reapIntervalMs
  let pollIntervalMs ← env.number "DEVICE_POOL_POLL_INTERVAL_MS" d.pollIntervalMs
  let expansionPageSize ← env.number "DEVICE_POOL_EXPANSION_PAGE_SIZE" d.expansionPageSize
  let logFilter ← env.text "DEVICE_POOL_LOG_FILTER" d.logFilter
  pure { provisionTimeoutSecs, expireProvisions := false, reapIntervalMs, pollIntervalMs,
         expansionPageSize, logFilter }

end PoolSettings

end Fleet
