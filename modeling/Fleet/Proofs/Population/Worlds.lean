import Fleet.Proofs.Engine.Supply
import Fleet.Simulation.Services
import Fleet.Simulation.Turn

/-!
# Streams in a world

A world hands over what its network sends: a log there records the changes that
it is told of and no others (`recorded_spread`), and an engine hears of them
(`engineAt?_spread`). The turn in which a pass hears from its directory changes
the network as `Network.grow` does (`network_receivePage`), and a new engine gets
its population and its hosts as `Supply.build` says (`supply_addEngine`).
-/

namespace Fleet.Simulation.World

open Network

/-- What a log has recorded. -/
def recorded (σ : World) (k : Nat) : Option (List Change) := σ.logs[k]?.map (·.changes)

@[simp] theorem network_wake (σ : World) (a : Actor) : (σ.wake a).network = σ.network := by
  unfold wake
  split
  · split
    · rfl
    · split <;> rfl
  · split <;> rfl

@[simp] theorem logs_wake (σ : World) (a : Actor) : (σ.wake a).logs = σ.logs := by
  unfold wake
  split
  · split
    · rfl
    · split <;> rfl
  · split <;> rfl

theorem changeEngine_keeps (σ : World) (n : Nat) (f : Engine → Engine) :
    (σ.changeEngine n f).network = σ.network ∧ (σ.changeEngine n f).logs = σ.logs := by
  unfold changeEngine onEngine
  split
  · exact ⟨rfl, rfl⟩
  · dsimp only
    split <;> simp

/-- Hands one change over. -/
def hand (σ : World) (d : Delivery) : World :=
  match d.subscriber with
  | .log k => σ.recordChange k d.change
  | .engine n => σ.changeEngine n fun e => e.applyChange d.change
  | .follower _ => σ

theorem network_hand (σ : World) (d : Delivery) : (σ.hand d).network = σ.network := by
  unfold hand
  split
  · rfl
  · exact (σ.changeEngine_keeps ..).1
  · rfl

theorem recorded_hand (σ : World) (d : Delivery) (k : Nat) :
    (σ.hand d).recorded k = (σ.recorded k).map (· ++ told (.log k) [d]) := by
  obtain ⟨s, c⟩ := d
  unfold recorded
  cases s with
  | log j =>
    show ((σ.logs.modify j _)[k]?).map _ = _
    rw [Array.getElem?_modify]
    by_cases hjk : j = k
    · subst hjk
      cases σ.logs[j]? <;> simp [told]
    · cases σ.logs[k]? <;> simp [told, hjk]
  | engine n =>
    show ((σ.changeEngine n _).logs[k]?).map _ = _
    rw [(σ.changeEngine_keeps ..).2]
    cases σ.logs[k]? <;> simp [told]
  | follower n =>
    show (σ.logs[k]?).map _ = _
    cases σ.logs[k]? <;> simp [told]

theorem network_deliver (σ : World) (ds : List Delivery) : (σ.deliver ds).network = σ.network := by
  induction ds generalizing σ with
  | nil => rfl
  | cons d rest ih => exact (ih (σ.hand d)).trans (σ.network_hand d)

theorem recorded_deliver (σ : World) (ds : List Delivery) (k : Nat) :
    (σ.deliver ds).recorded k = (σ.recorded k).map (· ++ told (.log k) ds) := by
  induction ds generalizing σ with
  | nil => simp [deliver]
  | cons d rest ih =>
    have hrest : (σ.deliver (d :: rest)).recorded k = _ := ih (σ.hand d)
    rw [hrest, recorded_hand]
    have htold : told (.log k) (d :: rest) = told (.log k) [d] ++ told (.log k) rest :=
      told_append (.log k) [d] rest
    rw [htold]
    cases σ.recorded k <;> simp

theorem network_spread (σ : World) (next : Network × List Delivery) :
    (σ.spread next).network = next.1 := network_deliver _ _

theorem recorded_spread (σ : World) (next : Network × List Delivery) (k : Nat) :
    (σ.spread next).recorded k = (σ.recorded k).map (· ++ told (.log k) next.2) :=
  recorded_deliver { σ with network := next.1 } next.2 k

/-! ## Engines -/

/-- The engine of a number. -/
def engineAt? (σ : World) (n : Nat) : Option Engine := σ.engines[n]?.map (·.engine)

@[simp] theorem engines_wake (σ : World) (a : Actor) : (σ.wake a).engines = σ.engines := by
  unfold wake
  split
  · split
    · rfl
    · split <;> rfl
  · split <;> rfl

@[simp] theorem engineAt?_wake (σ : World) (a : Actor) (n : Nat) :
    (σ.wake a).engineAt? n = σ.engineAt? n := by
  unfold engineAt?
  rw [engines_wake]

theorem engineAt?_changeEngine (σ : World) (k n : Nat) (f : Engine → Engine) :
    (σ.changeEngine k f).engineAt? n =
      if k = n then (σ.engineAt? n).map f else σ.engineAt? n := by
  unfold changeEngine onEngine engineAt?
  cases hk : σ.engines[k]? with
  | none =>
    by_cases hkn : k = n
    · subst hkn
      simp [hk]
    · rw [if_neg hkn]
  | some entry =>
    let changed : EngineEntry := { entry with engine := f entry.engine }
    have hset : ∀ τ : World, τ.engines = σ.engines.setIfInBounds k changed →
        τ.engines[n]?.map (·.engine) =
          if k = n then (σ.engines[n]?.map (·.engine)).map f else σ.engines[n]?.map (·.engine) := by
      intro τ hτ
      rw [hτ, Array.getElem?_setIfInBounds]
      by_cases hkn : k = n
      · subst hkn
        obtain ⟨hlt, -⟩ := Array.getElem?_eq_some_iff.mp hk
        rw [if_pos rfl, if_pos rfl, if_pos hlt, hk]
        rfl
      · rw [if_neg hkn, if_neg hkn]
    dsimp only
    split
    · exact hset _ (engines_wake ..)
    · exact hset _ rfl

theorem engineAt?_hand (σ : World) (d : Delivery) (n : Nat) :
    (σ.hand d).engineAt? n = (σ.engineAt? n).map (·.hear (told (.engine n) [d])) := by
  obtain ⟨s, c⟩ := d
  have hquiet (hs : s ≠ .engine n) : told (.engine n) [⟨s, c⟩] = [] := by simp [told, hs]
  have hsame : (σ.engineAt? n).map (·.hear []) = σ.engineAt? n := by
    cases σ.engineAt? n <;> rfl
  cases s with
  | engine k =>
    show (σ.changeEngine k _).engineAt? n = _
    rw [engineAt?_changeEngine]
    by_cases hkn : k = n
    · subst hkn
      rw [if_pos rfl]
      simp [told, Engine.hear]
    · rw [if_neg hkn, hquiet (by simpa using hkn), hsame]
  | log k | follower k =>
    rw [hquiet (by simp), hsame]
    rfl

theorem hear_append (σ : Engine) (cs ds : List Change) :
    σ.hear (cs ++ ds) = (σ.hear cs).hear ds :=
  List.foldl_append

theorem engineAt?_deliver (σ : World) (ds : List Delivery) (n : Nat) :
    (σ.deliver ds).engineAt? n = (σ.engineAt? n).map (·.hear (told (.engine n) ds)) := by
  induction ds generalizing σ with
  | nil => cases h : σ.engineAt? n <;> simp [deliver, h, Engine.hear]
  | cons d rest ih =>
    have hrest : (σ.deliver (d :: rest)).engineAt? n = _ := ih (σ.hand d)
    have htold : told (.engine n) (d :: rest) = told (.engine n) [d] ++ told (.engine n) rest :=
      told_append (.engine n) [d] rest
    rw [hrest, engineAt?_hand, htold, Option.map_map]
    congr 1
    funext e
    exact (hear_append e _ _).symm

/-- An engine hears what it is told of, in order. -/
theorem engineAt?_spread (σ : World) (next : Network × List Delivery) (n : Nat) :
    (σ.spread next).engineAt? n = (σ.engineAt? n).map (·.hear (told (.engine n) next.2)) :=
  engineAt?_deliver { σ with network := next.1 } next.2 n

/-- A new engine, its population and its subscription are as they are built. -/
theorem supply_addEngine (σ : World) (name : String) (d : EngineDraft) (below : Option Nat) :
    let built := Supply.build σ.network d below σ.engines.size
    (σ.addEngine name d below).network = built.network ∧
      (σ.addEngine name d below).engineAt? σ.engines.size = some built.engine := by
  intro built
  have hpopulation : σ.enginePopulation d.hosts below =
      ({ σ with network := (σ.network.step (Supply.origin d below)).1 },
        σ.network.populations.size) := by
    cases below with
    | none => rfl
    | some u =>
      have hnumber : (σ.network.addLayered d.hosts u).2 = σ.network.populations.size :=
        size_subscribe ..
      show (_, (σ.network.addLayered d.hosts u).2) = _
      rw [hnumber]
      rfl
  have hpushed : ∀ (engines : Array EngineEntry) (entry : EngineEntry),
      (engines.push entry)[engines.size]?.map (·.engine) = some entry.engine := by
    intro engines entry
    rw [Array.getElem?_push_size]
    rfl
  unfold addEngine
  rw [hpopulation]
  dsimp only
  split
  · rw [network_wake, network_wake, engineAt?_wake, engineAt?_wake]
    exact ⟨rfl, hpushed σ.engines _⟩
  · rw [network_wake, engineAt?_wake]
    exact ⟨rfl, hpushed σ.engines _⟩

/-! ## Growth -/

theorem network_answerAskers (σ : World) (askers : List Asker)
    (r : Except PopulationError PassSummary) : (σ.answerAskers askers r).network = σ.network := by
  unfold answerAskers
  generalize askers.filterMap id = numbers
  induction numbers generalizing σ with
  | nil => rfl
  | cons n rest ih =>
    rw [List.foldl_cons, ih]
    split
    · simp [setCall]
    · rfl

theorem network_elim (σ : World) (outcome : Option Growth.Outcome) :
    (outcome.elim σ fun o => σ.answerAskers [o.asker] o.result).network = σ.network := by
  cases outcome with
  | none => rfl
  | some o => exact network_answerAskers ..

theorem network_receivePage {σ : World} {p : Nat} {g : Growth}
    (h : σ.network.growth? p = some g) (answer : Except PopulationError Page) :
    (σ.receivePage p g answer).network = (σ.network.grow p (.answer answer)).1 := by
  unfold receivePage
  dsimp only
  rw [network_elim, network_spread]
  unfold Network.grow
  rw [h]
  rfl

end Fleet.Simulation.World
