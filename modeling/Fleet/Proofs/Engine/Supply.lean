import Fleet.Proofs.Engine.Order
import Fleet.Proofs.Engine.WakeUps
import Fleet.Proofs.Ledger.Directory
import Fleet.Proofs.Population.Streams

/-!
# Engines and their supply

An engine draws on a population of its own, which is a fixed set or is layered
over another population of any kind, and follows the changes that it is told of.
A run is a list of events in any order: something happens in the network of
populations, and the engine hears what it is told of that; or the engine is
operated on, or its worker or its reaper moves.

* **following** — after every event the hosts of the directory are members of
  the engine's population (`supplied_step`, `supplied_run`);
* **ghosts** — so a device that no member carries is not free, is handed out to
  nobody, cannot be exchanged, and does not come free (`no_ghost_hosts`), also
  where it was leased when its host left, or its host was replaced by another
  version.
-/

namespace Fleet

open Network

namespace Engine

/-- The change of the population that an event is. -/
def Event.change? : Event → Option Change
  | .change c => some c
  | .submit _ _ | .release _ | .releaseDevice _ | .releaseExpired _ | .extend _ | .stop | .work
  | .reap _ _ => none

/-- The engine after it heard of changes in order. -/
def hear (σ : Engine) (changes : List Change) : Engine := changes.foldl applyChange σ

section
variable {σ τ : Engine}

theorem directory_move {asks : Bool} (hm : Move σ τ asks) :
    τ.ledger.directory = σ.ledger.directory := by
  cases hm with
  | leave | skip | abandon | park | resume => rfl
  | takeUp => exact Ledger.directory_setSnapshot ..
  | @grant r n hinted s h rest =>
    exact Ledger.directory_setSnapshot { σ.ledger with free := rest } ..

/-- Only a change of the population touches the directory. -/
theorem directory_step {e : Event} (he : e.change? = none) :
    (σ.step e).ledger.directory = σ.ledger.directory := by
  cases e with
  | submit now r =>
    by_cases h : σ.Admits r
    · rw [step_submit h]
      rfl
    · rw [step_submit_of_not h]
  | release id => exact σ.ledger.directory_release id
  | releaseDevice d => exact σ.ledger.directory_releaseDevice d
  | releaseExpired now => exact σ.ledger.directory_releaseAll _
  | extend id =>
    show ((σ.extend? id).elim σ Prod.fst).ledger.directory = _
    rw [extend_eq]
    cases hx : σ.ledger.extend? id σ.term with
    | none => rfl
    | some p => exact Ledger.directory_extend? hx
  | change c => cases he
  | stop => rfl
  | work =>
    rcases σ.step_work with ⟨-, heq⟩ | hm
    · rw [heq]
    · exact directory_move hm
  | reap now stamp =>
    obtain ⟨reaper, looks, h⟩ := σ.reaperTurn_eq now stamp
    show (σ.reaperTurn now stamp).ledger.directory = _
    rw [h]
    split
    · exact σ.ledger.directory_releaseAll _
    · rfl

/-- An engine keeps to the members while it hears of their changes. -/
theorem within_hear {hosts : List Host} (hL : σ.ledger.Sound) (h : σ.ledger.Within hosts)
    (changes : List Change) :
    (σ.hear changes).ledger.Sound ∧
      (σ.hear changes).ledger.Within (Change.replay hosts changes) := by
  induction changes generalizing σ hosts with
  | nil => exact ⟨hL, h⟩
  | cons c rest ih =>
    have hfirst : (σ.applyChange c).ledger.Within (Change.replayOne hosts c) :=
      h.applyChange hL.keyed c
    exact ih (σ := σ.applyChange c) (hL.applyChange c) hfirst

end

end Engine

/-- An engine, the network that it hears from, and its place there. -/
structure Supply where
  network : Network
  engine : Engine
  /-- The number of the engine's population. -/
  population : Nat
  /-- The number of the engine among the listeners. -/
  listener : Nat
  /-- The number of its subscription. -/
  subscription : Nat

namespace Supply

/-- What can happen. -/
inductive Event
  | network (event : Network.Event)
  -- the engine hears of changes through the network only
  | engine (event : Engine.Event) (own : event.change? = none)

/-- The hosts of the engine's population. -/
def members (σ : Supply) : List Host := (σ.network.members σ.population).hosts

/-- The event by which the population of an engine comes about: it is a fixed
set, or is layered over another population. -/
def origin (d : EngineDraft) (below : Option Nat) : Network.Event :=
  below.elim (.addByHand d.hosts) (.addLayered d.hosts)

/-- Builds an engine: its population is made, the engine starts with the hosts
that are there, and subscribes. -/
def build (network : Network) (d : EngineDraft) (below : Option Nat) (listener : Nat) : Supply :=
  let population := network.populations.size
  let (network, _) := network.step (origin d below)
  let (linked, subscription) := network.subscribe population (.engine listener)
  { network := linked, engine := d.engine (network.members population).hosts,
    population, listener, subscription }

/-- The engine and its network after an event. -/
def step (σ : Supply) : Event → Supply
  | .network e =>
    let (network, sent) := σ.network.step e
    { σ with network, engine := σ.engine.hear (told (.engine σ.listener) sent) }
  | .engine e _ => { σ with engine := σ.engine.step e }

/-- The engine and its network after events in order. -/
def run (σ : Supply) (es : List Event) : Supply := es.foldl step σ

/-! ## Following -/

/-- The engine hears of every change of its population, and its directory holds
members only. -/
structure Supplied (σ : Supply) : Prop where
  layered : σ.network.Layered
  attached : σ.network.Attached σ.population σ.subscription (.engine σ.listener)
  sound : σ.engine.ledger.Sound
  within : σ.engine.ledger.Within σ.members

theorem size_origin (network : Network) (d : EngineDraft) (below : Option Nat) :
    network.populations.size < (network.step (origin d below)).1.populations.size := by
  cases below with
  | none =>
    show _ < (network.populations.push _).size
    rw [Array.size_push]
    exact Nat.lt_succ_self _
  | some u =>
    show _ < ((network.subscribe u _).1.populations.push _).size
    rw [Array.size_push, size_subscribe]
    exact Nat.lt_succ_self _

theorem supplied_build {network : Network} (hlayered : network.Layered) (d : EngineDraft)
    (below : Option Nat) {k : Nat}
    (hfresh : ∀ n, network.subscriptions (.engine k) n = []) :
    (build network d below k).Supplied := by
  have hone : ∀ n, (network.step (origin d below)).1.subscriptions (.engine k) n = [] := by
    intro n
    have hquiet := subscriptions_step (σ := network) (l := .engine k) (e := origin d below)
      (by cases below <;> exact fun _ h => by cases h)
      (by cases below <;> exact fun _ _ h => by cases h) n
    exact hquiet.trans (hfresh n)
  refine ⟨?_, attached_subscribe (size_origin network d below) hone,
    Ledger.sound_ofHosts _, ?_⟩
  · exact (hlayered.step (origin d below)).step (.subscribe _ (.engine k))
  · show (Ledger.ofHosts _).Within (members _)
    unfold members build
    dsimp only
    rw [members_subscribe]
    exact Ledger.within_ofHosts _

section
variable {σ : Supply} {e : Event}

theorem supplied_step (h : σ.Supplied)
    (hown : ∀ n, e ≠ .network (.subscribe n (.engine σ.listener)))
    (hstays : e ≠ .network (.unsubscribe σ.population σ.subscription)) :
    (σ.step e).Supplied := by
  cases e with
  | network e =>
    have hattached : (σ.network.step e).1.Attached σ.population σ.subscription
        (.engine σ.listener) :=
      Attached.step (l := .engine σ.listener) h.attached (fun n heq => hown n (by rw [heq]))
        fun heq => hstays (by rw [heq])
    have hcarries := carries_step (l := .engine σ.listener) h.layered h.attached e
    obtain ⟨hsound, hwithin⟩ :=
      Engine.within_hear h.sound h.within (told (.engine σ.listener) (σ.network.step e).2)
    exact ⟨h.layered.step e, hattached, hsound,
      hwithin.mono fun q hq => (hcarries.reaches q).mp hq⟩
  | engine e own =>
    exact ⟨h.layered, h.attached, Engine.sound_step σ.engine e h.sound,
      h.within.congr (Engine.directory_step own)⟩

theorem step_keeps (σ : Supply) (e : Event) :
    (σ.step e).population = σ.population ∧ (σ.step e).listener = σ.listener ∧
      (σ.step e).subscription = σ.subscription := by
  cases e with
  | network | engine => exact ⟨rfl, rfl, rfl⟩

theorem supplied_run {es : List Event} (h : σ.Supplied)
    (hown : ∀ n, .network (.subscribe n (.engine σ.listener)) ∉ es)
    (hstays : .network (.unsubscribe σ.population σ.subscription) ∉ es) :
    (σ.run es).Supplied := by
  induction es generalizing σ with
  | nil => exact h
  | cons e rest ih =>
    obtain ⟨hpopulation, hlistener, hsubscription⟩ := σ.step_keeps e
    have hfirst : (σ.step e).Supplied := supplied_step h
      (fun n heq => hown n (heq ▸ List.mem_cons_self)) fun heq => hstays (heq ▸ List.mem_cons_self)
    refine ih hfirst (fun n hin => ?_) fun hin => ?_
    · rw [hlistener] at hin
      exact hown n (List.mem_cons_of_mem e hin)
    · rw [hpopulation, hsubscription] at hin
      exact hstays (List.mem_cons_of_mem e hin)

end

/-! ## Ghosts -/

theorem exchange_of_unknown {σ : Engine} {device : String}
    (hd : σ.ledger.directory.get? device = none) {r : Reservation} (hr : r.deviceId = device) :
    σ.exchange r = .error (.hostNotFound device) := by
  have hnone : σ.ledger.exchange? r.deviceId = none := by
    rw [hr]
    exact hd
  unfold Engine.exchange
  rw [hnone, hr]

/-- **No ghost hosts.** However an engine came about and whatever happened in
the network and to the engine since, every host of its directory is a member of
its population. So a device that no member carries is not free, is handed out to
nobody, is not found when it is exchanged, and does not come free, neither with
a request that is given back nor by itself. -/
theorem no_ghost_hosts (es₀ : List Network.Event) (d : EngineDraft) (below : Option Nat) (k : Nat)
    (es : List Event) (hfresh : ∀ n, Network.Event.subscribe n (.engine k) ∉ es₀)
    (hown : ∀ n, .network (.subscribe n (.engine k)) ∉ es)
    (hstays : let σ := build (Network.run {} es₀) d below k
      .network (.unsubscribe σ.population σ.subscription) ∉ es) :
    let σ := (build (Network.run {} es₀) d below k).run es
    (∀ x h, σ.engine.ledger.directory.get? x = some h → h ∈ σ.members) ∧
      ∀ device, (∀ h ∈ σ.members, h.deviceId ≠ device) →
        (∀ h ∈ σ.engine.ledger.free, h.deviceId ≠ device) ∧
        (∀ e id h, σ.engine.hands? e = some (id, h) → h.deviceId ≠ device) ∧
        (∀ r : Reservation, r.deviceId = device →
          σ.engine.exchange r = .error (.hostNotFound device)) ∧
        (∀ id s, σ.engine.ledger.describe? id = some s →
          (σ.engine.release id).2 = (s.devices.filter fun x =>
            x ≠ device ∧ σ.engine.ledger.directory.has x).length ∧
          ∀ h ∈ (σ.engine.release id).1.ledger.free, h.deviceId ≠ device) ∧
        (σ.engine.releaseDevice device).2 = false ∧
        (σ.engine.releaseDevice device).1.ledger.free = σ.engine.ledger.free := by
  intro σ
  have hquiet : ∀ n, (Network.run {} es₀).subscriptions (.engine k) n = [] :=
    subscriptions_of_fresh (l := .engine k) hfresh
  have hσ : σ.Supplied := supplied_run
    (supplied_build (layered_run layered_empty es₀) d below hquiet) hown hstays
  refine ⟨hσ.within, fun device hout => ?_⟩
  have hunknown : σ.engine.ledger.directory.get? device = none :=
    Ledger.unknown_of_within hσ.within hσ.sound.keyed hout
  have hfree := Ledger.free_of_unknown hσ.sound hunknown
  refine ⟨hfree, fun e id h hhands => ?_, fun r hr => exchange_of_unknown hunknown hr,
    fun id s hs => ⟨?_, ?_⟩, ?_⟩
  · obtain ⟨hfirst, -⟩ := Engine.hand_of_hands? hhands
    exact hfree h (by rw [hfirst]; exact List.mem_cons_self)
  · exact Ledger.freed_release_of_unknown hσ.sound hs hunknown
  · have hgone : (σ.engine.ledger.release id).1.directory.get? device = none := by
      rw [Ledger.directory_release]
      exact hunknown
    exact Ledger.free_of_unknown (hσ.sound.release id) hgone
  · have hnone : (σ.engine.ledger.releaseDevice device).2 = false := by
      rw [Ledger.releaseDevice_of_unknown hunknown]
    exact ⟨hnone, Ledger.free_releaseDevice_of_not hnone⟩

/-- A host is leased, then replaced by a version at another address, and then
both versions leave, the older one first. -/
theorem no_ghost_hosts_two_versions :
    let old := Host.conventional "host-1"
    let moved : Host := { old with hostName := "elsewhere" }
    let es₀ : List Network.Event := [.addByHand [old, Host.conventional "host-2"]]
    let σ₀ := build (Network.run {} es₀) {} (some 0) 0
    let es : List Event :=
      [.engine (.submit 0 ⟨"a", 2, by decide⟩) rfl, .engine .work rfl, .engine .work rfl,
        .engine .work rfl, .network (.insert 0 moved), .network (.remove 0 old),
        .network (.remove 0 moved)]
    let σ := σ₀.run es
    ((∀ n, Network.Event.subscribe n (.engine 0) ∉ es₀) ∧
      (∀ n, .network (.subscribe n (.engine 0)) ∉ es) ∧
      .network (.unsubscribe σ₀.population σ₀.subscription) ∉ es ∧
      ∀ h ∈ σ.members, h.deviceId ≠ "host-1") ∧
    ((σ₀.run (es.take 5)).engine.exchange ⟨"host-1", .succeeded⟩).toOption = some moved ∧
    σ.engine.exchange ⟨"host-1", .succeeded⟩ = .error (.hostNotFound "host-1") ∧
    (σ.engine.release "a").2 = 1 := by
  intro old moved es₀ σ₀ es σ
  have hfresh : ∀ n, Network.Event.subscribe n (.engine 0) ∉ es₀ := by simp [es₀]
  have hown : ∀ n, .network (.subscribe n (.engine 0)) ∉ es := by simp [es]
  have hstays : .network (.unsubscribe σ₀.population σ₀.subscription) ∉ es := by simp [es]
  have hout : ∀ h ∈ σ.members, h.deviceId ≠ "host-1" := by decide +kernel
  obtain ⟨-, hghost⟩ := no_ghost_hosts es₀ {} (some 0) 0 es hfresh hown hstays
  obtain ⟨-, -, hexchange, -⟩ := hghost "host-1" hout
  exact ⟨⟨hfresh, hown, hstays, hout⟩, by decide +kernel, hexchange _ rfl, by decide +kernel⟩

end Supply

end Fleet
