import Fleet.Proofs.Engine.Supply

/-!
# Versions of a host

Two hosts are versions of each other when they share a device identifier. A
population tells versions apart and may hold several of them; a directory holds
one host for a device, and that is the version that joined last, for as long as
it is a member.

* **newest versions** — `newest` looks a device up among the hosts that joined,
  the last one first, and then among those that were there at the start;
* **following** — `Mirrors` says which host the directory holds for each device.
  Every change keeps to it (`Mirrors.applyChange`), and so does every run
  (`mirrors_run`);
* **members** — so all members can be leased exactly if of each of their devices
  the newest version is a member (`members_kept_iff`). When it leaves and an
  older version stays, that one is lost (`older_version_lost`).
-/

namespace Fleet

open Network

/-- The host that joins at a change. -/
def Change.joining? : Change → Option Host
  | .added h => some h
  | .removed _ => none

/-- The hosts that join at changes, the last one first, and then those of a
log. -/
def joined (log : List Host) (changes : List Change) : List Host :=
  (changes.filterMap Change.joining?).reverse ++ log

/-- The first version of a device in a log. -/
def newest (log : List Host) (device : String) : Option Host :=
  log.find? fun h => h.deviceId = device

theorem joined_append (log : List Host) (cs ds : List Change) :
    joined log (cs ++ ds) = joined (joined log cs) ds := by
  simp [joined]

theorem newest_cons (j : Host) (log : List Host) (device : String) :
    newest (j :: log) device = if device = j.deviceId then some j else newest log device := by
  by_cases hd : device = j.deviceId
  · simp [newest, hd]
  · simp [newest, hd, Ne.symm hd]

theorem deviceId_of_newest {log : List Host} {device : String} {h : Host}
    (hn : newest log device = some h) : h.deviceId = device := by
  simpa using List.find?_some hn

namespace Ledger

/-- The directory holds a host for a device exactly if it is the newest version
of the device and a member. -/
def Mirrors (L : Ledger) (log hosts : List Host) : Prop :=
  ∀ device q, L.directory.get? device = some q ↔ newest log device = some q ∧ q ∈ hosts

section
variable {L M : Ledger} {log hosts others : List Host}

theorem Mirrors.congr (h : L.Mirrors log hosts) (hdir : M.directory = L.directory)
    (hsame : ∀ q, q ∈ hosts ↔ q ∈ others) : M.Mirrors log others := by
  intro device q
  rw [hdir, h, hsame]

theorem ne_of_newest {device : String} {q j : Host} (hn : newest log device = some q)
    (hd : device ≠ j.deviceId) : q ≠ j := by
  rintro rfl
  exact hd (deviceId_of_newest hn).symm

/-- A host that joins is the newest version of its device. -/
theorem Mirrors.added (h : L.Mirrors log hosts) (j : Host) :
    (L.applyChange (.added j)).1.Mirrors (j :: log) (Change.replayOne hosts (.added j)) := by
  intro device q
  have hother : device ≠ j.deviceId → (L.directory.get? device = some q ↔
      newest log device = some q ∧ (q = j ∨ q ∈ hosts)) := by
    intro hd
    rw [h]
    constructor
    · exact fun ⟨hn, hq⟩ => ⟨hn, Or.inr hq⟩
    · exact fun ⟨hn, hq⟩ => ⟨hn, hq.resolve_left (ne_of_newest hn hd)⟩
  rw [newest_cons, Change.mem_replayOne_added]
  unfold Ledger.applyChange
  dsimp only
  split
  · next hheld =>
    by_cases hd : device = j.deviceId
    · rw [hd, hheld, if_pos rfl]
      simp +contextual [eq_comm]
    · rw [if_neg hd]
      exact hother hd
  · rw [Registry.get?_put]
    by_cases hd : device = j.deviceId
    · rw [if_pos hd, if_pos hd]
      simp +contextual [eq_comm]
    · rw [if_neg hd, if_neg hd]
      exact hother hd

/-- A host that leaves is lost if it is the newest version of its device, and
otherwise the directory does not hold it. -/
theorem Mirrors.removed (h : L.Mirrors log hosts) (j : Host) :
    (L.applyChange (.removed j)).1.Mirrors log (Change.replayOne hosts (.removed j)) := by
  intro device q
  rw [Change.mem_replayOne_removed]
  unfold Ledger.applyChange
  dsimp only
  split
  · next hheld =>
    rw [Registry.get?_erase]
    by_cases hd : device = j.deviceId
    · -- the newest version is the one that leaves
      obtain ⟨hn, -⟩ := (h _ _).mp hheld
      rw [if_pos hd, hd, hn]
      simp +contextual [eq_comm]
    · rw [if_neg hd, h]
      constructor
      · exact fun ⟨hn, hq⟩ => ⟨hn, hq, ne_of_newest hn hd⟩
      · exact fun ⟨hn, hq, _⟩ => ⟨hn, hq⟩
  · next hother =>
    rw [h]
    constructor
    · rintro ⟨hn, hq⟩
      refine ⟨hn, hq, ?_⟩
      rintro rfl
      apply hother
      rw [h, deviceId_of_newest hn]
      exact ⟨hn, hq⟩
    · exact fun ⟨hn, hq, _⟩ => ⟨hn, hq⟩

theorem Mirrors.applyChange (h : L.Mirrors log hosts) (c : Change) :
    (L.applyChange c).1.Mirrors (joined log [c]) (Change.replayOne hosts c) := by
  cases c with
  | added j => exact h.added j
  | removed j => exact h.removed j

/-- At the start the directory holds the first version of each device. -/
theorem mirrors_ofHosts (hosts : List Host) : (ofHosts hosts).Mirrors hosts hosts := by
  have hfold : ∀ (rest : List Host) (L : Ledger) (device : String),
      (rest.foldl enrol L).directory.get? device =
        (L.directory.get? device).or (newest rest device) := by
    intro rest
    induction rest with
    | nil => intro L device; simp [newest]
    | cons j rest ih =>
      intro L device
      rw [List.foldl_cons, ih, newest_cons]
      unfold enrol
      cases hj : L.directory.has j.deviceId with
      | true =>
        rw [if_pos rfl]
        by_cases hd : device = j.deviceId
        · obtain ⟨q, hq⟩ := Option.isSome_iff_exists.mp hj
          simp [hd, hq]
        · simp [hd]
      | false =>
        rw [if_neg Bool.false_ne_true, Registry.get?_put]
        by_cases hd : device = j.deviceId
        · have hnone : L.directory.get? j.deviceId = none := by simpa [Registry.has] using hj
          simp [hd, hnone]
        · simp [hd]
  intro device q
  unfold ofHosts
  rw [hfold]
  simp only [Registry.get?_nil, Option.none_or]
  exact ⟨fun hn => ⟨hn, List.mem_of_find?_eq_some hn⟩, And.left⟩

end

end Ledger

theorem Engine.mirrors_hear {σ : Engine} {log hosts : List Host}
    (h : σ.ledger.Mirrors log hosts) (changes : List Change) :
    (σ.hear changes).ledger.Mirrors (joined log changes) (Change.replay hosts changes) := by
  induction changes generalizing σ log hosts with
  | nil => exact h
  | cons c rest ih =>
    have hfirst : (σ.applyChange c).ledger.Mirrors (joined log [c]) (Change.replayOne hosts c) :=
      h.applyChange c
    have hrest := ih hfirst
    rw [← joined_append] at hrest
    exact hrest

namespace Supply

/-- The changes that the engine hears of at an event. -/
def hears (σ : Supply) : Event → List Change
  | .network e => Network.told (.engine σ.listener) (σ.network.step e).2
  | .engine _ _ => []

/-- The changes that the engine hears of over a run. -/
def heard (σ : Supply) : List Event → List Change
  | [] => []
  | e :: es => σ.hears e ++ (σ.step e).heard es

section
variable {σ : Supply} {e : Event} {log : List Host}

theorem mirrors_step (hσ : σ.Supplied) (h : σ.engine.ledger.Mirrors log σ.members) (e : Event) :
    (σ.step e).engine.ledger.Mirrors (joined log (σ.hears e)) (σ.step e).members := by
  cases e with
  | network e =>
    have hcarries := carries_step (l := .engine σ.listener) hσ.layered hσ.attached e
    exact (Engine.mirrors_hear h _).congr rfl hcarries.reaches
  | engine e own => exact h.congr (Engine.directory_step own) fun _ => Iff.rfl

theorem mirrors_run {es : List Event} (hσ : σ.Supplied)
    (h : σ.engine.ledger.Mirrors log σ.members)
    (hown : ∀ n, .network (.subscribe n (.engine σ.listener)) ∉ es)
    (hstays : .network (.unsubscribe σ.population σ.subscription) ∉ es) :
    (σ.run es).engine.ledger.Mirrors (joined log (σ.heard es)) (σ.run es).members := by
  induction es generalizing σ log with
  | nil => exact h
  | cons e rest ih =>
    obtain ⟨hpopulation, hlistener, hsubscription⟩ := σ.step_keeps e
    have hfirst : (σ.step e).Supplied := supplied_step hσ
      (fun n heq => hown n (heq ▸ List.mem_cons_self)) fun heq => hstays (heq ▸ List.mem_cons_self)
    have hrest := ih hfirst (mirrors_step hσ h e)
      (fun n hin => by rw [hlistener] at hin; exact hown n (List.mem_cons_of_mem e hin))
      (fun hin => by
        rw [hpopulation, hsubscription] at hin
        exact hstays (List.mem_cons_of_mem e hin))
    rw [← joined_append] at hrest
    exact hrest

end

theorem mirrors_build (network : Network) (d : EngineDraft) (below : Option Nat) (k : Nat) :
    let σ := build network d below k
    σ.engine.ledger.Mirrors σ.members σ.members := by
  unfold members build
  dsimp only
  rw [members_subscribe]
  exact Ledger.mirrors_ofHosts _

/-- **Which members are kept.** However an engine came about and whatever
happened in the network and to the engine since, the directory holds the newest
version of a device, and only while it is a member. So the devices of all
members are in the directory exactly if of each of them the newest version is a
member; and whatever is in the directory is free or leased. -/
theorem members_kept_iff (es₀ : List Network.Event) (d : EngineDraft) (below : Option Nat)
    (k : Nat) (es : List Event) (hfresh : ∀ n, Network.Event.subscribe n (.engine k) ∉ es₀)
    (hown : ∀ n, .network (.subscribe n (.engine k)) ∉ es)
    (hstays : let σ := build (Network.run {} es₀) d below k
      .network (.unsubscribe σ.population σ.subscription) ∉ es) :
    let start := build (Network.run {} es₀) d below k
    let σ := start.run es
    let log := joined start.members (start.heard es)
    (∀ device q, σ.engine.ledger.directory.get? device = some q ↔
      newest log device = some q ∧ q ∈ σ.members) ∧
      ((∀ h ∈ σ.members, σ.engine.ledger.directory.has h.deviceId = true) ↔
        ∀ h ∈ σ.members, ∃ q ∈ σ.members, newest log h.deviceId = some q) ∧
      ∀ device, σ.engine.ledger.directory.has device = true →
        (∃ q ∈ σ.engine.ledger.free, q.deviceId = device) ∨ device ∈ σ.engine.ledger.leased := by
  intro start σ log
  have hquiet : ∀ n, (Network.run {} es₀).subscriptions (.engine k) n = [] :=
    subscriptions_of_fresh (l := .engine k) hfresh
  have hstart : start.Supplied := supplied_build (layered_run layered_empty es₀) d below hquiet
  have hσ : σ.Supplied := supplied_run hstart hown hstays
  have hmirrors : σ.engine.ledger.Mirrors log σ.members :=
    mirrors_run hstart (mirrors_build _ d below k) hown hstays
  have hhas : ∀ device, σ.engine.ledger.directory.has device = true ↔
      ∃ q ∈ σ.members, newest log device = some q := by
    intro device
    simp only [Registry.has, Option.isSome_iff_exists, hmirrors device, and_comm]
  refine ⟨hmirrors, ?_, ?_⟩
  · simp only [hhas]
  · intro device hin
    obtain ⟨q, hq⟩ := Option.isSome_iff_exists.mp hin
    exact hσ.sound.parted.covered device q hq

/-- A host moves, joins at its new address and leaves at its old one. -/
theorem members_kept_moved :
    let old := Host.conventional "host-1"
    let moved : Host := { old with hostName := "elsewhere" }
    let es₀ : List Network.Event := [.addByHand [old, Host.conventional "host-2"]]
    let start := build (Network.run {} es₀) {} (some 0) 0
    let es : List Event := [.network (.insert 0 moved), .network (.remove 0 old)]
    let σ := start.run es
    ((∀ n, Network.Event.subscribe n (.engine 0) ∉ es₀) ∧
      (∀ n, .network (.subscribe n (.engine 0)) ∉ es) ∧
      .network (.unsubscribe start.population start.subscription) ∉ es ∧
      ∀ h ∈ σ.members, ∃ q ∈ σ.members,
        newest (joined start.members (start.heard es)) h.deviceId = some q) ∧
    moved ∈ σ.members ∧ ∀ h ∈ σ.members, σ.engine.ledger.directory.has h.deviceId = true := by
  intro old moved es₀ start es σ
  have hfresh : ∀ n, Network.Event.subscribe n (.engine 0) ∉ es₀ := by simp [es₀]
  have hown : ∀ n, .network (.subscribe n (.engine 0)) ∉ es := by simp [es]
  have hstays : .network (.unsubscribe start.population start.subscription) ∉ es := by simp [es]
  have hnewest : ∀ h ∈ σ.members, ∃ q ∈ σ.members,
      newest (joined start.members (start.heard es)) h.deviceId = some q := by decide +kernel
  obtain ⟨-, hkept, -⟩ := members_kept_iff es₀ {} (some 0) 0 es hfresh hown hstays
  have hin : moved ∈ σ.members := by decide +kernel
  have hall := hkept.mpr hnewest
  -- with the states spelled out there is nothing to evaluate
  simp only [σ, start] at *
  exact ⟨⟨hfresh, hown, hstays, hnewest⟩, hin, hall⟩

/-- The other way round a member is lost: one pass of an expanding population
finds a host at two addresses, the next one finds it at the first of them
alone, and then the directory does not hold the device, which a member still
carries. -/
theorem older_version_lost :
    let old := Host.conventional "host-1"
    let moved : Host := { old with hostName := "elsewhere" }
    let pass (page : List Host) : List Event :=
      [.network (.grow 0 (.request none)), .network (.grow 0 .next),
        .network (.grow 0 (.answer (.ok ⟨page, none⟩)))]
    let start := build (Network.run {} [.addExpanding 2]) {} (some 0) 0
    let σ := start.run (pass [old, moved] ++ pass [old])
    ¬∀ h ∈ σ.members, σ.engine.ledger.directory.has h.deviceId = true := by
  intro old moved pass start σ hkept
  have hstays : old ∈ σ.members := by decide +kernel
  have hlost : σ.engine.ledger.directory.has old.deviceId = false := by decide +kernel
  have hheld := hkept old hstays
  rw [hlost] at hheld
  cases hheld

end Supply

end Fleet
