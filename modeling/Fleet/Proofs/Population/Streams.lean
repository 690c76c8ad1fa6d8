import Fleet.Proofs.Population.Delivery
import Fleet.Proofs.Population.Passes

/-!
# Streams of changes are exact

A run of a network is a list of events: populations are made by hand, from a
directory or layered over others; logs and engines subscribe and unsubscribe;
members are changed by hand, and expanding populations take requests, close, and
hear from their directories.

Whoever subscribes to a population and sees who its members are then can rely on
what it is told from then on (`stream_exact`): each change is one for the set
that it has put together so far, and that set is the members after each event.
The population may be of any kind and layered over any number of others.
-/

namespace Fleet.Network

open Change

/-- Who listens from outside the network. -/
inductive Listener
  | log (n : Nat)
  | engine (n : Nat)
  deriving DecidableEq

/-- A listener as a subscriber. -/
def Listener.subscriber : Listener → Subscriber
  | log n => .log n
  | engine n => .engine n

theorem Listener.subscriber_ne_follower (l : Listener) (k : Nat) : l.subscriber ≠ .follower k := by
  cases l <;> simp [subscriber]

theorem Listener.subscriber_inj {l k : Listener} : l.subscriber = k.subscriber ↔ l = k := by
  cases l <;> cases k <;> simp [subscriber]

/-- What can happen to a network. -/
inductive Event
  | addByHand (hosts : List Host)
  | addExpanding (leaseSize : Nat)
  | addLayered (seed : List Host) (below : Nat)
  | subscribe (n : Nat) (listener : Listener)
  | unsubscribe (n number : Nat)
  | insert (n : Nat) (host : Host)
  | remove (n : Nat) (host : Host)
  | reset (n : Nat) (hosts : List Host)
  -- something happens to an expanding population
  | grow (n : Nat) (event : Growth.Event)

/-- The worker of an expanding population. -/
def growth? (σ : Network) (n : Nat) : Option Growth :=
  match (σ.get? n).map Population.origin with
  | some (.expanding g) => some g
  | _ => none

/-- The network after something happened to an expanding population. -/
def grow (σ : Network) (n : Nat) (e : Growth.Event) : Network × List Delivery :=
  match σ.growth? n with
  | none => (σ, [])
  | some g =>
    let (g, m, changes, _) := g.act (σ.members n) e
    (σ.modify n fun p => { p with origin := .expanding g }).update n (m, changes)

/-- The network after an event, and what it sends. -/
def step (σ : Network) : Event → Network × List Delivery
  | .addByHand hosts => ((σ.add { members := .ofHosts hosts, origin := .byHand 0 }).1, [])
  | .addExpanding leaseSize =>
    ((σ.add { members := .empty, origin := .expanding (.ofLeaseSize leaseSize) }).1, [])
  | .addLayered seed below => ((σ.addLayered seed below).1, [])
  | .subscribe n l => ((σ.subscribe n l.subscriber).1, [])
  | .unsubscribe n number => ((σ.unsubscribe n number).1, [])
  | .insert n h => σ.insert n h
  | .remove n h => σ.remove n h
  | .reset n hosts => σ.reset n hosts
  | .grow n e => σ.grow n e

/-- The network after events in order. -/
def run (σ : Network) (es : List Event) : Network := es.foldl (fun σ e => (σ.step e).1) σ

/-- What a network sends over a run. -/
def sent (σ : Network) : List Event → List Delivery
  | [] => []
  | e :: es => (σ.step e).2 ++ (σ.step e).1.sent es

/-! ## Links -/

theorem subscribers_of_le {σ : Network} {n : Nat} (h : σ.populations.size ≤ n) :
    σ.subscribers n = [] := by
  simp [subscribers, get?, Array.getElem?_eq_none h]

theorem subscribers_add (σ : Network) {p : Population} (hp : p.subscribers = []) (n : Nat) :
    (σ.add p).1.subscribers n = σ.subscribers n := by
  unfold subscribers get? add
  rw [Array.getElem?_push]
  split
  · next h => simp [h, hp]
  · rfl

theorem members_add {σ : Network} {n : Nat} (h : n < σ.populations.size) (p : Population) :
    (σ.add p).1.members n = σ.members n := by
  unfold members get? add
  rw [Array.getElem?_push, if_neg (Nat.ne_of_lt h)]

theorem subscribe_of_lt {σ : Network} {n : Nat} (h : n < σ.populations.size) (s : Subscriber) :
    σ.subscribe n s =
      (σ.modify n fun _ => (σ.populations[n].subscribe s).1, σ.populations[n].nextNumber) := by
  unfold subscribe get?
  rw [Array.getElem?_eq_getElem h]
  rfl

theorem subscribe_of_le {σ : Network} {n : Nat} (h : σ.populations.size ≤ n) (s : Subscriber) :
    σ.subscribe n s = (σ, 0) := by
  unfold subscribe get?
  rw [Array.getElem?_eq_none h]

theorem members_subscribe (σ : Network) (n : Nat) (s : Subscriber) (k : Nat) :
    (σ.subscribe n s).1.members k = σ.members k := by
  by_cases h : n < σ.populations.size
  · rw [subscribe_of_lt h]
    unfold members
    rw [get?_modify]
    split
    · next heq => simp [get?, ← heq, h, Population.subscribe]
    · rfl
  · rw [subscribe_of_le (Nat.le_of_not_lt h)]

theorem size_subscribe (σ : Network) (n : Nat) (s : Subscriber) :
    (σ.subscribe n s).1.populations.size = σ.populations.size := by
  by_cases h : n < σ.populations.size
  · rw [subscribe_of_lt h]
    exact size_modify ..
  · rw [subscribe_of_le (Nat.le_of_not_lt h)]

theorem subscribers_subscribe (σ : Network) (n : Nat) (s : Subscriber) (k : Nat) :
    (σ.subscribe n s).1.subscribers k =
      if k = n ∧ n < σ.populations.size then σ.subscribers n ++ [((σ.subscribe n s).2, s)]
      else σ.subscribers k := by
  by_cases h : n < σ.populations.size
  · rw [subscribe_of_lt h]
    unfold subscribers
    rw [get?_modify]
    by_cases heq : n = k
    · subst heq
      simp [get?, h, Population.subscribe]
    · rw [if_neg heq, if_neg fun hk => heq hk.1.symm]
  · rw [subscribe_of_le (Nat.le_of_not_lt h), if_neg fun hk => h hk.2]

theorem members_unsubscribe (σ : Network) (n number k : Nat) :
    (σ.unsubscribe n number).1.members k = σ.members k := by
  unfold unsubscribe
  split
  · rfl
  · next p hp =>
    unfold members
    rw [get?_modify]
    split
    · next heq => simp [← heq, hp, Population.unsubscribe]
    · rfl

theorem size_unsubscribe (σ : Network) (n number : Nat) :
    (σ.unsubscribe n number).1.populations.size = σ.populations.size := by
  unfold unsubscribe
  split
  · rfl
  · exact size_modify ..

theorem subscribers_unsubscribe (σ : Network) (n number k : Nat) :
    (σ.unsubscribe n number).1.subscribers k =
      if k = n then (σ.subscribers n).filter (fun e => e.1 ≠ number) else σ.subscribers k := by
  unfold unsubscribe subscribers
  split
  · next hnone =>
    split
    · next heq => simp [heq, hnone]
    · rfl
  · next p hp =>
    rw [get?_modify]
    by_cases heq : n = k
    · subst heq
      simp [hp, Population.unsubscribe]
    · rw [if_neg heq, if_neg fun hk => heq hk.symm]

/-! ## Followers come later -/

theorem layered_empty : ({} : Network).Layered := by
  intro n e he
  simp [subscribers_of_le (σ := {}) (Nat.zero_le n)] at he

theorem Layered.subscribe {σ : Network} (h : σ.Layered) {n : Nat} {s : Subscriber}
    (hs : ∀ k, s = .follower k → n < σ.populations.size → n < k) : (σ.subscribe n s).1.Layered := by
  intro m e he k hk
  rw [subscribers_subscribe] at he
  split at he
  · next heq =>
    obtain ⟨rfl, hlt⟩ := heq
    rcases List.mem_append.mp he with he | he
    · exact h m e he k hk
    · obtain rfl := List.mem_singleton.mp he
      exact hs k hk hlt
  · exact h m e he k hk

theorem Layered.unsubscribe {σ : Network} (h : σ.Layered) (n number : Nat) :
    (σ.unsubscribe n number).1.Layered := by
  intro m e he k hk
  rw [subscribers_unsubscribe] at he
  split at he
  · next heq =>
    subst heq
    exact h m e (List.mem_filter.mp he).1 k hk
  · exact h m e he k hk

theorem Layered.add {σ : Network} (h : σ.Layered) {p : Population} (hp : p.subscribers = []) :
    (σ.add p).1.Layered := by
  intro n e he
  rw [subscribers_add σ hp] at he
  exact h n e he

/-- An expanding population after something happened to its worker, with the
members as they were. -/
def place (σ : Network) (n : Nat) (g : Growth) : Network :=
  σ.modify n fun p => { p with origin := .expanding g }

theorem sameLinks_place (σ : Network) (n : Nat) (g : Growth) : SameLinks σ (σ.place n g) :=
  ⟨size_modify .., subscribers_modify (f := fun p => { p with origin := .expanding g })
    (fun _ => rfl) σ n⟩

theorem members_place (σ : Network) (n : Nat) (g : Growth) (k : Nat) :
    (σ.place n g).members k = σ.members k :=
  members_modify (f := fun p => { p with origin := .expanding g }) (fun _ => rfl) σ n k

theorem sameLinks_grow (σ : Network) (n : Nat) (e : Growth.Event) :
    SameLinks σ (σ.grow n e).1 := by
  unfold grow
  split
  · exact .refl σ
  · next g _ => exact (sameLinks_place σ n (g.act (σ.members n) e).1).trans (sameLinks_update ..)

theorem Layered.step {σ : Network} (h : σ.Layered) (e : Event) : (σ.step e).1.Layered := by
  cases e with
  | addByHand | addExpanding => exact h.add rfl
  | addLayered seed below =>
    -- the population below exists already, so it comes before the new one
    have hbelow : (σ.subscribe below (.follower σ.populations.size)).1.Layered :=
      h.subscribe (by rintro k ⟨⟩ hlt; exact hlt)
    exact hbelow.add rfl
  | subscribe n l => exact h.subscribe fun k hk => absurd hk (l.subscriber_ne_follower k)
  | unsubscribe n m => exact h.unsubscribe n m
  | insert | remove | reset => exact h.congr (sameLinks_update ..)
  | grow n e => exact h.congr (sameLinks_grow σ n e)

theorem layered_run {σ : Network} (h : σ.Layered) (es : List Event) : (σ.run es).Layered := by
  induction es generalizing σ with
  | nil => exact h
  | cons e rest ih => exact ih (h.step e)

/-! ## Subscriptions of a listener -/

section

variable {s : Subscriber} {σ : Network}

theorem subscriptions_congr {τ : Network} (h : SameLinks σ τ) (k : Nat) :
    τ.subscriptions s k = σ.subscriptions s k := by
  rw [subscriptions, h.subscribers]
  rfl

theorem subscriptions_add {p : Population} (hp : p.subscribers = []) (k : Nat) :
    (σ.add p).1.subscriptions s k = σ.subscriptions s k := by
  rw [subscriptions, subscribers_add σ hp]
  rfl

theorem subscriptions_subscribe {t : Subscriber} (hne : t ≠ s) (n k : Nat) :
    (σ.subscribe n t).1.subscriptions s k = σ.subscriptions s k := by
  rw [subscriptions, subscribers_subscribe]
  split
  · next heq =>
    obtain ⟨rfl, -⟩ := heq
    simp [subscriptions, hne]
  · rfl

theorem subscriptions_unsubscribe (σ : Network) (s : Subscriber) (n m k : Nat) :
    (σ.unsubscribe n m).1.subscriptions s k =
      if k = n then (σ.subscriptions s n).filter (fun e => e.1 ≠ m) else σ.subscriptions s k := by
  rw [subscriptions, subscribers_unsubscribe]
  split
  · simp [subscriptions, List.filter_filter, Bool.and_comm]
  · rfl

theorem subscriptions_unsubscribe_of_ne {n m : Nat} (h : ∀ x ∈ σ.subscriptions s n, x.1 ≠ m)
    (k : Nat) : (σ.unsubscribe n m).1.subscriptions s k = σ.subscriptions s k := by
  rw [subscriptions_unsubscribe]
  split
  · next heq =>
    subst heq
    -- all of the subscriber's subscriptions pass the filter
    exact List.filter_eq_self.mpr fun x hx => decide_eq_true (h x hx)
  · rfl

end

/-- An event leaves the subscriptions of a subscriber alone that it neither adds
nor takes back. -/
theorem subscriptions_step_of {σ : Network} {s : Subscriber} {e : Event}
    (hown : ∀ n l, e = .subscribe n l → l.subscriber ≠ s)
    (hnew : ∀ seed below, e = .addLayered seed below → .follower σ.populations.size ≠ s)
    (hstays : ∀ n m, e = .unsubscribe n m → ∀ x ∈ σ.subscriptions s n, x.1 ≠ m) (k : Nat) :
    (σ.step e).1.subscriptions s k = σ.subscriptions s k := by
  cases e with
  | addByHand | addExpanding => exact subscriptions_add rfl k
  | addLayered seed below =>
    exact (subscriptions_add rfl k).trans (subscriptions_subscribe (hnew seed below rfl) below k)
  | subscribe n l => exact subscriptions_subscribe (hown n l rfl) n k
  | unsubscribe n m => exact subscriptions_unsubscribe_of_ne (hstays n m rfl) k
  | insert | remove | reset => exact subscriptions_congr (sameLinks_update ..) k
  | grow n e => exact subscriptions_congr (sameLinks_grow σ n e) k

theorem subscriptions_step {σ : Network} {l : Listener} {e : Event}
    (hown : ∀ n, e ≠ .subscribe n l)
    (hstays : ∀ n m, e = .unsubscribe n m → ∀ x ∈ σ.subscriptions l.subscriber n, x.1 ≠ m)
    (k : Nat) : (σ.step e).1.subscriptions l.subscriber k = σ.subscriptions l.subscriber k := by
  refine subscriptions_step_of (fun n j he hj => ?_) (fun _ _ _ => ?_) hstays k
  · exact hown n (by rw [he, Listener.subscriber_inj.mp hj])
  · exact (l.subscriber_ne_follower σ.populations.size).symm

theorem size_le_step (σ : Network) (e : Event) :
    σ.populations.size ≤ (σ.step e).1.populations.size := by
  cases e with
  | addByHand | addExpanding => simp [step, add]
  | addLayered seed below =>
    show _ ≤ ((σ.subscribe below _).1.populations.push _).size
    rw [Array.size_push, size_subscribe]
    omega
  | subscribe n l => exact Nat.le_of_eq (size_subscribe ..).symm
  | unsubscribe n m => exact Nat.le_of_eq (size_unsubscribe ..).symm
  | insert | remove | reset => exact Nat.le_of_eq (sameLinks_update ..).size.symm
  | grow n e => exact Nat.le_of_eq (sameLinks_grow σ n e).size.symm

theorem Attached.step_of {σ : Network} {q number : Nat} {s : Subscriber}
    (h : σ.Attached q number s) {e : Event} (hown : ∀ n l, e = .subscribe n l → l.subscriber ≠ s)
    (hnew : ∀ seed below, e = .addLayered seed below → .follower σ.populations.size ≠ s)
    (hstays : e ≠ .unsubscribe q number) : (σ.step e).1.Attached q number s := by
  refine ⟨Nat.lt_of_lt_of_le h.exists_population (size_le_step σ e), fun k => ?_⟩
  rw [subscriptions_step_of hown hnew, h.once k]
  rintro n m rfl x hx rfl
  rw [h.once n] at hx
  split at hx
  · next heq => simp_all
  · cases hx

theorem Attached.step {σ : Network} {q number : Nat} {l : Listener}
    (h : σ.Attached q number l.subscriber) {e : Event} (hown : ∀ n, e ≠ .subscribe n l)
    (hstays : e ≠ .unsubscribe q number) : (σ.step e).1.Attached q number l.subscriber := by
  refine h.step_of (fun n j he hj => ?_) (fun _ _ _ => ?_) hstays
  · exact hown n (by rw [he, Listener.subscriber_inj.mp hj])
  · exact (l.subscriber_ne_follower σ.populations.size).symm

/-- A listener without subscriptions subscribes. -/
theorem attached_subscribe {σ : Network} {n : Nat} (hn : n < σ.populations.size) {s : Subscriber}
    (hs : ∀ k, σ.subscriptions s k = []) :
    (σ.subscribe n s).1.Attached n (σ.subscribe n s).2 s := by
  refine ⟨by rw [size_subscribe]; exact hn, fun k => ?_⟩
  rw [subscriptions, subscribers_subscribe]
  by_cases heq : k = n
  · subst heq
    have hnone : (σ.subscribers k).filter (fun e => e.2 = s) = [] := hs k
    rw [if_pos ⟨rfl, hn⟩, if_pos rfl, List.filter_append, hnone]
    simp
  · rw [if_neg fun h => heq h.1, if_neg heq]
    exact hs k

theorem subscriptions_run {l : Listener} {σ : Network}
    (hσ : ∀ k, σ.subscriptions l.subscriber k = [])
    {es : List Event} (hown : ∀ n, Event.subscribe n l ∉ es) (k : Nat) :
    (σ.run es).subscriptions l.subscriber k = [] := by
  induction es generalizing σ with
  | nil => exact hσ k
  | cons e rest ih =>
    refine ih (fun j => ?_) fun n hn => hown n (List.mem_cons_of_mem e hn)
    rw [subscriptions_step fun n heq => hown n (heq ▸ List.mem_cons_self), hσ]
    intro n m _ x hx
    rw [hσ] at hx
    cases hx

/-- Who has not subscribed to anything has no subscriptions. -/
theorem subscriptions_of_fresh {l : Listener} {es : List Event}
    (hown : ∀ n, Event.subscribe n l ∉ es) (k : Nat) :
    (run {} es).subscriptions l.subscriber k = [] :=
  subscriptions_run (fun n => by simp [subscriptions, subscribers_of_le]) hown k

/-! ## What a listener is told -/

section

variable {σ : Network} {q number : Nat} {l : Listener} (hσ : σ.Layered)
  (ha : σ.Attached q number l.subscriber)

include hσ ha

theorem carries_grow (n : Nat) (e : Growth.Event) :
    Carries (σ.members q).hosts (told l.subscriber (σ.grow n e).2)
      ((σ.grow n e).1.members q).hosts := by
  unfold grow
  split
  · exact .refl _
  · next g _ =>
    have hlinks := sameLinks_place σ n (g.act (σ.members n) e).1
    have hact : Carries ((σ.place n (g.act (σ.members n) e).1).members n).hosts
        (g.act (σ.members n) e).2.2.1 (g.act (σ.members n) e).2.1.hosts := by
      rw [members_place]
      exact g.carries_act (σ.members n) e
    have hcarries := (updated_update l.subscriber_ne_follower (hσ.congr hlinks) (ha.congr hlinks)
      n ((g.act (σ.members n) e).2.1, (g.act (σ.members n) e).2.2.1) hact).carries
    rw [members_place] at hcarries
    exact hcarries

theorem carries_step (e : Event) :
    Carries (σ.members q).hosts (told l.subscriber (σ.step e).2)
      ((σ.step e).1.members q).hosts := by
  have hq := ha.exists_population
  have hupdate (n : Nat) {next : Membership × List Change}
      (hnext : Carries (σ.members n).hosts next.2 next.1.hosts) :=
    (updated_update l.subscriber_ne_follower hσ ha n next hnext).carries
  -- only changes of members are told of; the other events leave the members alone
  have hquiet {τ : Network} (h : τ.members q = σ.members q) :
      Carries (σ.members q).hosts [] (τ.members q).hosts := h ▸ .refl _
  cases e with
  | addByHand | addExpanding => exact hquiet (members_add hq _)
  | addLayered seed below =>
    have hq' : q < (σ.subscribe below (.follower σ.populations.size)).1.populations.size := by
      rw [size_subscribe]
      exact hq
    exact hquiet ((members_add hq' _).trans (members_subscribe σ below _ q))
  | subscribe n k => exact hquiet (members_subscribe σ n _ q)
  | unsubscribe n m => exact hquiet (members_unsubscribe σ n m q)
  | insert n h => exact hupdate n ((σ.members n).carries_insert h)
  | remove n h => exact hupdate n ((σ.members n).carries_remove h)
  | reset n hosts => exact hupdate n ((σ.members n).carries_reset hosts)
  | grow n e => exact carries_grow hσ ha n e

theorem carries_run {es : List Event} (hown : ∀ n, Event.subscribe n l ∉ es)
    (hstays : Event.unsubscribe q number ∉ es) :
    Carries (σ.members q).hosts (told l.subscriber (σ.sent es)) ((σ.run es).members q).hosts := by
  induction es generalizing σ with
  | nil => exact .refl _
  | cons e rest ih =>
    have hrest := ih (hσ.step e)
      (ha.step (fun n heq => hown n (heq ▸ List.mem_cons_self))
        fun heq => hstays (heq ▸ List.mem_cons_self))
      (fun n hn => hown n (List.mem_cons_of_mem e hn))
      fun hn => hstays (List.mem_cons_of_mem e hn)
    rw [sent, told_append]
    exact (carries_step hσ ha e).append hrest

end

/-- A listener that subscribes to a population, however that came about, is told
of changes only that are ones for the hosts that it has put together, and these
are the members after any further events. -/
theorem stream_exact (es₀ es : List Event) (n : Nat) (l : Listener)
    (hn : n < (run {} es₀).populations.size)
    (hown : ∀ k, Event.subscribe k l ∉ es₀ ++ es)
    (hstays : Event.unsubscribe n ((run {} es₀).subscribe n l.subscriber).2 ∉ es) :
    let σ := run {} es₀
    let τ := (σ.subscribe n l.subscriber).1
    let changes := told l.subscriber (τ.sent es)
    (∀ done c rest, changes = done ++ c :: rest →
      c.Effective (replay (σ.members n).hosts done)) ∧
    ∀ q, q ∈ replay (σ.members n).hosts changes ↔ q ∈ ((τ.run es).members n).hosts := by
  intro σ τ changes
  have hlayered : τ.Layered := (layered_run layered_empty es₀).step (.subscribe n l)
  have hfresh : ∀ k, σ.subscriptions l.subscriber k = [] :=
    subscriptions_of_fresh fun k hk => hown k (List.mem_append_left es hk)
  have hcarries := carries_run hlayered (attached_subscribe hn hfresh)
    (fun k hk => hown k (List.mem_append_right es₀ hk)) hstays
  rw [members_subscribe] at hcarries
  exact ⟨hcarries.effective, hcarries.reaches⟩

/-- A log of a population two layers above an expanding one, which reads a page
that repeats a host, fails at its next pass, and then reads another page; one host was
in the layer between already, and is not told of when it joins below. -/
theorem stream_exact_two_layers :
    let host (n : String) : Host := .conventional n
    let es₀ : List Event := [.addExpanding 2, .addLayered [host "a"] 0, .addLayered [] 1]
    let es : List Event := [.grow 0 (.request none), .grow 0 .next,
      .grow 0 (.answer (.ok ⟨[host "b", host "a", host "b"], none⟩)), .grow 0 (.request none),
      .grow 0 .next, .grow 0 (.answer (.error (.expansion "down"))), .grow 0 (.request none),
      .grow 0 .next, .grow 0 (.answer (.ok ⟨[host "c"], none⟩))]
    let σ := run {} es₀
    let τ := (σ.subscribe 2 (.log 0)).1
    (2 < σ.populations.size ∧ (∀ k, Event.subscribe k (.log 0) ∉ es₀ ++ es) ∧
      Event.unsubscribe 2 (σ.subscribe 2 (.log 0)).2 ∉ es) ∧
    (σ.members 2).hosts = [host "a"] ∧
    told (.log 0) (τ.sent es) =
      [.added (host "b"), .added (host "c"), .removed (host "b"), .removed (host "a")] ∧
    ∀ q, q ∈ replay (σ.members 2).hosts (told (.log 0) (τ.sent es)) ↔
      q ∈ ((τ.run es).members 2).hosts := by
  intro host es₀ es σ τ
  have hown : ∀ k, Event.subscribe k (.log 0) ∉ es₀ ++ es := by simp [es₀, es]
  have hstays : Event.unsubscribe 2 (σ.subscribe 2 (.log 0)).2 ∉ es := by simp [es]
  have hn : 2 < σ.populations.size := by decide +kernel
  refine ⟨⟨hn, hown, hstays⟩, by decide +kernel, by decide +kernel, ?_⟩
  exact (stream_exact es₀ es 2 (.log 0) hn hown hstays).2

end Fleet.Network
