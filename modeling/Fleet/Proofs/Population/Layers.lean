import Fleet.Proofs.Population.Followers

/-!
# What a layered population holds

A layered population starts with hosts of its own, the *seed*, and those of the
population below it. `layered_holds` says what it holds after any moves: the
hosts of the population below, and those of the seed that it was not told to
have left. Its listeners are told of exactly the changes that were changes for
it; and once it lets go of the population below, nothing reaches it or them.

The population below may be of any make, so besides the events of the network a
move may replace the members of a population and tell of any changes
(`Move.change`). All that is asked of the population below is that what it tells
its listeners is exact.
-/

namespace Fleet.Network

open Change

/-! ## Layers -/

/-- The number under which a layered population follows the one below. -/
def subscription (σ : Network) (n : Nat) : Nat :=
  match (σ.get? n).map Population.origin with
  | some (.layered _ number) => number
  | _ => 0

section

variable {σ : Network} {seed : List Host} {below : Nat}

theorem get?_add_self {n : Nat} (hn : n = σ.populations.size) (p : Population) :
    (σ.add p).1.get? n = some p := by
  subst hn
  exact Array.getElem?_push_size

/-- A population that is layered over another has subscribed there, and starts
with its seed and the hosts that are there. -/
theorem addLayered_eq (σ : Network) (seed : List Host) (below : Nat) :
    ∃ p : Population,
      σ.addLayered seed below = (σ.subscribe below (.follower σ.populations.size)).1.add p ∧
      (σ.addLayered seed below).1.get? σ.populations.size = some p ∧
      p.subscribers = [] ∧
      p.origin = .layered below (σ.subscribe below (.follower σ.populations.size)).2 ∧
      p.members = ((Membership.ofHosts seed).insertAll (σ.members below).hosts).1 := by
  refine ⟨_, rfl, ?_, rfl, rfl, ?_⟩
  · exact get?_add_self (size_subscribe ..).symm _
  · exact congrArg (fun m => ((Membership.ofHosts seed).insertAll m.hosts).1) (members_subscribe ..)

theorem snd_addLayered : (σ.addLayered seed below).2 = σ.populations.size := size_subscribe ..

theorem size_addLayered :
    (σ.addLayered seed below).1.populations.size = σ.populations.size + 1 := by
  obtain ⟨p, hadd, -⟩ := addLayered_eq σ seed below
  rw [hadd]
  exact (Array.size_push p).trans (congrArg (· + 1) (size_subscribe ..))

theorem members_addLayered_self :
    (σ.addLayered seed below).1.members σ.populations.size =
      ((Membership.ofHosts seed).insertAll (σ.members below).hosts).1 := by
  obtain ⟨p, -, hget, -, -, hmembers⟩ := addLayered_eq σ seed below
  rw [members, hget, ← hmembers]
  rfl

theorem subscription_addLayered :
    (σ.addLayered seed below).1.subscription σ.populations.size =
      (σ.subscribe below (.follower σ.populations.size)).2 := by
  obtain ⟨p, -, hget, -, horigin, -⟩ := addLayered_eq σ seed below
  rw [subscription, hget, Option.map_some, horigin]

theorem members_addLayered_of_lt {k : Nat} (hk : k < σ.populations.size) :
    (σ.addLayered seed below).1.members k = σ.members k := by
  have hk' : k < (σ.subscribe below (.follower σ.populations.size)).1.populations.size := by
    rw [size_subscribe]
    exact hk
  exact (members_add hk' _).trans (members_subscribe σ below _ k)

/-- The population that is made follows the one below. -/
theorem attached_addLayered (hbelow : below < σ.populations.size)
    (hnew : ∀ k, σ.subscriptions (.follower σ.populations.size) k = []) :
    (σ.addLayered seed below).1.Attached below
      ((σ.addLayered seed below).1.subscription σ.populations.size)
      (.follower σ.populations.size) := by
  have hfollows := attached_subscribe hbelow hnew
  rw [subscription_addLayered]
  obtain ⟨p, hadd, -, hp, -⟩ := addLayered_eq σ seed below
  rw [hadd]
  refine ⟨?_, fun k => (subscriptions_add hp k).trans (hfollows.once k)⟩
  exact Nat.lt_trans hfollows.exists_population (Array.size_push p ▸ Nat.lt_succ_self _)

end

/-! ## Moves -/

/-- What may happen next. -/
inductive Move
  | event (e : Event)
  /-- A population of whatever make has other members, and tells of changes. -/
  | change (n : Nat) (members : Membership) (changes : List Change)

namespace Move

/-- The population whose members a move is about. -/
def target? : Move → Option Nat
  | event (.insert n _) | event (.remove n _) | event (.reset n _) | event (.grow n _)
  | change n _ _ => some n
  | event (.addByHand _) | event (.addExpanding _) | event (.addLayered _ _)
  | event (.subscribe _ _) | event (.unsubscribe _ _) => none

/-- What a population of whatever make tells of carries its members to the new
ones. -/
def Exact (σ : Network) : Move → Prop
  | event _ => True
  | change n members changes => Carries (σ.members n).hosts changes members.hosts

/-- A move that keeps to what a layered population offers: its members change
only through the population below. It takes none of the three subscriptions
back, and the two listeners subscribe to nothing else. -/
structure Respects (L : Layering) (m : Move) : Prop where
  target : m.target? ≠ some L.population
  lower : ∀ n, m ≠ event (.subscribe n L.lower)
  upper : ∀ n, m ≠ event (.subscribe n L.upper)
  follows_stays : m ≠ event (.unsubscribe L.below L.number)
  lower_stays : m ≠ event (.unsubscribe L.below L.lowerNumber)
  upper_stays : m ≠ event (.unsubscribe L.population L.upperNumber)

end Move

/-- The network after a move, and what it sends. -/
def move (σ : Network) : Move → Network × List Delivery
  | .event e => σ.step e
  | .change n members changes => σ.update n (members, changes)

/-- The network after moves in order. -/
def after (σ : Network) (ms : List Move) : Network := ms.foldl (fun σ m => (σ.move m).1) σ

/-- What a network sends over moves. -/
def sentOver (σ : Network) : List Move → List Delivery
  | [] => []
  | m :: rest => (σ.move m).2 ++ (σ.move m).1.sentOver rest

/-- All changes on the way are exact. -/
def Exact (σ : Network) : List Move → Prop
  | [] => True
  | m :: rest => m.Exact σ ∧ Exact (σ.move m).1 rest

variable {σ τ : Network} {L : Layering} {m : Move}

/-- A move leaves the members alone and sends nothing, or is an update. -/
theorem move_cases (σ : Network) (m : Move) :
    ((σ.move m).2 = [] ∧ ∀ k < σ.populations.size, (σ.move m).1.members k = σ.members k) ∨
    ∃ ν p next, m.target? = some p ∧ SameLinks σ ν ∧ (∀ k, ν.members k = σ.members k) ∧
      σ.move m = ν.update p next ∧
      (m.Exact σ → Carries (σ.members p).hosts next.2 next.1.hosts) := by
  cases m with
  | change n members changes =>
    exact .inr ⟨σ, n, (members, changes), rfl, .refl σ, fun _ => rfl, rfl, id⟩
  | event e =>
    cases e with
    | addByHand | addExpanding => exact .inl ⟨rfl, fun k hk => members_add hk _⟩
    | addLayered seed below => exact .inl ⟨rfl, fun k hk => members_addLayered_of_lt hk⟩
    | subscribe n l => exact .inl ⟨rfl, fun k _ => members_subscribe σ n _ k⟩
    | unsubscribe n number => exact .inl ⟨rfl, fun k _ => members_unsubscribe σ n number k⟩
    | insert n h =>
      exact .inr ⟨σ, n, _, rfl, .refl σ, fun _ => rfl, rfl, fun _ => (σ.members n).carries_insert h⟩
    | remove n h =>
      exact .inr ⟨σ, n, _, rfl, .refl σ, fun _ => rfl, rfl, fun _ => (σ.members n).carries_remove h⟩
    | reset n hosts =>
      exact .inr ⟨σ, n, _, rfl, .refl σ, fun _ => rfl, rfl, fun _ => (σ.members n).carries_reset hosts⟩
    | grow n e =>
      cases hg : σ.growth? n with
      | none =>
        have hstep : σ.grow n e = (σ, []) := by rw [grow, hg]
        exact .inl ⟨congrArg Prod.snd hstep, fun k _ => congrArg (·.1.members k) hstep⟩
      | some g =>
        let effect := g.act (σ.members n) e
        refine .inr ⟨σ.place n effect.1, n, (effect.2.1, effect.2.2.1), rfl,
          sameLinks_place σ n effect.1, members_place σ n effect.1, ?_,
          fun _ => g.carries_act (σ.members n) e⟩
        show σ.grow n e = _
        rw [grow, hg]
        rfl

/-! ## Links over moves -/

theorem Layered.move (h : σ.Layered) (m : Move) : (σ.move m).1.Layered := by
  cases m with
  | event e => exact h.step e
  | change n members changes => exact h.congr (sameLinks_update ..)

theorem size_le_move (σ : Network) (m : Move) :
    σ.populations.size ≤ (σ.move m).1.populations.size := by
  cases m with
  | event e => exact size_le_step σ e
  | change n members changes => exact Nat.le_of_eq (sameLinks_update ..).size.symm

theorem size_le_after (σ : Network) (ms : List Move) :
    σ.populations.size ≤ (σ.after ms).populations.size := by
  induction ms generalizing σ with
  | nil => exact Nat.le_refl _
  | cons m rest ih => exact Nat.le_trans (size_le_move σ m) (ih (σ.move m).1)

theorem layered_after (h : σ.Layered) (ms : List Move) : (σ.after ms).Layered := by
  induction ms generalizing σ with
  | nil => exact h
  | cons m rest ih => exact ih (h.move m)

/-- Who has no subscriptions gets none unless it subscribes or is made. -/
theorem subscriptions_move {s : Subscriber} (hnone : ∀ k, σ.subscriptions s k = [])
    (hown : ∀ n l, m = .event (.subscribe n l) → l.subscriber ≠ s)
    (hnew : ∀ seed below, m = .event (.addLayered seed below) → .follower σ.populations.size ≠ s)
    (k : Nat) : (σ.move m).1.subscriptions s k = [] := by
  cases m with
  | change n members changes =>
    exact (subscriptions_congr (sameLinks_update ..) k).trans (hnone k)
  | event e =>
    have hstays : ∀ n m, e = .unsubscribe n m → ∀ x ∈ σ.subscriptions s n, x.1 ≠ m := by
      intro n m _ x hx
      rw [hnone] at hx
      cases hx
    exact (subscriptions_step_of (fun n l he => hown n l (he ▸ rfl))
      (fun seed below he => hnew seed below (he ▸ rfl)) hstays k).trans (hnone k)

theorem subscriptions_after {s : Subscriber} {ms : List Move} (hnone : ∀ k, σ.subscriptions s k = [])
    (hown : ∀ n l, Move.event (.subscribe n l) ∈ ms → l.subscriber ≠ s)
    (hnew : ∀ k < (σ.after ms).populations.size, .follower k ≠ s) (k : Nat) :
    (σ.after ms).subscriptions s k = [] := by
  induction ms generalizing σ with
  | nil => exact hnone k
  | cons m rest ih =>
    refine ih (fun j => ?_) (fun n l hl => hown n l (List.mem_cons_of_mem m hl)) hnew
    refine subscriptions_move hnone (fun n l hm => hown n l (hm ▸ List.mem_cons_self)) ?_ j
    rintro seed below rfl
    -- the population that is made is one of those at the end
    refine hnew _ (Nat.lt_of_lt_of_le ?_ (size_le_after _ rest))
    exact Nat.lt_of_lt_of_eq (Nat.lt_succ_self _) size_addLayered.symm

theorem Attached.move {q number : Nat} {s : Subscriber} (h : σ.Attached q number s)
    (hown : ∀ n l, m = .event (.subscribe n l) → l.subscriber ≠ s)
    (hnew : .follower σ.populations.size ≠ s) (hstays : m ≠ .event (.unsubscribe q number)) :
    (σ.move m).1.Attached q number s := by
  cases m with
  | change n members changes => exact h.congr (sameLinks_update ..)
  | event e =>
    exact h.step_of (fun n l he => hown n l (he ▸ rfl)) (fun _ _ _ => hnew)
      fun he => hstays (he ▸ rfl)

theorem Attached.move_listener {q number : Nat} {l : Listener} (h : σ.Attached q number l.subscriber)
    (hown : ∀ n, m ≠ .event (.subscribe n l)) (hstays : m ≠ .event (.unsubscribe q number)) :
    (σ.move m).1.Attached q number l.subscriber := by
  refine h.move (fun n j hm hj => ?_) (l.subscriber_ne_follower _).symm hstays
  exact hown n (by rw [hm, Listener.subscriber_inj.mp hj])

theorem Linked.move (h : Linked L σ) (hm : m.Respects L) : Linked L (σ.move m).1 where
  layered := h.layered.move m
  exists_population := Nat.lt_of_lt_of_le h.exists_population (size_le_move σ m)
  follows := by
    refine h.follows.move (fun n l _ => l.subscriber_ne_follower _) (fun heq => ?_) hm.follows_stays
    exact Nat.ne_of_gt h.exists_population (Subscriber.follower.inj heq)
  lower := h.lower.move_listener hm.lower hm.lower_stays
  upper := h.upper.move_listener hm.upper hm.upper_stays

/-! ## Following over moves -/

theorem followed_move (h : Linked L σ) (hm : m.Respects L) :
    Followed L σ (told L.lower.subscriber (σ.move m).2) (σ.move m).1 (σ.move m).2 := by
  rcases move_cases σ m with ⟨hsent, hmembers⟩ | ⟨ν, p, next, htarget, hlinks, hsame, hmove, -⟩
  · rw [hsent]
    exact .quiet (hmembers _ h.exists_population) rfl
  · have hp : p ≠ L.population := fun heq => hm.target (heq ▸ htarget)
    have hfollowed := followed_update (h.congr hlinks) hp next
    rw [hmove]
    exact ⟨by rw [hfollowed.members, hsame], by rw [hfollowed.passed, hsame]⟩

theorem carries_move (h : Linked L σ) (hexact : m.Exact σ) :
    Carries (σ.members L.below).hosts (told L.lower.subscriber (σ.move m).2)
      ((σ.move m).1.members L.below).hosts := by
  rcases move_cases σ m with ⟨hsent, hmembers⟩ | ⟨ν, p, next, -, hlinks, hsame, hmove, hcarries⟩
  · rw [hsent, hmembers _ h.lower.exists_population]
    exact .refl _
  · have hcarries := hcarries hexact
    rw [← hsame] at hcarries
    have hupdated := updated_update L.lower.subscriber_ne_follower (h.layered.congr hlinks)
      (h.lower.congr hlinks) p next hcarries
    rw [hmove, ← hsame]
    exact hupdated.carries

/-- Over any moves a layered population follows what the listener to the one
below is told. -/
theorem followed_after (h : Linked L σ) {ms : List Move} (hrespects : ∀ m ∈ ms, m.Respects L) :
    Followed L σ (told L.lower.subscriber (σ.sentOver ms)) (σ.after ms) (σ.sentOver ms) := by
  induction ms generalizing σ with
  | nil => exact .refl L σ
  | cons m rest ih =>
    have hm := hrespects m List.mem_cons_self
    rw [sentOver, told_append]
    exact (followed_move h hm).append
      (ih (h.move hm) fun d hd => hrespects d (List.mem_cons_of_mem m hd))

/-- What the listener to the population below is told is exact if each change of
a population of whatever make is. -/
theorem carries_after (h : Linked L σ) {ms : List Move} (hrespects : ∀ m ∈ ms, m.Respects L)
    (hexact : Exact σ ms) :
    Carries (σ.members L.below).hosts (told L.lower.subscriber (σ.sentOver ms))
      ((σ.after ms).members L.below).hosts := by
  induction ms generalizing σ with
  | nil => exact .refl _
  | cons m rest ih =>
    rw [sentOver, told_append]
    exact (carries_move h hexact.1).append (ih (h.move (hrespects m List.mem_cons_self))
      (fun d hd => hrespects d (List.mem_cons_of_mem m hd)) hexact.2)

theorem linked_after (h : Linked L σ) {ms : List Move} (hrespects : ∀ m ∈ ms, m.Respects L) :
    Linked L (σ.after ms) := by
  induction ms generalizing σ with
  | nil => exact h
  | cons m rest ih =>
    exact ih (h.move (hrespects m List.mem_cons_self))
      fun d hd => hrespects d (List.mem_cons_of_mem m hd)

/-! ## Letting go -/

/-- A population that follows nobody any more, and its listener. -/
structure Parted (L : Layering) (σ : Network) : Prop where
  exists_population : L.population < σ.populations.size
  free : ∀ k, σ.subscriptions (.follower L.population) k = []
  upper : σ.Attached L.population L.upperNumber L.upper.subscriber

/-- The layered population lets go of the one below. -/
theorem Linked.part (h : Linked L σ) : Parted L (σ.unsubscribe L.below L.number).1 where
  exists_population := by
    rw [size_unsubscribe]
    exact h.exists_population
  free k := by
    rw [subscriptions_unsubscribe]
    split
    · -- it had this one subscription
      rw [h.follows.once, if_pos rfl]
      simp
    · next hne => rw [h.follows.once, if_neg hne]
  upper := by
    have hne : L.below ≠ L.population := Nat.ne_of_lt h.below_lt
    exact h.upper.move_listener (m := .event (.unsubscribe L.below L.number)) (fun _ => by simp)
      fun heq => hne (by injection heq with heq; injection heq)

theorem Parted.move (h : Parted L σ) (hm : m.Respects L) : Parted L (σ.move m).1 where
  exists_population := Nat.lt_of_lt_of_le h.exists_population (size_le_move σ m)
  free := by
    refine subscriptions_move h.free (fun n l _ => l.subscriber_ne_follower _) ?_
    exact fun _ _ _ heq => Nat.ne_of_gt h.exists_population (Subscriber.follower.inj heq)
  upper := h.upper.move_listener hm.upper hm.upper_stays

theorem parted_move (h : Parted L σ) (hm : m.Respects L) :
    (σ.move m).1.members L.population = σ.members L.population ∧
      told L.upper.subscriber (σ.move m).2 = [] := by
  rcases move_cases σ m with ⟨hsent, hmembers⟩ | ⟨ν, p, next, htarget, hlinks, hsame, hmove, -⟩
  · exact ⟨hmembers _ h.exists_population, by rw [hsent]; rfl⟩
  · have hp : p ≠ L.population := fun heq => hm.target (heq ▸ htarget)
    have hfree : ∀ k, ∀ e ∈ ν.subscribers k, e.2 ≠ .follower L.population := by
      intro k e he hfollows
      rw [hlinks.subscribers] at he
      have hnone := List.filter_eq_nil_iff.mp (h.free k) e he
      simp [hfollows] at hnone
    obtain ⟨hmembers, htold⟩ := unfollowed_update hfree (h.upper.congr hlinks) hp next
    rw [hmove]
    exact ⟨hmembers.trans (hsame _), htold⟩

/-- A population that has let go is left alone. -/
theorem parted_after (h : Parted L σ) {ms : List Move} (hrespects : ∀ m ∈ ms, m.Respects L) :
    (σ.after ms).members L.population = σ.members L.population ∧
      told L.upper.subscriber (σ.sentOver ms) = [] := by
  induction ms generalizing σ with
  | nil => exact ⟨rfl, rfl⟩
  | cons m rest ih =>
    have hm := hrespects m List.mem_cons_self
    obtain ⟨hmembers, htold⟩ := parted_move h hm
    obtain ⟨hrest, htold'⟩ := ih (h.move hm) fun d hd => hrespects d (List.mem_cons_of_mem m hd)
    rw [sentOver, told_append, htold, htold']
    exact ⟨hrest.trans hmembers, rfl⟩

/-! ## A layer and its listeners -/

/-- Lets a listener subscribe to a population, makes another one layered over
it, and lets a listener subscribe to that. -/
def layer (σ : Network) (seed : List Host) (below : Nat) (lower upper : Listener) :
    Network × Layering :=
  let watched := σ.subscribe below lower.subscriber
  let built := watched.1.addLayered seed below
  let τ := built.1.subscribe built.2 upper.subscriber
  (τ.1, {
    below
    population := built.2
    number := built.1.subscription built.2
    lower
    lowerNumber := watched.2
    upper
    upperNumber := τ.2 })

section

variable {seed : List Host} {below : Nat} {lower upper : Listener}

theorem linked_addLayered (hσ : σ.Layered) {number : Nat}
    (hlower : σ.Attached below number lower.subscriber) (hne : lower ≠ upper)
    (hupper : ∀ k, σ.subscriptions upper.subscriber k = [])
    (hnew : ∀ k, σ.subscriptions (.follower σ.populations.size) k = []) :
    let n := σ.populations.size
    let built := (σ.addLayered seed below).1
    let τ := built.subscribe n upper.subscriber
    Linked ⟨below, n, built.subscription n, lower, number, upper, τ.2⟩ τ.1 := by
  intro n built τ
  let made : Event := .addLayered seed below
  let listens : Event := .subscribe n upper
  have hfollows : built.Attached below (built.subscription n) (.follower n) :=
    attached_addLayered hlower.exists_population hnew
  have hwatched : built.Attached below number lower.subscriber :=
    hlower.step (e := made) (fun _ => nofun) nofun
  have hfree (k : Nat) : built.subscriptions upper.subscriber k = [] :=
    (subscriptions_step (e := made) (fun _ => nofun) (fun _ _ => nofun) k).trans (hupper k)
  have hn : n < built.populations.size :=
    Nat.lt_of_lt_of_eq (Nat.lt_succ_self _) size_addLayered.symm
  have hother (k : Nat) (heq : listens = .subscribe k lower) : False := by
    injection heq with _ heq
    exact hne heq.symm
  exact {
    layered := (hσ.step made).step listens
    exists_population := Nat.lt_of_lt_of_le hn (Nat.le_of_eq (size_subscribe ..).symm)
    follows := hfollows.step_of (e := listens) (fun _ l _ => l.subscriber_ne_follower _)
      (fun _ _ => nofun) nofun
    lower := hwatched.step (e := listens) hother nofun
    upper := attached_subscribe hn hfree }

theorem layer_eq (σ : Network) (seed : List Host) (below : Nat) (lower upper : Listener) :
    let watched := σ.subscribe below lower.subscriber
    let n := σ.populations.size
    let built := (watched.1.addLayered seed below).1
    let τ := built.subscribe n upper.subscriber
    σ.layer seed below lower upper =
      (τ.1, ⟨below, n, built.subscription n, lower, watched.2, upper, τ.2⟩) := by
  have hn : ((σ.subscribe below lower.subscriber).1.addLayered seed below).2 = σ.populations.size :=
    snd_addLayered.trans (size_subscribe ..)
  simp only [layer, hn]

theorem linked_layer (hσ : σ.Layered) (hbelow : below < σ.populations.size) (hne : lower ≠ upper)
    (hlower : ∀ k, σ.subscriptions lower.subscriber k = [])
    (hupper : ∀ k, σ.subscriptions upper.subscriber k = [])
    (hnew : ∀ k, σ.subscriptions (.follower σ.populations.size) k = []) :
    Linked (σ.layer seed below lower upper).2 (σ.layer seed below lower upper).1 := by
  have hsize := size_subscribe σ below lower.subscriber
  have hlayered : (σ.subscribe below lower.subscriber).1.Layered := hσ.step (.subscribe below lower)
  rw [layer_eq, ← hsize]
  refine linked_addLayered hlayered (attached_subscribe hbelow hlower) hne (fun k => ?_) fun k => ?_
  · rw [subscriptions_subscribe fun heq => hne (Listener.subscriber_inj.mp heq), hupper]
  · rw [hsize, subscriptions_subscribe (lower.subscriber_ne_follower _), hnew]

/-- A layered population starts with its seed and the hosts of the one below. -/
theorem mem_layer (seed : List Host) (lower upper : Listener) (hbelow : below < σ.populations.size)
    (q : Host) :
    let (τ, L) := σ.layer seed below lower upper
    q ∈ (τ.members L.population).hosts ↔ q ∈ (τ.members below).hosts ∨ q ∈ seed := by
  have hsize := size_subscribe σ below lower.subscriber
  have hbelow' : below < (σ.subscribe below lower.subscriber).1.populations.size := by
    rw [hsize]
    exact hbelow
  rw [layer_eq]
  simp only [members_subscribe]
  rw [members_addLayered_of_lt hbelow', ← hsize, members_addLayered_self,
    Membership.mem_insertAll, Membership.ofHosts, mem_distinctHosts]

/-- What is layered over a population of a network that came about by moves is
linked to it. -/
theorem linked_of_layer {before : List Move} {τ : Network} {L : Layering}
    (hbelow : below < (({} : Network).after before).populations.size) (hne : lower ≠ upper)
    (hfresh : ∀ n, ∀ l ∈ [lower, upper], Move.event (.subscribe n l) ∉ before)
    (hlayer : (({} : Network).after before).layer seed below lower upper = (τ, L)) :
    Linked L τ := by
  let σ := ({} : Network).after before
  have hnone (s : Subscriber) (k : Nat) : ({} : Network).subscriptions s k = [] := by
    simp [subscriptions, subscribers_of_le]
  have hunused (l : Listener) (hl : l ∈ [lower, upper]) (k : Nat) :
      σ.subscriptions l.subscriber k = [] := by
    refine subscriptions_after (hnone _) ?_ (fun k _ => (l.subscriber_ne_follower k).symm) k
    rintro n j hj heq
    exact hfresh n l hl (Listener.subscriber_inj.mp heq ▸ hj)
  have hunmade (k : Nat) : σ.subscriptions (.follower σ.populations.size) k = [] := by
    refine subscriptions_after (hnone _) (fun _ l _ => l.subscriber_ne_follower _) ?_ k
    exact fun k hk heq => Nat.ne_of_lt hk (Subscriber.follower.inj heq)
  have hlinked : Linked (σ.layer seed below lower upper).2 (σ.layer seed below lower upper).1 :=
    linked_layer (layered_after layered_empty before) hbelow hne (hunused lower (by simp))
      (hunused upper (by simp)) hunmade
  rw [hlayer] at hlinked
  exact hlinked

end

/-! ## What is held -/

/-- A layered population holds the hosts of the population below, whose changes
are exact, and those of its seed that it was not told to have left. Its listener
is told of exactly the changes that were changes for it, and of none once the
population has let go of the one below.

The changes are exact as long as populations of whatever make tell of theirs
exactly (`carries_after`). -/
theorem layered_holds (before ms later : List Move) {seed : List Host} {below : Nat}
    {lower upper : Listener} {τ : Network} {L : Layering}
    (hbelow : below < (({} : Network).after before).populations.size) (hne : lower ≠ upper)
    (hfresh : ∀ n, ∀ l ∈ [lower, upper], Move.event (.subscribe n l) ∉ before)
    (hlayer : (({} : Network).after before).layer seed below lower upper = (τ, L))
    (hrespects : ∀ m ∈ ms ++ later, m.Respects L)
    (hexact : Carries (τ.members below).hosts (told lower.subscriber (τ.sentOver ms))
      ((τ.after ms).members below).hosts) :
    let φ := τ.after ms
    let heard := told lower.subscriber (τ.sentOver ms)
    let υ := (φ.unsubscribe below L.number).1
    (∀ q, q ∈ (φ.members L.population).hosts ↔
      q ∈ (φ.members below).hosts ∨ q ∈ seed ∧ .removed q ∉ heard) ∧
    (φ.members below).hosts ⊆ (φ.members L.population).hosts ∧
    PassesOn (τ.members L.population).hosts heard (told upper.subscriber (τ.sentOver ms)) ∧
    told upper.subscriber (υ.sentOver later) = [] ∧
    (υ.after later).members L.population = φ.members L.population := by
  intro φ heard υ
  have hlinked := linked_of_layer hbelow hne hfresh hlayer
  have hstart := mem_layer seed lower upper hbelow
  rw [hlayer] at hstart
  obtain ⟨rfl, rfl, rfl⟩ : L.below = below ∧ L.lower = lower ∧ L.upper = upper := by
    obtain rfl : _ = L := congrArg Prod.snd hlayer
    exact ⟨rfl, rfl, rfl⟩
  have hms : ∀ m ∈ ms, m.Respects L := fun m hm => hrespects m (List.mem_append_left later hm)
  have hlater : ∀ m ∈ later, m.Respects L := fun m hm => hrespects m (List.mem_append_right ms hm)
  have hfollowed := followed_after hlinked hms
  have hholds (q : Host) : q ∈ (φ.members L.population).hosts ↔
      q ∈ (φ.members L.below).hosts ∨ q ∈ seed ∧ .removed q ∉ heard := by
    rw [hfollowed.members, Membership.mem_followAll hstart, hexact.reaches]
  refine ⟨hholds, fun q hq => (hholds q).mpr (.inl hq), ?_, ?_⟩
  · rw [hfollowed.passed]
    exact Membership.passesOn_followAll ..
  · obtain ⟨hmembers, htold⟩ := parted_after (linked_after hlinked hms).part hlater
    exact ⟨htold, hmembers.trans (members_unsubscribe ..)⟩

/-- One host of the seed joins below, one leaves below, and one is never heard
of; the population below is reset and later replaced; and the layered one lets
go of it before a host joins again. -/
theorem layered_holds_reset :
    let host (n : String) : Host := .conventional n
    let before : List Move := [.event (.addByHand [host "a", host "b"])]
    let seed : List Host := [host "b", host "c", host "e"]
    let built := (({} : Network).after before).layer seed 0 (.log 0) (.log 1)
    let τ := built.1
    let L := built.2
    let μ : Membership := .ofHosts [host "b", host "d"]
    let ms : List Move := [.event (.insert 0 (host "c")), .event (.remove 0 (host "b")),
      .event (.reset 0 [host "b", host "d"]),
      .change 0 (μ.remove (host "b")).1 (μ.remove (host "b")).2]
    let later : List Move := [.event (.insert 0 (host "a"))]
    let φ := τ.after ms
    let υ := (φ.unsubscribe 0 L.number).1
    (0 < (({} : Network).after before).populations.size ∧
      (∀ n, ∀ l ∈ [Listener.log 0, .log 1], Move.event (.subscribe n l) ∉ before) ∧
      (∀ m ∈ ms ++ later, m.Respects L) ∧
      Carries (τ.members 0).hosts (told (.log 0) (τ.sentOver ms)) (φ.members 0).hosts) ∧
    (φ.members 0).hosts = [host "d"] ∧
    (φ.members L.population).hosts = [host "e", host "d"] ∧
    told (.log 1) (τ.sentOver ms) = [.removed (host "b"), .removed (host "a"),
      .removed (host "c"), .added (host "b"), .added (host "d"), .removed (host "b")] ∧
    told (.log 1) (υ.sentOver later) = [] := by
  intro host before seed built τ L μ ms later φ υ
  have hbelow : 0 < (({} : Network).after before).populations.size := Nat.one_pos
  have hfresh : ∀ n, ∀ l ∈ [Listener.log 0, .log 1], Move.event (.subscribe n l) ∉ before := by
    simp [before]
  have hL : L = ⟨0, 1, 1, .log 0, 0, .log 1, 0⟩ := by decide +kernel
  have hrespects : ∀ m ∈ ms ++ later, m.Respects L := by
    rw [hL]
    intro m hm
    simp only [ms, later, List.mem_append, List.mem_cons, List.not_mem_nil, or_false] at hm
    rcases hm with (rfl | rfl | rfl | rfl) | rfl <;> constructor <;> simp [Move.target?]
  have hlayer : (({} : Network).after before).layer seed 0 (.log 0) (.log 1) = (τ, L) :=
    (Prod.eta built).symm
  have hlinked := linked_of_layer hbelow (by decide) hfresh hlayer
  have hexact : Exact τ ms := by
    have hmembers : ((τ.after (ms.take 3)).members 0) = μ := by decide +kernel
    refine ⟨trivial, trivial, trivial, ?_, trivial⟩
    show Carries ((τ.after (ms.take 3)).members 0).hosts _ _
    rw [hmembers]
    exact μ.carries_remove _
  have hcarries := carries_after hlinked
    (fun m hm => hrespects m (List.mem_append_left later hm)) hexact
  obtain ⟨-, -, -, hleft, -⟩ :=
    layered_holds before ms later hbelow (by decide) hfresh hlayer hrespects hcarries
  exact ⟨⟨hbelow, hfresh, hrespects, hcarries⟩, by decide +kernel, by decide +kernel,
    by decide +kernel, hleft⟩

end Fleet.Network
