import Fleet.Population.Network
import Fleet.Proofs.Population.Changes

/-!
# How a change travels

A change of a population goes to its subscribers; a follower among them applies
it to its own members and passes on what that changed. Followers come after the
population that they follow (`Layered`), so the populations up to the one that
publishes keep their members, and the fuel lasts.

For a subscriber that is attached to one population, `Published` says what it
is told when changes are published at some population: these changes if it is
its own population, nothing if that comes later, and otherwise changes that
carry the members of its population to what they are afterwards.
-/

namespace Fleet.Network

open Change

/-! ## Members and links -/

theorem get?_modify (σ : Network) (n k : Nat) (f : Population → Population) :
    (σ.modify n f).get? k = if n = k then (σ.get? k).map f else σ.get? k := by
  unfold modify get?
  rw [Array.getElem?_modify]

/-- The subscribers of a population. -/
def subscribers (σ : Network) (n : Nat) : List (Nat × Subscriber) :=
  (σ.get? n).elim [] (·.subscribers)

theorem members_modify {f : Population → Population} (hf : ∀ p, (f p).members = p.members)
    (σ : Network) (n k : Nat) : (σ.modify n f).members k = σ.members k := by
  unfold members
  rw [get?_modify]
  split
  · cases σ.get? k <;> simp [hf]
  · rfl

theorem subscribers_modify {f : Population → Population}
    (hf : ∀ p, (f p).subscribers = p.subscribers) (σ : Network) (n k : Nat) :
    (σ.modify n f).subscribers k = σ.subscribers k := by
  unfold subscribers
  rw [get?_modify]
  split
  · cases σ.get? k <;> simp [hf]
  · rfl

theorem size_modify (σ : Network) (n : Nat) (f : Population → Population) :
    (σ.modify n f).populations.size = σ.populations.size := Array.size_modify

theorem members_setMembers_self {σ : Network} {n : Nat} (hn : n < σ.populations.size)
    (m : Membership) : (σ.setMembers n m).members n = m := by
  unfold members setMembers
  rw [get?_modify, if_pos rfl]
  simp [get?, hn]

theorem members_setMembers_of_ne (σ : Network) {n k : Nat} (m : Membership) (h : k ≠ n) :
    (σ.setMembers n m).members k = σ.members k := by
  unfold members setMembers
  rw [get?_modify, if_neg (Ne.symm h)]

/-- Two networks of the same populations with the same subscribers. -/
structure SameLinks (σ τ : Network) : Prop where
  size : τ.populations.size = σ.populations.size
  subscribers : ∀ n, τ.subscribers n = σ.subscribers n

theorem SameLinks.refl (σ : Network) : SameLinks σ σ := ⟨rfl, fun _ => rfl⟩

theorem SameLinks.trans {σ τ υ : Network} (h : SameLinks σ τ) (k : SameLinks τ υ) :
    SameLinks σ υ :=
  ⟨k.size.trans h.size, fun n => (k.subscribers n).trans (h.subscribers n)⟩

theorem sameLinks_setMembers (σ : Network) (n : Nat) (m : Membership) :
    SameLinks σ (σ.setMembers n m) :=
  ⟨size_modify .., subscribers_modify (f := fun p => { p with members := m }) (fun _ => rfl) σ n⟩

/-- Followers come after the population that they follow. -/
def Layered (σ : Network) : Prop :=
  ∀ n, ∀ e ∈ σ.subscribers n, ∀ k, e.2 = .follower k → n < k

/-- The subscriptions that a subscriber has to a population. -/
def subscriptions (σ : Network) (s : Subscriber) (n : Nat) : List (Nat × Subscriber) :=
  (σ.subscribers n).filter fun e => e.2 = s

/-- A subscriber has one subscription, to that population and of that number. -/
structure Attached (σ : Network) (q number : Nat) (s : Subscriber) : Prop where
  exists_population : q < σ.populations.size
  once : ∀ n, σ.subscriptions s n = if n = q then [(number, s)] else []

theorem Layered.congr {σ τ : Network} (h : σ.Layered) (k : SameLinks σ τ) : τ.Layered := by
  intro n e he
  rw [k.subscribers] at he
  exact h n e he

theorem Attached.congr {σ τ : Network} {q number : Nat} {s : Subscriber}
    (h : σ.Attached q number s) (k : SameLinks σ τ) : τ.Attached q number s :=
  ⟨by rw [k.size]; exact h.exists_population,
    fun n => by rw [subscriptions, k.subscribers]; exact h.once n⟩

/-! ## Publishing keeps the links -/

theorem sameLinks_foldl {α : Type} {f : Network × List Delivery → α → Network × List Delivery}
    (hf : ∀ acc x, SameLinks acc.1 (f acc x).1) (xs : List α) (acc : Network × List Delivery) :
    SameLinks acc.1 (xs.foldl f acc).1 := by
  induction xs generalizing acc with
  | nil => exact .refl acc.1
  | cons x rest ih => exact (hf acc x).trans (ih (f acc x))

theorem sameLinks_each {f : Network → Change → Network × List Delivery}
    (hf : ∀ σ c, SameLinks σ (f σ c).1) (changes : List Change)
    (σ : Network) (before : List Delivery) :
    SameLinks σ (changes.foldl (fun (σ, sent) c =>
      let (σ, more) := f σ c
      (σ, sent ++ more)) (σ, before)).1 :=
  sameLinks_foldl (f := fun (σ, sent) c => ((f σ c).1, sent ++ (f σ c).2))
    (fun acc c => hf acc.1 c) changes (σ, before)

/-- Tells one subscriber of a change. -/
def tell (fuel : Nat) (c : Change) (acc : Network × List Delivery) (e : Nat × Subscriber) :
    Network × List Delivery :=
  match e.2 with
  | .follower k =>
    ((acc.1.members k).follow c).2.foldl (fun (σ, sent) c =>
      let (σ, more) := publishFrom fuel σ k c
      (σ, sent ++ more)) (acc.1.setMembers k ((acc.1.members k).follow c).1, acc.2)
  | s => (acc.1, acc.2 ++ [⟨s, c⟩])

theorem publishFrom_succ (fuel : Nat) (σ : Network) (n : Nat) (c : Change) :
    publishFrom (fuel + 1) σ n c = (σ.subscribers n).foldl (tell fuel c) (σ, []) := rfl

theorem sameLinks_tell {fuel : Nat} (h : ∀ σ n c, SameLinks σ (publishFrom fuel σ n c).1)
    (c : Change) (acc : Network × List Delivery) (e : Nat × Subscriber) :
    SameLinks acc.1 (tell fuel c acc e).1 := by
  unfold tell
  split
  · next k _ =>
    exact (sameLinks_setMembers acc.1 k _).trans (sameLinks_each (fun σ d => h σ k d) _ _ acc.2)
  · exact .refl acc.1

theorem sameLinks_publishFrom (fuel : Nat) (σ : Network) (n : Nat) (c : Change) :
    SameLinks σ (publishFrom fuel σ n c).1 := by
  induction fuel generalizing σ n c with
  | zero => exact .refl σ
  | succ fuel ih =>
    rw [publishFrom_succ]
    exact sameLinks_foldl (sameLinks_tell ih c) (σ.subscribers n) (σ, [])

theorem sameLinks_update (σ : Network) (n : Nat) (next : Membership × List Change) :
    SameLinks σ (σ.update n next).1 :=
  (sameLinks_setMembers σ n next.1).trans
    (sameLinks_each (fun τ c => sameLinks_publishFrom τ.populations.size τ n c) next.2 _ [])

/-! ## Changes that a subscriber is told of -/

/-- The changes that a subscriber is told of. -/
def told (s : Subscriber) (sent : List Delivery) : List Change :=
  (sent.filter fun d => d.subscriber = s).map (·.change)

@[simp] theorem told_nil (s : Subscriber) : told s [] = [] := rfl

@[simp] theorem told_append (s : Subscriber) (xs ys : List Delivery) :
    told s (xs ++ ys) = told s xs ++ told s ys := by
  simp [told]

/-- What a subscriber of population `q` is told when changes are published at
population `n`. -/
structure Published (s : Subscriber) (q n : Nat) (σ : Network) (changes : List Change)
    (τ : Network) (sent : List Delivery) : Prop where
  same : ∀ k ≤ n, τ.members k = σ.members k
  own : n = q → told s sent = changes
  later : q < n → told s sent = []
  earlier : n < q → Carries (σ.members q).hosts (told s sent) (τ.members q).hosts

namespace Published

variable {s : Subscriber} {q n : Nat} {σ τ υ : Network} {cs ds : List Change}
  {sent more : List Delivery}

theorem refl (s : Subscriber) (q n : Nat) (σ : Network) : Published s q n σ [] σ [] :=
  ⟨fun _ _ => rfl, fun _ => rfl, fun _ => rfl, fun _ => .refl _⟩

theorem append (h : Published s q n σ cs τ sent) (k : Published s q n τ ds υ more) :
    Published s q n σ (cs ++ ds) υ (sent ++ more) where
  same j hj := (k.same j hj).trans (h.same j hj)
  own hq := by rw [told_append, h.own hq, k.own hq]
  later hq := by rw [told_append, h.later hq, k.later hq]; rfl
  earlier hq := by
    rw [told_append]
    exact (h.earlier hq).append (k.earlier hq)

end Published

/-- What a subscriber of population `q` is told when the members of population
`n` are replaced and the changes published. -/
structure Updated (s : Subscriber) (q n : Nat) (σ τ : Network) (sent : List Delivery) :
    Prop where
  same : ∀ k < n, τ.members k = σ.members k
  later : q < n → told s sent = []
  carries : Carries (σ.members q).hosts (told s sent) (τ.members q).hosts

/-- Changes that carry the members of a population to others may be published
there once they are made. -/
theorem Published.updated {s : Subscriber} {q n : Nat} {σ τ : Network} {cs : List Change}
    {sent : List Delivery} {m : Membership} (hq : q < σ.populations.size)
    (h : Published s q n (σ.setMembers n m) cs τ sent)
    (hm : Carries (σ.members n).hosts cs m.hosts) : Updated s q n σ τ sent where
  same k hk := by
    rw [h.same k (Nat.le_of_lt hk), members_setMembers_of_ne σ m (Nat.ne_of_lt hk)]
  later := h.later
  carries := by
    rcases Nat.lt_trichotomy n q with hlt | rfl | hgt
    · have hcarries := h.earlier hlt
      rw [members_setMembers_of_ne σ m (Nat.ne_of_gt hlt)] at hcarries
      exact hcarries
    · rw [h.own rfl, h.same n (Nat.le_refl n), members_setMembers_self hq]
      exact hm
    · rw [h.later hgt, h.same q (Nat.le_of_lt hgt),
        members_setMembers_of_ne σ m (Nat.ne_of_lt hgt)]
      exact .refl _

/-! ## Publishing -/

/-- Changes published one after the other are published as a whole. -/
theorem published_foldl {s : Subscriber} {q n : Nat} {σ : Network}
    {f : Network → Change → Network × List Delivery} (hlinks : ∀ τ c, SameLinks τ (f τ c).1)
    (hf : ∀ τ c, SameLinks σ τ → Published s q n τ [c] (f τ c).1 (f τ c).2)
    (changes : List Change) {τ : Network} (hτ : SameLinks σ τ) (before : List Delivery) :
    ∃ υ sent, changes.foldl (fun (σ, sent) c =>
        let (σ, more) := f σ c
        (σ, sent ++ more)) (τ, before) = (υ, before ++ sent) ∧
      Published s q n τ changes υ sent := by
  induction changes generalizing τ before with
  | nil => exact ⟨τ, [], by simp, .refl s q n τ⟩
  | cons c rest ih =>
    have hfirst := hf τ c hτ
    obtain ⟨υ, sent, hfold, hrest⟩ := ih (hτ.trans (hlinks τ c)) (before ++ (f τ c).2)
    refine ⟨υ, (f τ c).2 ++ sent, ?_, hfirst.append hrest⟩
    rw [List.foldl_cons, ← List.append_assoc]
    exact hfold

/-- What a subscriber of population `q` is told when subscribers of population
`n` are told of a change. -/
structure Heard (s : Subscriber) (q n : Nat) (c : Change) (subscribers : List (Nat × Subscriber))
    (σ τ : Network) (sent : List Delivery) : Prop where
  same : ∀ k ≤ n, τ.members k = σ.members k
  near : q ≤ n → told s sent = (subscribers.filter fun e => e.2 = s).map fun _ => c
  far : n < q → (∀ e ∈ subscribers, e.2 ≠ s) →
    Carries (σ.members q).hosts (told s sent) (τ.members q).hosts

theorem Heard.cons {s : Subscriber} {q n : Nat} {c : Change} {e : Nat × Subscriber}
    {rest : List (Nat × Subscriber)} {σ τ υ : Network} {sent more : List Delivery}
    (h : Heard s q n c [e] σ τ sent) (k : Heard s q n c rest τ υ more) :
    Heard s q n c (e :: rest) σ υ (sent ++ more) where
  same j hj := (k.same j hj).trans (h.same j hj)
  near hq := by
    rw [told_append, h.near hq, k.near hq, ← List.map_append, ← List.filter_append]
    rfl
  far hq hne := by
    rw [told_append]
    exact (h.far hq fun d hd => hne d (by simp_all)).append
      (k.far hq fun d hd => hne d (List.mem_cons_of_mem _ hd))

/-- A subscriber that is no follower is told of the change as it is. -/
theorem heard_outsider (s : Subscriber) (q n fuel : Nat) (c : Change) (σ : Network)
    {e : Nat × Subscriber} (he : ∀ k, e.2 ≠ .follower k) (before : List Delivery) :
    ∃ sent, tell fuel c (σ, before) e = (σ, before ++ sent) ∧ Heard s q n c [e] σ σ sent := by
  refine ⟨[⟨e.2, c⟩], ?_, fun _ _ => rfl, fun _ => ?_, fun _ hne => ?_⟩
  · unfold tell
    split
    · next k hk => exact absurd hk (he k)
    · rfl
  · by_cases heq : e.2 = s <;> simp [told, heq]
  · have hne : e.2 ≠ s := hne e List.mem_cons_self
    simpa [told, hne] using Carries.refl (σ.members q).hosts

section

variable {s : Subscriber} {q n number fuel : Nat} {c : Change}
  (hs : ∀ k, s ≠ .follower k)
  -- publishing with less fuel at a population that comes later
  (ih : ∀ (σ : Network) (k : Nat) (c : Change), σ.Layered → σ.Attached q number s →
    σ.populations.size ≤ k + fuel →
      Published s q k σ [c] (publishFrom fuel σ k c).1 (publishFrom fuel σ k c).2)

include hs ih

/-- A follower passes on what changed its own members. -/
theorem heard_follower {σ : Network} (hσ : σ.Layered) (ha : σ.Attached q number s)
    (hfuel : σ.populations.size ≤ n + (fuel + 1)) {m k : Nat} (hk : n < k)
    (before : List Delivery) :
    ∃ τ sent, tell fuel c (σ, before) (m, .follower k) = (τ, before ++ sent) ∧
      Heard s q n c [(m, .follower k)] σ τ sent := by
  have hset := sameLinks_setMembers σ k ((σ.members k).follow c).1
  have hpublish : ∀ τ d, SameLinks (σ.setMembers k ((σ.members k).follow c).1) τ →
      Published s q k τ [d] (publishFrom fuel τ k d).1 (publishFrom fuel τ k d).2 := by
    intro τ d hτ
    have hτ := hset.trans hτ
    exact ih τ k d (hσ.congr hτ) (ha.congr hτ) (by rw [hτ.size]; omega)
  obtain ⟨τ, sent, hfold, hpublished⟩ :=
    published_foldl (fun τ d => sameLinks_publishFrom fuel τ k d) hpublish
      ((σ.members k).follow c).2 (.refl _) before
  have hupdated := hpublished.updated ha.exists_population ((σ.members k).carries_follow c)
  refine ⟨τ, sent, hfold, fun j hj => hupdated.same j (by omega), ?_, ?_⟩
  · intro hq
    rw [hupdated.later (by omega)]
    simp [Ne.symm (hs k)]
  · exact fun _ _ => hupdated.carries

theorem heard_foldl {subscribers : List (Nat × Subscriber)}
    (hlater : ∀ e ∈ subscribers, ∀ k, e.2 = .follower k → n < k) {σ : Network}
    (hσ : σ.Layered) (ha : σ.Attached q number s)
    (hfuel : σ.populations.size ≤ n + (fuel + 1)) (before : List Delivery) :
    ∃ τ sent, subscribers.foldl (tell fuel c) (σ, before) = (τ, before ++ sent) ∧
      Heard s q n c subscribers σ τ sent := by
  induction subscribers generalizing σ before with
  | nil =>
    exact ⟨σ, [], by simp, fun _ _ => rfl, fun _ => rfl, fun _ _ => .refl _⟩
  | cons e rest ihrest =>
    obtain ⟨τ, sent, htell, hfirst⟩ : ∃ τ sent,
        tell fuel c (σ, before) e = (τ, before ++ sent) ∧ Heard s q n c [e] σ τ sent := by
      by_cases he : ∃ k, e.2 = .follower k
      · obtain ⟨k, hk⟩ := he
        obtain ⟨m, s'⟩ := e
        obtain rfl : s' = .follower k := hk
        exact heard_follower hs ih hσ ha hfuel (hlater _ List.mem_cons_self k rfl) before
      · exact ⟨σ, heard_outsider s q n fuel c σ (fun k hk => he ⟨k, hk⟩) before⟩
    have hlinks := sameLinks_tell (sameLinks_publishFrom fuel) c (σ, before) e
    rw [htell] at hlinks
    obtain ⟨υ, more, hfold, hrest⟩ :=
      ihrest (fun d hd => hlater d (List.mem_cons_of_mem _ hd)) (hσ.congr hlinks)
        (ha.congr hlinks) (by rw [hlinks.size]; exact hfuel) (before ++ sent)
    refine ⟨υ, sent ++ more, ?_, hfirst.cons hrest⟩
    rw [List.foldl_cons, htell, hfold, List.append_assoc]

end

theorem published_publishFrom {s : Subscriber} {q number : Nat} (hs : ∀ k, s ≠ .follower k)
    (fuel : Nat) (σ : Network) (n : Nat) (c : Change) (hσ : σ.Layered)
    (ha : σ.Attached q number s) (hfuel : σ.populations.size ≤ n + fuel) :
    Published s q n σ [c] (publishFrom fuel σ n c).1 (publishFrom fuel σ n c).2 := by
  -- each follower comes later, so one unit of fuel less is enough for it
  induction fuel generalizing σ n c with
  | zero =>
    have hq := ha.exists_population
    exact ⟨fun _ _ => rfl, fun _ => by omega, fun _ => rfl, fun _ => by omega⟩
  | succ fuel ih =>
    obtain ⟨τ, sent, hfold, hheard⟩ :=
      heard_foldl hs ih (hσ n) hσ ha hfuel (c := c) []
    rw [publishFrom_succ, hfold]
    have honce : (σ.subscribers n).filter (fun e => e.2 = s) = _ := ha.once n
    refine ⟨hheard.same, fun hq => ?_, fun hq => ?_, fun hq => ?_⟩
    · rw [if_pos hq] at honce
      rw [List.nil_append, hheard.near (by omega), honce]
      rfl
    · rw [if_neg (by omega)] at honce
      rw [List.nil_append, hheard.near (by omega), honce]
      rfl
    · rw [if_neg (by omega), List.filter_eq_nil_iff] at honce
      exact hheard.far hq fun e he => by simpa using honce e he

/-- The members of a population are replaced, then the changes published. -/
theorem published_update {s : Subscriber} {q number : Nat} (hs : ∀ k, s ≠ .follower k)
    {σ : Network} (hσ : σ.Layered) (ha : σ.Attached q number s) (n : Nat)
    (next : Membership × List Change) :
    Published s q n (σ.setMembers n next.1) next.2 (σ.update n next).1 (σ.update n next).2 := by
  have hpublish : ∀ τ d, SameLinks (σ.setMembers n next.1) τ →
      Published s q n τ [d] (publishFrom τ.populations.size τ n d).1
        (publishFrom τ.populations.size τ n d).2 := by
    intro τ d hτ
    have hτ := (sameLinks_setMembers σ n next.1).trans hτ
    exact published_publishFrom hs _ τ n d (hσ.congr hτ) (ha.congr hτ) (by omega)
  obtain ⟨τ, sent, hfold, hpublished⟩ :=
    published_foldl (fun τ d => sameLinks_publishFrom _ τ n d) hpublish next.2 (.refl _) []
  have hupdate : σ.update n next = (τ, sent) := hfold
  rw [hupdate]
  exact hpublished

theorem updated_update {s : Subscriber} {q number : Nat} (hs : ∀ k, s ≠ .follower k)
    {σ : Network} (hσ : σ.Layered) (ha : σ.Attached q number s) (n : Nat)
    (next : Membership × List Change) (hnext : Carries (σ.members n).hosts next.2 next.1.hosts) :
    Updated s q n σ (σ.update n next).1 (σ.update n next).2 :=
  (published_update hs hσ ha n next).updated ha.exists_population hnext

end Fleet.Network
