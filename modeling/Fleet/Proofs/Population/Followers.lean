import Fleet.Proofs.Population.Sites

/-!
# What a follower makes of changes

A population that is layered over another hears of that one's changes, applies
those that are changes for itself, and passes them on (`Change.PassesOn`).

* **memberships** — `Membership.mem_followAll` says who the members are after
  changes that were heard of: those that an observer of the changes would hold,
  and what was there besides and was not told to have left;
* **publishing** — wherever changes are published, a layered population follows
  what a listener to the population below is told meanwhile, and tells its own
  listeners what that changed (`followed_update`). The induction goes along the
  fuel, as for a listener alone; the layered population comes after the one
  below, so publishing there is the case of a listener to its own population.
-/

namespace Fleet

open Change

/-- What is passed on of changes: those that change a set of hosts, in order. -/
inductive Change.PassesOn : List Host → List Change → List Change → Prop
  | nil (hosts : List Host) : PassesOn hosts [] []
  | pass {hosts : List Host} {c : Change} {heard passed : List Change} (hc : c.Effective hosts)
      (rest : PassesOn (replayOne hosts c) heard passed) : PassesOn hosts (c :: heard) (c :: passed)
  | suppress {hosts : List Host} {c : Change} {heard passed : List Change}
      (hc : ¬c.Effective hosts) (rest : PassesOn hosts heard passed) :
      PassesOn hosts (c :: heard) passed

/-! ## Memberships -/

namespace Membership

/-- Applies changes of the population that this one follows, in order. -/
def followAll (m : Membership) : List Change → Membership × List Change
  | [] => (m, [])
  | c :: rest =>
    let (m, first) := m.follow c
    let (m, others) := m.followAll rest
    (m, first ++ others)

@[simp] theorem followAll_nil (m : Membership) : m.followAll [] = (m, []) := rfl

theorem followAll_cons (m : Membership) (c : Change) (rest : List Change) :
    m.followAll (c :: rest) =
      (((m.follow c).1.followAll rest).1, (m.follow c).2 ++ ((m.follow c).1.followAll rest).2) := rfl

theorem followAll_singleton (m : Membership) (c : Change) : m.followAll [c] = m.follow c := by
  rw [followAll_cons, followAll_nil, List.append_nil]

theorem followAll_append (m : Membership) (cs ds : List Change) :
    m.followAll (cs ++ ds) =
      (((m.followAll cs).1.followAll ds).1,
        (m.followAll cs).2 ++ ((m.followAll cs).1.followAll ds).2) := by
  induction cs generalizing m with
  | nil => rfl
  | cons c rest ih =>
    rw [List.cons_append, followAll_cons, ih, followAll_cons, List.append_assoc]

/-- A change that is one for the members is applied and passed on. -/
theorem follow_of_effective {m : Membership} {c : Change} (h : c.Effective m.hosts) :
    (m.follow c).1.hosts = replayOne m.hosts c ∧ (m.follow c).2 = [c] := by
  cases c with
  | added host =>
    have hout : host ∉ m.hosts := h
    simp [follow, insert, replayOne, hout]
  | removed host =>
    have hin : host ∈ m.hosts := h
    simp [follow, remove, replayOne, hin]

theorem follow_of_not_effective {m : Membership} {c : Change} (h : ¬c.Effective m.hosts) :
    m.follow c = (m, []) := by
  cases c with
  | added host => exact insert_of_mem (Classical.not_not.mp h)
  | removed host =>
    have hout : host ∉ m.hosts := h
    simp [follow, remove, hout]

theorem passesOn_followAll (m : Membership) (changes : List Change) :
    PassesOn m.hosts changes (m.followAll changes).2 := by
  induction changes generalizing m with
  | nil => exact .nil m.hosts
  | cons c rest ih =>
    rw [followAll_cons]
    by_cases h : c.Effective m.hosts
    · obtain ⟨hhosts, hpassed⟩ := follow_of_effective h
      rw [hpassed]
      exact .pass h (hhosts ▸ ih (m.follow c).1)
    · rw [follow_of_not_effective h]
      exact .suppress h (ih m)

theorem mem_follow {m : Membership} {c : Change} {q : Host} :
    q ∈ (m.follow c).1.hosts ↔ q ∈ replayOne m.hosts c := by
  cases c with
  | added host => exact mem_insert.trans mem_replayOne_added.symm
  | removed host => exact mem_remove.trans mem_replayOne_removed.symm

/-- Who holds a set of hosts and others besides goes on to hold that set, as it
becomes, and those of the others that were not told to have left. -/
theorem mem_followAll {m : Membership} {hosts seed : List Host}
    (h : ∀ q, q ∈ m.hosts ↔ q ∈ hosts ∨ q ∈ seed) (changes : List Change) (q : Host) :
    q ∈ (m.followAll changes).1.hosts ↔
      q ∈ replay hosts changes ∨ q ∈ seed ∧ .removed q ∉ changes := by
  induction changes generalizing m hosts seed with
  | nil => simpa [replay] using h q
  | cons c rest ih =>
    cases c with
    | added host =>
      have hnext : ∀ x, x ∈ (m.follow (.added host)).1.hosts ↔
          x ∈ replayOne hosts (.added host) ∨ x ∈ seed := by
        intro x
        rw [mem_follow, mem_replayOne_added, mem_replayOne_added, h, or_assoc]
      rw [followAll_cons, ih hnext]
      simp [replay]
    | removed host =>
      have hnext : ∀ x, x ∈ (m.follow (.removed host)).1.hosts ↔
          x ∈ replayOne hosts (.removed host) ∨ x ∈ seed.filter (· ≠ host) := by
        intro x
        simp only [mem_follow, mem_replayOne_removed, h, List.mem_filter, decide_eq_true_eq]
        grind
      rw [followAll_cons, ih hnext]
      simp only [replay, List.foldl_cons, List.mem_filter, decide_eq_true_eq, List.mem_cons,
        Change.removed.injEq, not_or]
      grind

end Membership

/-! ## Publishing -/

namespace Network

/-- A population layered over another, and a listener at each of the two. -/
structure Layering where
  below : Nat
  population : Nat
  /-- The number under which the population follows the one below. -/
  number : Nat
  /-- Who listens to the population below, and under which number. -/
  lower : Listener
  lowerNumber : Nat
  /-- Who listens to the layered population, and under which number. -/
  upper : Listener
  upperNumber : Nat
  deriving DecidableEq

/-- The two populations and the two listeners are linked as they should be. -/
structure Linked (L : Layering) (σ : Network) : Prop where
  layered : σ.Layered
  exists_population : L.population < σ.populations.size
  follows : σ.Attached L.below L.number (.follower L.population)
  lower : σ.Attached L.below L.lowerNumber L.lower.subscriber
  upper : σ.Attached L.population L.upperNumber L.upper.subscriber

/-- A layered population has followed changes and told its listener what that
changed. -/
structure Followed (L : Layering) (σ : Network) (changes : List Change) (τ : Network)
    (sent : List Delivery) : Prop where
  members : τ.members L.population = ((σ.members L.population).followAll changes).1
  passed : told L.upper.subscriber sent = ((σ.members L.population).followAll changes).2

variable {L : Layering} {σ τ υ : Network} {cs ds : List Change} {sent more : List Delivery}

theorem Linked.congr (h : Linked L σ) (k : SameLinks σ τ) : Linked L τ :=
  ⟨h.layered.congr k, k.size ▸ h.exists_population, h.follows.congr k, h.lower.congr k,
    h.upper.congr k⟩

theorem Attached.mem_subscribers {q number : Nat} {s : Subscriber} (h : σ.Attached q number s)
    {e : Nat × Subscriber} {p : Nat} (he : e ∈ σ.subscribers p) (hs : e.2 = s) : p = q := by
  have hin : e ∈ σ.subscriptions s p := List.mem_filter.mpr ⟨he, by simpa using hs⟩
  rw [h.once p] at hin
  split at hin
  · assumption
  · cases hin

theorem Linked.below_lt (h : Linked L σ) : L.below < L.population := by
  have hin : (L.number, Subscriber.follower L.population) ∈
      σ.subscriptions (.follower L.population) L.below := by
    rw [h.follows.once, if_pos rfl]
    exact List.mem_singleton_self _
  exact h.layered L.below _ (List.mem_filter.mp hin).1 L.population rfl

theorem Followed.refl (L : Layering) (σ : Network) : Followed L σ [] σ [] := ⟨rfl, rfl⟩

theorem Followed.append (h : Followed L σ cs τ sent) (k : Followed L τ ds υ more) :
    Followed L σ (cs ++ ds) υ (sent ++ more) where
  members := by rw [Membership.followAll_append, k.members, h.members]
  passed := by
    rw [told_append, h.passed, k.passed, h.members, Membership.followAll_append]

/-- Nothing happens to a layered population. -/
theorem Followed.quiet (hmembers : τ.members L.population = σ.members L.population)
    (htold : told L.upper.subscriber sent = []) : Followed L σ [] τ sent :=
  ⟨hmembers, htold⟩

/-- What is followed of each change is followed of all. -/
theorem followed_foldl {f : Network → Change → Network × List Delivery}
    (hlinks : ∀ τ c, SameLinks τ (f τ c).1)
    (hf : ∀ τ c, SameLinks σ τ → Followed L τ (told L.lower.subscriber (f τ c).2) (f τ c).1 (f τ c).2)
    (changes : List Change) (hτ : SameLinks σ τ) (before : List Delivery) :
    ∃ υ sent, changes.foldl (fun (σ, sent) c =>
        let (σ, more) := f σ c
        (σ, sent ++ more)) (τ, before) = (υ, before ++ sent) ∧
      Followed L τ (told L.lower.subscriber sent) υ sent := by
  induction changes generalizing τ before with
  | nil => exact ⟨τ, [], by simp, .refl L τ⟩
  | cons c rest ih =>
    obtain ⟨υ, sent, hfold, hrest⟩ := ih (hτ.trans (hlinks τ c)) (before ++ (f τ c).2)
    refine ⟨υ, (f τ c).2 ++ sent, ?_, ?_⟩
    · rw [List.foldl_cons, ← List.append_assoc]
      exact hfold
    · rw [told_append]
      exact (hf τ c hτ).append hrest

section

variable {fuel p : Nat} {c : Change} {e : Nat × Subscriber}

/-- The layered population itself is told of a change. -/
theorem followed_own (h : Linked L σ) (hfuel : σ.populations.size ≤ L.population + fuel) (m : Nat)
    (before : List Delivery) :
    ∃ τ sent, tell fuel c (σ, before) (m, .follower L.population) = (τ, before ++ sent) ∧
      Followed L σ [c] τ sent := by
  let next := (σ.members L.population).follow c
  have hset := sameLinks_setMembers σ L.population next.1
  have hpublish : ∀ τ d, SameLinks (σ.setMembers L.population next.1) τ →
      Published L.upper.subscriber L.population L.population τ [d]
        (publishFrom fuel τ L.population d).1 (publishFrom fuel τ L.population d).2 := by
    intro τ d hτ
    have hτ := hset.trans hτ
    exact published_publishFrom L.upper.subscriber_ne_follower fuel τ L.population d
      (h.layered.congr hτ) (h.upper.congr hτ) (by rw [hτ.size]; exact hfuel)
  obtain ⟨τ, sent, hfold, hpublished⟩ :=
    published_foldl (fun τ d => sameLinks_publishFrom fuel τ L.population d) hpublish next.2
      (.refl _) before
  refine ⟨τ, sent, hfold, ?_, ?_⟩
  · rw [hpublished.same _ (Nat.le_refl _), members_setMembers_self h.exists_population,
      Membership.followAll_singleton]
  · rw [hpublished.own rfl, Membership.followAll_singleton]

/-- Whoever is told of a change elsewhere, the layered population's listener is
not. -/
theorem followed_outsider (h : Linked L σ) (hp : p ≠ L.population) (he : e ∈ σ.subscribers p)
    (houtsider : ∀ k, e.2 ≠ .follower k) (before : List Delivery) :
    tell fuel c (σ, before) e = (σ, before ++ [⟨e.2, c⟩]) ∧ Followed L σ [] σ [⟨e.2, c⟩] := by
  refine ⟨?_, .quiet rfl ?_⟩
  · unfold tell
    split
    · next k hk => exact absurd hk (houtsider k)
    · rfl
  · have hne : e.2 ≠ L.upper.subscriber := fun heq => hp (h.upper.mem_subscribers he heq)
    simp [told, hne]

variable (hpublish : ∀ (σ : Network) (k : Nat) (c : Change), Linked L σ → k ≠ L.population →
  σ.populations.size ≤ k + fuel → Followed L σ (told L.lower.subscriber (publishFrom fuel σ k c).2)
    (publishFrom fuel σ k c).1 (publishFrom fuel σ k c).2)

include hpublish

/-- Another follower is told of a change and passes it on. -/
theorem followed_other (h : Linked L σ) (hfuel : σ.populations.size ≤ p + (fuel + 1)) {k : Nat}
    (hk : p < k) (hne : k ≠ L.population) (m : Nat) (before : List Delivery) :
    ∃ τ sent, tell fuel c (σ, before) (m, .follower k) = (τ, before ++ sent) ∧
      Followed L σ (told L.lower.subscriber sent) τ sent ∧
      (L.below ≤ p → told L.lower.subscriber sent = []) := by
  let next := (σ.members k).follow c
  have hset := sameLinks_setMembers σ k next.1
  obtain ⟨τ, sent, hfold, hfollowed⟩ :=
    followed_foldl (fun τ d => sameLinks_publishFrom fuel τ k d)
      (fun τ d hτ => hpublish τ k d (h.congr (hset.trans hτ)) hne
        (by rw [(hset.trans hτ).size]; omega)) next.2 (.refl (σ.setMembers k next.1)) before
  refine ⟨τ, sent, hfold, ?_, fun hlater => ?_⟩
  · -- setting the members of the other one has not touched the layered population
    have hsame := members_setMembers_of_ne σ next.1 (Ne.symm hne)
    exact ⟨by rw [hfollowed.members, hsame], by rw [hfollowed.passed, hsame]⟩
  · -- the listener below is no follower, and what comes later does not reach it
    obtain ⟨τ', sent', htell, hheard⟩ := heard_follower (n := p) (m := m) (c := c)
      L.lower.subscriber_ne_follower
      (fun σ k c => published_publishFrom L.lower.subscriber_ne_follower fuel σ k c)
      h.layered h.lower hfuel hk before
    obtain ⟨-, hsent⟩ := Prod.mk.inj (hfold.symm.trans htell)
    rw [List.append_cancel_left hsent, hheard.near hlater]
    simp [(L.lower.subscriber_ne_follower k).symm]

end

/-! ### All subscribers -/

/-- The changes of the population below that a layered one hears of when the
subscribers of a population are told of a change. -/
def heardOver (L : Layering) (p : Nat) (c : Change) (subscribers : List (Nat × Subscriber))
    (sent : List Delivery) : List Change :=
  if p = L.below then
    (subscribers.filter fun e => e.2 = .follower L.population).map fun _ => c
  else told L.lower.subscriber sent

theorem heardOver_cons (p : Nat) (c : Change) (e : Nat × Subscriber)
    (rest : List (Nat × Subscriber)) :
    heardOver L p c (e :: rest) (sent ++ more) =
      heardOver L p c [e] sent ++ heardOver L p c rest more := by
  unfold heardOver
  split
  · rw [← List.map_append, ← List.filter_append]
    rfl
  · exact told_append ..

section

variable {fuel p : Nat} {c : Change}
  (hpublish : ∀ (σ : Network) (k : Nat) (c : Change), Linked L σ → k ≠ L.population →
    σ.populations.size ≤ k + fuel →
      Followed L σ (told L.lower.subscriber (publishFrom fuel σ k c).2)
        (publishFrom fuel σ k c).1 (publishFrom fuel σ k c).2)

include hpublish

/-- One subscriber of another population is told. -/
theorem followed_tell (h : Linked L σ) (hp : p ≠ L.population)
    (hfuel : σ.populations.size ≤ p + (fuel + 1)) {e : Nat × Subscriber}
    (he : e ∈ σ.subscribers p) (before : List Delivery) :
    ∃ τ sent, tell fuel c (σ, before) e = (τ, before ++ sent) ∧
      Followed L σ (heardOver L p c [e] sent) τ sent := by
  obtain ⟨m, s⟩ := e
  by_cases hs : ∃ k, s = .follower k
  · obtain ⟨k, rfl⟩ := hs
    have hk : p < k := h.layered p _ he k rfl
    by_cases hown : k = L.population
    · -- only the population below has this follower
      subst hown
      obtain rfl : p = L.below := h.follows.mem_subscribers he rfl
      have hbelow := h.below_lt
      have hlater : σ.populations.size ≤ L.population + fuel := by omega
      obtain ⟨τ, sent, htell, hfollowed⟩ := followed_own (c := c) h hlater m before
      exact ⟨τ, sent, htell, by simpa [heardOver] using hfollowed⟩
    · obtain ⟨τ, sent, htell, hfollowed, hquiet⟩ :=
        followed_other hpublish h hfuel hk hown m before
      refine ⟨τ, sent, htell, ?_⟩
      unfold heardOver
      split
      · next hbelow =>
        rw [hquiet (by omega)] at hfollowed
        simpa [hown] using hfollowed
      · exact hfollowed
  · have houtsider : ∀ k, s ≠ .follower k := fun k hk => hs ⟨k, hk⟩
    obtain ⟨htell, hfollowed⟩ := followed_outsider (c := c) h hp he houtsider before
    refine ⟨σ, [⟨s, c⟩], htell, ?_⟩
    unfold heardOver
    split
    · simpa [houtsider L.population] using hfollowed
    · next hbelow =>
      have hne : s ≠ L.lower.subscriber := fun heq => hbelow (h.lower.mem_subscribers he heq)
      simpa [told, hne] using hfollowed

theorem followed_subscribers (h : Linked L σ) (hp : p ≠ L.population)
    (hfuel : σ.populations.size ≤ p + (fuel + 1)) {subscribers : List (Nat × Subscriber)}
    (hsub : ∀ e ∈ subscribers, e ∈ σ.subscribers p) (before : List Delivery) :
    ∃ τ sent, subscribers.foldl (tell fuel c) (σ, before) = (τ, before ++ sent) ∧
      Followed L σ (heardOver L p c subscribers sent) τ sent := by
  induction subscribers generalizing σ before with
  | nil => exact ⟨σ, [], by simp, by simpa [heardOver] using Followed.refl L σ⟩
  | cons e rest ih =>
    obtain ⟨τ, sent, htell, hfirst⟩ :=
      followed_tell hpublish (c := c) h hp hfuel (hsub e List.mem_cons_self) before
    have hlinks := sameLinks_tell (sameLinks_publishFrom fuel) c (σ, before) e
    rw [htell] at hlinks
    obtain ⟨υ, more, hfold, hrest⟩ := ih (h.congr hlinks) (by rw [hlinks.size]; exact hfuel)
      (fun d hd => by rw [hlinks.subscribers]; exact hsub d (List.mem_cons_of_mem e hd))
      (before ++ sent)
    refine ⟨υ, sent ++ more, ?_, ?_⟩
    · rw [List.foldl_cons, htell, hfold, List.append_assoc]
    · rw [heardOver_cons]
      exact hfirst.append hrest

end

/-- Whatever is published elsewhere, a layered population follows what the
listener below it is told. -/
theorem followed_publishFrom (fuel : Nat) (σ : Network) (p : Nat) (c : Change) (h : Linked L σ)
    (hp : p ≠ L.population) (hfuel : σ.populations.size ≤ p + fuel) :
    Followed L σ (told L.lower.subscriber (publishFrom fuel σ p c).2) (publishFrom fuel σ p c).1
      (publishFrom fuel σ p c).2 := by
  induction fuel generalizing σ p c with
  | zero => exact .refl L σ
  | succ fuel ih =>
    obtain ⟨τ, sent, hfold, hfollowed⟩ :=
      followed_subscribers (c := c) ih h hp hfuel (fun _ he => he) []
    have hpublished := published_publishFrom L.lower.subscriber_ne_follower (fuel + 1) σ p c h.layered
      h.lower hfuel
    rw [publishFrom_succ, hfold, List.nil_append] at hpublished ⊢
    -- the population below tells its listener and the layered one of the same change
    have hheard : heardOver L p c (σ.subscribers p) sent = told L.lower.subscriber sent := by
      unfold heardOver
      split
      · next hbelow =>
        have honce : (σ.subscribers p).filter (fun e => e.2 = .follower L.population) = _ :=
          h.follows.once p
        rw [honce, if_pos hbelow, hpublished.own hbelow]
        rfl
      · rfl
    exact hheard ▸ hfollowed

theorem followed_update (h : Linked L σ) {p : Nat} (hp : p ≠ L.population)
    (next : Membership × List Change) :
    Followed L σ (told L.lower.subscriber (σ.update p next).2) (σ.update p next).1
      (σ.update p next).2 := by
  obtain ⟨τ, sent, hfold, hfollowed⟩ :=
    followed_foldl (L := L) (fun τ d => sameLinks_publishFrom τ.populations.size τ p d)
      (fun τ d hτ => followed_publishFrom _ τ p d
        (h.congr ((sameLinks_setMembers σ p next.1).trans hτ)) hp (by omega)) next.2 (.refl _) []
  have hupdate : σ.update p next = (τ, sent) := hfold
  rw [hupdate]
  have hsame := members_setMembers_of_ne σ next.1 (Ne.symm hp)
  exact ⟨by rw [hfollowed.members, hsame], by rw [hfollowed.passed, hsame]⟩

end Network

end Fleet
