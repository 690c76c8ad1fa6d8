import Fleet.Proofs.Population.Streams

/-!
# An expanding population in its network

Nobody but its own worker changes the members of a population that is read from
a directory: it follows no other one (`Rooted`), so what is published elsewhere
neither changes it nor reaches those who listen to it alone (`spared_update`). A
run of the network is therefore, for such a population, the run of its worker
over the events that are its own, and a listener who neither subscribes elsewhere
nor leaves (`Event.Spares`) is told of exactly the changes of that run
(`site_run`).
-/

namespace Fleet.Network

open Change

/-- The worker and the members of an expanding population. -/
def site? (σ : Network) (n : Nat) : Option Growth.Site :=
  (σ.growth? n).map fun g => ⟨g, σ.members n⟩

/-- What an event is to an expanding population. -/
def Event.growthAt? (n : Nat) : Event → Option Growth.Event
  | .grow k e => if k = n then some e else none
  | .addByHand _ | .addExpanding _ | .addLayered _ _ | .subscribe _ _ | .unsubscribe _ _
  | .insert _ _ | .remove _ _ | .reset _ _ => none

/-- The events of a run that are an expanding population's own. -/
def growthAt (n : Nat) (es : List Event) : List Growth.Event := es.filterMap (·.growthAt? n)

/-- An event that changes nothing by hand in a population and leaves a listener
the one subscription that it has there. -/
def Event.Spares (n number : Nat) (l : Listener) : Event → Prop
  | .subscribe _ k => k ≠ l
  | .unsubscribe k m => k = n → m ≠ number
  | .insert k _ | .remove k _ | .reset k _ => k ≠ n
  | .addByHand _ | .addExpanding _ | .addLayered _ _ | .grow _ _ => True

instance (n number : Nat) (l : Listener) (e : Event) : Decidable (e.Spares n number l) :=
  match e with
  | .subscribe _ k => inferInstanceAs (Decidable (k ≠ l))
  | .unsubscribe k m => inferInstanceAs (Decidable (k = n → m ≠ number))
  | .insert k _ | .remove k _ | .reset k _ => inferInstanceAs (Decidable (k ≠ n))
  | .addByHand _ | .addExpanding _ | .addLayered _ _ | .grow _ _ => isTrue trivial

/-! ## Publishing, step by step -/

section

variable {ν : Network} {E : Nat → Prop}
  {R : Network × List Delivery → Network × List Delivery → Prop}
  -- publishing goes from these populations to no others
  (hE : ∀ n, E n → ∀ e ∈ ν.subscribers n, ∀ k, e.2 = .follower k → E k)
  (hrefl : ∀ acc, R acc acc) (htrans : ∀ {a b c}, R a b → R b c → R a c)
  (hset : ∀ (acc : Network × List Delivery) k m, E k → R acc (acc.1.setMembers k m, acc.2))
  (hsend : ∀ (acc : Network × List Delivery) n e c, E n → e ∈ ν.subscribers n →
    (∀ k, e.2 ≠ .follower k) → R acc (acc.1, acc.2 ++ [⟨e.2, c⟩]))
  (happ : ∀ {σ τ : Network} {more : List Delivery} (sent : List Delivery),
    R (σ, []) (τ, more) → R (σ, sent) (τ, sent ++ more))

include hrefl htrans happ in
theorem related_each {f : Network → Change → Network × List Delivery}
    (hlinks : ∀ τ c, SameLinks τ (f τ c).1)
    (hf : ∀ τ c, SameLinks ν τ → R (τ, []) (f τ c)) (changes : List Change)
    {τ : Network} (hτ : SameLinks ν τ) (before : List Delivery) :
    R (τ, before) (changes.foldl (fun (σ, sent) c =>
      let (σ, more) := f σ c
      (σ, sent ++ more)) (τ, before)) := by
  induction changes generalizing τ before with
  | nil => exact hrefl _
  | cons c rest ih =>
    exact htrans (happ before (hf τ c hτ)) (ih (hτ.trans (hlinks τ c)) (before ++ (f τ c).2))

include hE hrefl htrans hset hsend happ

/-- What setting the members of followers and sending on keeps, publishing
keeps. -/
theorem related_publishFrom (fuel : Nat) {σ : Network} (hσ : SameLinks ν σ) {n : Nat} (hn : E n)
    (c : Change) : R (σ, []) (publishFrom fuel σ n c) := by
  induction fuel generalizing σ n c with
  | zero => exact hrefl _
  | succ fuel ih =>
    rw [publishFrom_succ, hσ.subscribers]
    -- one subscriber after the other
    suffices h : ∀ (subscribers : List (Nat × Subscriber)),
        (∀ e ∈ subscribers, e ∈ ν.subscribers n) → ∀ acc : Network × List Delivery,
        SameLinks ν acc.1 → R acc (subscribers.foldl (tell fuel c) acc) from
      h _ (fun _ he => he) (σ, []) hσ
    intro subscribers hsub acc hacc
    induction subscribers generalizing acc with
    | nil => exact hrefl _
    | cons e rest ihrest =>
      have he := hsub e List.mem_cons_self
      have hlinks := sameLinks_tell (sameLinks_publishFrom fuel) c acc e
      refine htrans ?_ (ihrest (fun d hd => hsub d (List.mem_cons_of_mem e hd)) (tell fuel c acc e)
        (hacc.trans hlinks))
      unfold tell
      split
      · next k hk =>
        have hk := hE n hn e he k hk
        refine htrans (hset acc k _ hk) (related_each (ν := ν) hrefl htrans happ
          (fun τ d => sameLinks_publishFrom fuel τ k d) (fun τ d hτ => ih hτ hk d) _ ?_ acc.2)
        exact hacc.trans (sameLinks_setMembers acc.1 k _)
      · next houtsider => exact hsend acc n e c hn he fun k hk => houtsider k hk

theorem related_update {σ : Network} (hσ : SameLinks ν σ) {n : Nat} (hn : E n)
    (next : Membership × List Change) : R (σ, []) (σ.update n next) := by
  have hpublish := related_each (f := fun τ c => publishFrom τ.populations.size τ n c) hrefl htrans
    happ (fun τ c => sameLinks_publishFrom _ τ n c)
    (fun τ c hτ => related_publishFrom hE hrefl htrans hset hsend happ _ hτ hn c) next.2
    (hσ.trans (sameLinks_setMembers σ n next.1)) []
  exact htrans (hset (σ, []) n next.1 hn) hpublish

end

/-! ## Workers -/

theorem growth?_congr {σ τ : Network} {n : Nat}
    (h : (τ.get? n).map Population.origin = (σ.get? n).map Population.origin) :
    τ.growth? n = σ.growth? n := by
  unfold growth?
  rw [h]

theorem growth?_modify {f : Population → Population} (hf : ∀ p, (f p).origin = p.origin)
    (σ : Network) (n k : Nat) : (σ.modify n f).growth? k = σ.growth? k := by
  refine growth?_congr ?_
  rw [get?_modify]
  split
  · cases σ.get? k <;> simp [hf]
  · rfl

theorem growth?_update (σ : Network) (n : Nat) (next : Membership × List Change) (k : Nat) :
    (σ.update n next).1.growth? k = σ.growth? k :=
  related_update (R := fun acc acc' => acc'.1.growth? k = acc.1.growth? k) (E := fun _ => True)
    (fun _ _ _ _ _ _ => trivial) (fun _ => rfl) (fun h h' => h'.trans h)
    (fun acc j m _ => growth?_modify (f := fun p => { p with members := m }) (fun _ => rfl) acc.1 j k)
    (fun _ _ _ _ _ _ _ => rfl) (fun _ h => h) (.refl σ) trivial next

theorem growth?_add {σ : Network} {n : Nat} (h : n < σ.populations.size) (p : Population) :
    (σ.add p).1.growth? n = σ.growth? n := by
  refine growth?_congr ?_
  unfold get? add
  rw [Array.getElem?_push, if_neg (Nat.ne_of_lt h)]

theorem growth?_subscribe (σ : Network) (n : Nat) (s : Subscriber) (k : Nat) :
    (σ.subscribe n s).1.growth? k = σ.growth? k := by
  by_cases h : n < σ.populations.size
  · rw [subscribe_of_lt h]
    refine growth?_congr ?_
    rw [get?_modify]
    split
    · next heq => simp [get?, ← heq, h, Population.subscribe]
    · rfl
  · rw [subscribe_of_le (Nat.le_of_not_lt h)]

theorem growth?_unsubscribe (σ : Network) (n number k : Nat) :
    (σ.unsubscribe n number).1.growth? k = σ.growth? k := by
  unfold unsubscribe
  split
  · rfl
  · next p hp =>
    refine growth?_congr ?_
    rw [get?_modify]
    split
    · next heq => simp [← heq, hp, Population.unsubscribe]
    · rfl

theorem growth?_place_of_ne (σ : Network) {n k : Nat} (h : k ≠ n) (g : Growth) :
    (σ.place n g).growth? k = σ.growth? k := by
  refine growth?_congr ?_
  unfold place
  rw [get?_modify, if_neg (Ne.symm h)]

theorem growth?_place_self {σ : Network} {n : Nat} (h : n < σ.populations.size) (g : Growth) :
    (σ.place n g).growth? n = some g := by
  unfold place growth?
  rw [get?_modify, if_pos rfl]
  simp [get?, h]

/-! ## Populations that follow nobody -/

/-- Followers are populations that are not read from a directory. -/
def Rooted (σ : Network) : Prop :=
  ∀ n, ∀ e ∈ σ.subscribers n, ∀ k, e.2 = .follower k → k < σ.populations.size ∧ σ.growth? k = none

theorem Rooted.congr {σ τ : Network} (h : σ.Rooted) (hlinks : SameLinks σ τ)
    (hgrowth : ∀ k, σ.growth? k = none → τ.growth? k = none) : τ.Rooted := by
  intro n e he k hk
  rw [hlinks.subscribers] at he
  obtain ⟨hlt, hnone⟩ := h n e he k hk
  exact ⟨hlinks.size ▸ hlt, hgrowth k hnone⟩

theorem Rooted.add {σ : Network} (h : σ.Rooted) {p : Population} (hp : p.subscribers = []) :
    (σ.add p).1.Rooted := by
  intro n e he k hk
  rw [subscribers_add σ hp] at he
  obtain ⟨hlt, hnone⟩ := h n e he k hk
  refine ⟨?_, (growth?_add hlt p).trans hnone⟩
  show k < (σ.populations.push p).size
  rw [Array.size_push]
  omega

theorem Rooted.place {σ : Network} (h : σ.Rooted) {n : Nat} {g : Growth}
    (hg : σ.growth? n = some g) (g' : Growth) : (σ.place n g').Rooted := by
  refine h.congr (sameLinks_place σ n g') fun k hk => ?_
  have hne : k ≠ n := fun heq => by simp [← heq, hk] at hg
  exact (growth?_place_of_ne σ hne g').trans hk

/-- A population that follows another one is made, and is not read from a
directory. -/
theorem Rooted.addFollower {σ : Network} (h : σ.Rooted) (below : Nat) {p : Population}
    (hp : p.subscribers = []) (horigin : ∀ g, p.origin ≠ .expanding g) :
    ((σ.subscribe below (.follower σ.populations.size)).1.add p).1.Rooted := by
  let τ := (σ.subscribe below (.follower σ.populations.size)).1
  have hsize : τ.populations.size = σ.populations.size := size_subscribe ..
  have hpushed : (τ.add p).1.populations.size = σ.populations.size + 1 := by
    show (τ.populations.push p).size = _
    rw [Array.size_push, hsize]
  intro n e he k hk
  rw [subscribers_add τ hp, subscribers_subscribe] at he
  have hold (he : e ∈ σ.subscribers n) :
      k < (τ.add p).1.populations.size ∧ (τ.add p).1.growth? k = none := by
    obtain ⟨hlt, hnone⟩ := h n e he k hk
    exact ⟨by omega, by rw [growth?_add (by omega), growth?_subscribe, hnone]⟩
  split at he
  · next heq =>
    rcases List.mem_append.mp he with he | he
    · exact hold (heq.1 ▸ he)
    · -- the new follower is the new population
      obtain rfl := List.mem_singleton.mp he
      obtain rfl : σ.populations.size = k := Subscriber.follower.inj hk
      refine ⟨hpushed ▸ Nat.lt_succ_self _, ?_⟩
      have hget : (τ.add p).1.get? σ.populations.size = some p := by
        rw [← hsize]
        exact Array.getElem?_push_size
      show (τ.add p).1.growth? _ = none
      unfold growth?
      rw [hget, Option.map_some]
      split
      · next g hg => exact absurd (Option.some.inj hg) (horigin g)
      · rfl
  · exact hold he

theorem Rooted.step {σ : Network} (h : σ.Rooted) (e : Event) : (σ.step e).1.Rooted := by
  cases e with
  | addByHand | addExpanding => exact h.add rfl
  | insert | remove | reset =>
    exact h.congr (sameLinks_update ..) fun k hk => (growth?_update ..).trans hk
  | unsubscribe n number =>
    intro m d hd k hk
    have hmem : d ∈ σ.subscribers m := by
      rw [show (σ.step (.unsubscribe n number)).1 = (σ.unsubscribe n number).1 from rfl,
        subscribers_unsubscribe] at hd
      split at hd
      · next heq => exact heq ▸ (List.mem_filter.mp hd).1
      · exact hd
    obtain ⟨hlt, hnone⟩ := h m d hmem k hk
    exact ⟨(size_unsubscribe σ n number).symm ▸ hlt, (growth?_unsubscribe ..).trans hnone⟩
  | subscribe n l =>
    intro m d hd k hk
    have hmem : d ∈ σ.subscribers m := by
      rw [show (σ.step (.subscribe n l)).1 = (σ.subscribe n l.subscriber).1 from rfl,
        subscribers_subscribe] at hd
      split at hd
      · next heq =>
        rcases List.mem_append.mp hd with hd | hd
        · exact heq.1 ▸ hd
        · obtain rfl := List.mem_singleton.mp hd
          exact absurd hk (l.subscriber_ne_follower k)
      · exact hd
    obtain ⟨hlt, hnone⟩ := h m d hmem k hk
    exact ⟨(size_subscribe σ n l.subscriber).symm ▸ hlt, (growth?_subscribe ..).trans hnone⟩
  | addLayered seed below => exact h.addFollower below rfl (fun g => nofun)
  | grow n e =>
    show (σ.grow n e).1.Rooted
    unfold grow
    split
    · exact h
    · next g hg =>
      exact (h.place hg _).congr (sameLinks_update ..) fun k hk => (growth?_update ..).trans hk

theorem rooted_run {σ : Network} (h : σ.Rooted) (es : List Event) : (σ.run es).Rooted := by
  induction es generalizing σ with
  | nil => exact h
  | cons e rest ih => exact ih (h.step e)

theorem rooted_empty : ({} : Network).Rooted := by
  intro n e he
  simp [subscribers_of_le (σ := {}) (Nat.zero_le n)] at he

/-! ## What happens to an expanding population -/

section

variable {σ : Network} {n number : Nat} {g : Growth} {φ : Growth.Site} {l : Listener}

/-- What is published elsewhere neither changes a population that follows nobody
nor reaches those who listen to it. -/
theorem unfollowed_update {s : Subscriber}
    (hfree : ∀ k, ∀ e ∈ σ.subscribers k, e.2 ≠ .follower n) (ha : σ.Attached n number s) {k : Nat}
    (hk : k ≠ n) (next : Membership × List Change) :
    (σ.update k next).1.members n = σ.members n ∧ told s (σ.update k next).2 = [] := by
  refine related_update (ν := σ) (E := fun k => k ≠ n)
    (R := fun acc acc' => acc'.1.members n = acc.1.members n ∧ told s acc'.2 = told s acc.2)
    ?_ (fun _ => ⟨rfl, rfl⟩) (fun h h' => ⟨h'.1.trans h.1, h'.2.trans h.2⟩) ?_ ?_ ?_ (.refl σ) hk next
  · rintro m - e he j hj rfl
    exact hfree m e he hj
  · intro acc j m hj
    exact ⟨members_setMembers_of_ne acc.1 m (Ne.symm hj), rfl⟩
  · intro acc m e c hm he _
    -- the listener subscribes nowhere else
    have hnone : σ.subscriptions s m = [] := (ha.once m).trans (if_neg hm)
    have hne : e.2 ≠ s := by
      have h := List.filter_eq_nil_iff.mp hnone e he
      simpa using h
    exact ⟨rfl, by simp [told, hne]⟩
  · rintro τ υ more sent ⟨hmembers, htold⟩
    exact ⟨hmembers, by simpa using htold⟩

theorem spared_update (hσ : σ.Rooted) (hg : σ.growth? n = some g)
    (ha : σ.Attached n number l.subscriber) {k : Nat} (hk : k ≠ n)
    (next : Membership × List Change) :
    (σ.update k next).1.members n = σ.members n ∧ told l.subscriber (σ.update k next).2 = [] := by
  refine unfollowed_update (fun m e he hfollows => ?_) ha hk next
  simp [(hσ m e he n hfollows).2] at hg

theorem site?_eq_some :
    σ.site? n = some φ ↔ σ.growth? n = some φ.growth ∧ σ.members n = φ.members := by
  obtain ⟨g, m⟩ := φ
  cases h : σ.growth? n <;> simp [site?, h]

/-- Events of other populations pass an expanding one by. -/
theorem site_step_of_none (hσ : σ.Rooted) (ha : σ.Attached n number l.subscriber)
    (hφ : σ.site? n = some φ) {e : Event} (hspares : e.Spares n number l)
    (he : e.growthAt? n = none) :
    (σ.step e).1.site? n = some φ ∧ told l.subscriber (σ.step e).2 = [] := by
  rw [site?_eq_some] at hφ ⊢
  obtain ⟨hg, hm⟩ := hφ
  have hn := ha.exists_population
  have hupdate {k : Nat} (hk : k ≠ n) (next : Membership × List Change) :
      ((σ.update k next).1.growth? n = some φ.growth ∧ (σ.update k next).1.members n = φ.members) ∧
        told l.subscriber (σ.update k next).2 = [] := by
    obtain ⟨hmembers, htold⟩ := spared_update hσ hg ha hk next
    exact ⟨⟨(growth?_update ..).trans hg, hmembers.trans hm⟩, htold⟩
  cases e with
  | addByHand | addExpanding =>
    exact ⟨⟨(growth?_add hn _).trans hg, (members_add hn _).trans hm⟩, rfl⟩
  | addLayered seed below =>
    have hn' : n < (σ.subscribe below (.follower σ.populations.size)).1.populations.size := by
      rw [size_subscribe]
      exact hn
    exact ⟨⟨(growth?_add hn' _).trans ((growth?_subscribe ..).trans hg),
      (members_add hn' _).trans ((members_subscribe ..).trans hm)⟩, rfl⟩
  | subscribe k j => exact ⟨⟨(growth?_subscribe ..).trans hg, (members_subscribe ..).trans hm⟩, rfl⟩
  | unsubscribe k m =>
    exact ⟨⟨(growth?_unsubscribe ..).trans hg, (members_unsubscribe ..).trans hm⟩, rfl⟩
  | insert k h | remove k h | reset k hosts => exact hupdate hspares _
  | grow k e =>
    have hk : k ≠ n := by
      rintro rfl
      simp [Event.growthAt?] at he
    show ((σ.grow k e).1.growth? n = _ ∧ (σ.grow k e).1.members n = _) ∧
      told l.subscriber (σ.grow k e).2 = []
    unfold grow
    split
    · exact ⟨⟨hg, hm⟩, rfl⟩
    · next g hk' =>
      let τ := σ.place k (g.act (σ.members k) e).1
      have hplace := sameLinks_place σ k (g.act (σ.members k) e).1
      have hτ : τ.growth? n = some φ.growth := (growth?_place_of_ne σ (Ne.symm hk) _).trans hg
      obtain ⟨hmembers, htold⟩ := spared_update (hσ.place hk' _) hτ (ha.congr hplace) hk
        ((g.act (σ.members k) e).2.1, (g.act (σ.members k) e).2.2.1)
      exact ⟨⟨(growth?_update ..).trans hτ, hmembers.trans ((members_place ..).trans hm)⟩, htold⟩

/-- What happens to an expanding population is what happens to its worker. -/
theorem site_grow (hσ : σ.Layered) (ha : σ.Attached n number l.subscriber)
    (hφ : σ.site? n = some φ) (e : Growth.Event) :
    (σ.grow n e).1.site? n = some (φ.step e) ∧
      told l.subscriber (σ.grow n e).2 = (φ.growth.act φ.members e).2.2.1 := by
  rw [site?_eq_some] at hφ ⊢
  obtain ⟨hg, hm⟩ := hφ
  have hn := ha.exists_population
  unfold grow
  rw [hg, hm]
  let effect := φ.growth.act φ.members e
  have hplace := sameLinks_place σ n effect.1
  have hpublished := published_update l.subscriber_ne_follower (hσ.congr hplace) (ha.congr hplace)
    n (effect.2.1, effect.2.2.1)
  refine ⟨⟨(growth?_update ..).trans (growth?_place_self hn _), ?_⟩, hpublished.own rfl⟩
  exact (hpublished.same n (Nat.le_refl n)).trans
    (members_setMembers_self (by rw [hplace.size]; exact hn) _)

theorem site_step (hσ : σ.Rooted) (hlayered : σ.Layered) (ha : σ.Attached n number l.subscriber)
    (hφ : σ.site? n = some φ) {e : Event} (hspares : e.Spares n number l) :
    (σ.step e).1.site? n = some (φ.run (e.growthAt? n).toList) ∧
      told l.subscriber (σ.step e).2 = φ.changes (e.growthAt? n).toList := by
  cases he : e.growthAt? n with
  | none => exact site_step_of_none hσ ha hφ hspares he
  | some f =>
    obtain rfl : e = .grow n f := by
      cases e <;> simp only [Event.growthAt?, Option.ite_none_right_eq_some] at he <;> simp_all
    obtain ⟨hsite, htold⟩ := site_grow hlayered ha hφ f
    exact ⟨hsite, htold.trans (List.append_nil _).symm⟩

/-- For an expanding population a run of the network is a run of its worker, and
who listens to it is told of the changes of that run. -/
theorem site_run (hσ : σ.Rooted) (hlayered : σ.Layered) (ha : σ.Attached n number l.subscriber)
    (hφ : σ.site? n = some φ) {es : List Event} (hspares : ∀ e ∈ es, e.Spares n number l) :
    (σ.run es).site? n = some (φ.run (growthAt n es)) ∧
      told l.subscriber (σ.sent es) = φ.changes (growthAt n es) := by
  induction es generalizing σ φ with
  | nil => exact ⟨hφ, rfl⟩
  | cons e rest ih =>
    have he := hspares e List.mem_cons_self
    have hattached : (σ.step e).1.Attached n number l.subscriber := by
      refine ha.step (fun k heq => ?_) fun heq => ?_ <;> subst heq
      · exact he rfl
      · exact he rfl rfl
    obtain ⟨hfirst, htold⟩ := site_step hσ hlayered ha hφ he
    obtain ⟨hrest, htold'⟩ := ih (hσ.step e) (hlayered.step e) hattached hfirst
      fun d hd => hspares d (List.mem_cons_of_mem e hd)
    have hsplit : growthAt n (e :: rest) = (e.growthAt? n).toList ++ growthAt n rest := by
      cases h : e.growthAt? n <;> simp [growthAt, h]
    rw [hsplit, Growth.Site.run_append, Growth.Site.changes_append, sent, told_append, htold, htold']
    exact ⟨hrest, rfl⟩

/-- The same, whatever has happened in the network before. -/
theorem site_run_later {es₀ es : List Event} (ha : (run {} es₀).Attached n number l.subscriber)
    (hφ : (run {} es₀).site? n = some φ) (hspares : ∀ e ∈ es, e.Spares n number l) :
    ((run {} es₀).run es).site? n = some (φ.run (growthAt n es)) ∧
      told l.subscriber ((run {} es₀).sent es) = φ.changes (growthAt n es) :=
  site_run (rooted_run rooted_empty es₀) (layered_run layered_empty es₀) ha hφ hspares

end

end Fleet.Network
