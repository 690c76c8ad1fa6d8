import Fleet.Proofs.Engine.Expiry

/-!
# How often a request can be extended

The deadline of a new request is set from the present, so a clock that can show
thirty years from now can show it. An extension sets the next deadline from the
last one, which may lie as far ahead of the present as the clock reaches.

* **headroom** — an extension that finds its request takes one from the headroom
  of its deadline (`headroom_step`). So what a request has at its entry is what
  is left later, its extensions until then, and one for its first deadline
  (`headroom_run`);
* **forward** — no event moves the deadline of a request back;
* **beyond the clock** — extensions use up any headroom, however short the term
  (`exists_extension_beyond`).

`extension_shown_iff` says from them which extensions the clock can show.
-/

namespace Fleet

namespace Engine.Clocked

section
variable {c : Clocked} {id : String} {t u : Instant} {e : Event} {es : List Event}

/-- The clock can show thirty years from each instant of a run. -/
def FarShown (c : Clocked) : List Event → Prop
  | [] => c.now + Instant.farAhead.nanos ≤ Instant.horizon
  | e :: es => c.now + Instant.farAhead.nanos ≤ Instant.horizon ∧ (c.step e).FarShown es

instance FarShown.decide (c : Clocked) : ∀ es, Decidable (c.FarShown es)
  | [] => inferInstanceAs (Decidable (c.now + _ ≤ _))
  | e :: es =>
    have := FarShown.decide (c.step e) es
    inferInstanceAs (Decidable (c.now + _ ≤ _ ∧ (c.step e).FarShown es))

theorem FarShown.now (h : c.FarShown es) : c.now + Instant.farAhead.nanos ≤ Instant.horizon := by
  cases es with
  | nil => exact h
  | cons e rest => exact h.1

theorem FarShown.append {fs : List Event} (h : c.FarShown (es ++ fs)) :
    (c.run es).FarShown fs := by
  induction es generalizing c with
  | nil => exact h
  | cons e rest ih => exact ih h.2

/-! ## Headroom -/

/-- An event does not move the deadline of a request back, and takes one from
its headroom if it extends the request. -/
theorem headroom_step (hL : c.engine.ledger.Sound) (hterm : 0 < c.engine.term.nanos)
    (ht : c.engine.ledger.expires? id = some t)
    (hu : (c.step e).engine.ledger.expires? id = some u) :
    t ≤ u ∧ Instant.headroom t c.engine.term =
      Instant.headroom u c.engine.term + (c.prolongs id e).toNat := by
  cases origin_step hL hu with
  | same hs he =>
    obtain rfl := Option.some.inj (hs.symm.trans ht)
    rw [he]
    exact ⟨Nat.le_refl _, rfl⟩
  | extended hs hnext he =>
    obtain rfl := Option.some.inj (hs.symm.trans ht)
    rw [he]
    exact ⟨Nat.le_of_lt (Instant.lt_of_deadline? hterm hnext),
      Instant.headroom_of_deadline? hterm hnext⟩
  | entered hr hadmits =>
    subst hr
    exact absurd hadmits (not_admits_of_expires? ht)

/-- What is left of the headroom after a run, and what has been used, is what
was there before it. -/
theorem headroom_kept (hL : c.engine.ledger.Sound) (hterm : 0 < c.engine.term.nanos)
    (hkeeps : c.keeps id es = true) (ht : c.engine.ledger.expires? id = some t)
    (hu : (c.run es).engine.ledger.expires? id = some u) :
    t ≤ u ∧ Instant.headroom t c.engine.term =
      Instant.headroom u c.engine.term + c.prolongations id es := by
  induction es generalizing c t with
  | nil =>
    obtain rfl := Option.some.inj (ht.symm.trans hu)
    exact ⟨Nat.le_refl _, rfl⟩
  | cons e rest ih =>
    have hrest : (c.step e).keeps id rest = true := (Bool.and_eq_true_iff.mp hkeeps).2
    obtain ⟨v, hv⟩ := exists_expires?_of_keeps hrest
    obtain ⟨hfirst, hone⟩ := headroom_step hL hterm ht hv
    have hsame : (c.step e).engine.term = c.engine.term := term_step c e
    obtain ⟨hlater, hothers⟩ := ih (sound_step hL e) (hsame ▸ hterm) hrest hv hu
    rw [hsame] at hothers
    refine ⟨Nat.le_trans hfirst hlater, ?_⟩
    rw [hone, hothers, prolongations]
    omega

/-- Where the clock can show thirty years from now, it can show the deadline of
a new request. -/
theorem exists_first_deadline (hclock : c.now + Instant.farAhead.nanos ≤ Instant.horizon)
    {r : Request} (hadmits : c.engine.Admits r) (now : Instant) :
    ∃ t, Instant.deadline? c.now c.engine.term = some t ∧
      (c.step (.act (.submit now r))).engine.ledger.expires? r.id = some t := by
  obtain ⟨t, ht⟩ := Option.isSome_iff_exists.mp
    (Instant.deadline?_isSome_of_far hclock c.engine.term)
  refine ⟨t, ht, ?_⟩
  rw [expires?_entered hadmits, Instant.deadline, ht]
  rfl

/-- The headroom of a request that was entered during a run: the first deadline
has taken one from it, and each extension another one. -/
theorem headroom_run (hL : c.engine.ledger.Sound) (hterm : 0 < c.engine.term.nanos)
    (hclock : c.FarShown es) (hu : (c.run es).engine.ledger.expires? id = some u) :
    c.keeps id es = true ∨
      ∃ es₁ now r es₂, es = es₁ ++ .act (.submit now r) :: es₂ ∧ r.id = id ∧
        (c.run es₁).engine.Admits r ∧
        ((c.run es₁).step (.act (.submit now r))).keeps id es₂ = true ∧
        (c.run es₁).now < u ∧
        Instant.headroom (c.run es₁).now c.engine.term =
          Instant.headroom u c.engine.term +
            ((c.run es₁).step (.act (.submit now r))).prolongations id es₂ + 1 := by
  refine (kept_or_entered hL hu).imp_right ?_
  rintro ⟨es₁, now, r, es₂, rfl, rfl, hadmits, hkeeps⟩
  rw [run_append] at hu
  obtain ⟨t, hfirst, ht⟩ := exists_first_deadline hclock.append.now hadmits now
  rw [term_run] at hfirst
  have hsound : ((c.run es₁).step (.act (.submit now r))).engine.ledger.Sound :=
    sound_step (sound_run hL es₁) _
  have hsame : ((c.run es₁).step (.act (.submit now r))).engine.term = c.engine.term :=
    (term_step _ _).trans (term_run c es₁)
  obtain ⟨hlater, hused⟩ := headroom_kept hsound (hsame ▸ hterm) hkeeps ht hu
  rw [hsame] at hused
  have hearlier : (c.run es₁).now < t := Instant.lt_of_deadline? hterm hfirst
  refine ⟨es₁, now, r, es₂, rfl, rfl, hadmits, hkeeps, Nat.lt_of_lt_of_le hearlier hlater, ?_⟩
  rw [Instant.headroom_of_deadline? hterm hfirst, hused]

/-! ## Beyond the clock -/

theorem farShown_replicate (h : c.now + Instant.farAhead.nanos ≤ Instant.horizon)
    (e : Engine.Event) (n : Nat) : c.FarShown (List.replicate n (.act e)) := by
  induction n generalizing c with
  | zero => exact h
  | succ n ih => exact ⟨h, ih h⟩

theorem expires?_extended (ht : c.engine.ledger.expires? id = some t)
    (hu : Instant.deadline? t c.engine.term = some u) :
    (c.step (.act (.extend id))).engine.ledger.expires? id = some u := by
  have heq := extend?_of_expires? ht
  rw [hu] at heq
  obtain ⟨p, hp, hset⟩ := Option.map_eq_some_iff.mp heq
  show ((c.engine.extend? id).elim c.engine Prod.fst).ledger.expires? id = some u
  rw [hp]
  exact congrArg Prod.fst hset

/-- However much headroom a request has, extensions use it up. -/
theorem exists_last_extension (hterm : 0 < c.engine.term.nanos)
    (ht : c.engine.ledger.expires? id = some t) :
    ∃ n, (c.run (List.replicate n (.act (.extend id)))).engine.extend? id = none := by
  -- on the headroom that is left
  induction hroom : Instant.headroom t c.engine.term generalizing c t with
  | zero =>
    have hbeyond : Instant.deadline? t c.engine.term = none := by
      rw [← Option.not_isSome_iff_eq_none, Instant.deadline?_isSome_iff hterm, hroom]
      exact Nat.lt_irrefl 0
    have hext := extend?_of_expires? ht
    rw [hbeyond] at hext
    exact ⟨0, Option.map_eq_none_iff.mp hext⟩
  | succ k ih =>
    have hshown : (Instant.deadline? t c.engine.term).isSome = true := by
      rw [Instant.deadline?_isSome_iff hterm, hroom]
      exact Nat.succ_pos k
    obtain ⟨u, hu⟩ := Option.isSome_iff_exists.mp hshown
    have hnext := expires?_extended ht hu
    have hsame : (c.step (.act (.extend id))).engine.term = c.engine.term := term_step c _
    have hless : Instant.headroom u c.engine.term = k := by
      rw [Instant.headroom_of_deadline? hterm hu] at hroom
      exact Nat.succ.inj hroom
    obtain ⟨n, hn⟩ := ih (hsame ▸ hterm) hnext (hsame ▸ hless)
    exact ⟨n + 1, hn⟩

end

end Engine.Clocked

namespace Engine

/-- **Extensions within the clock.** Take an engine whose settings make sense,
and any run of it under a clock that can show thirty years from each instant of
the run. The clock can show a deadline that is set from the present. It can show
the one that follows the deadline of a request exactly if the request has been
extended less often, since it was entered, than the headroom of its entry
allows beyond the first deadline; then the extension finds the request and sets
that deadline, which is a later one, and otherwise it comes to nothing. No event
moves a deadline back. -/
theorem extension_shown_iff (s : PoolSettings) (hvalid : s.validate = .ok s) (d : EngineDraft)
    (hterm : d.term = s.provisionTimeout) (members : List Host) (start : Instant)
    (es : List Clocked.Event)
    (hclock : (Clocked.mk (d.engine members) start).FarShown es) :
    let c₀ : Clocked := ⟨d.engine members, start⟩
    let c := c₀.run es
    (∃ u, Instant.deadline? c.now d.term = some u ∧ c.now < u) ∧
      ∀ id t, c.engine.ledger.expires? id = some t →
        (∃ es₁ now r es₂, es = es₁ ++ .act (.submit now r) :: es₂ ∧ r.id = id ∧
          let before := c₀.run es₁
          let entered := before.step (.act (.submit now r))
          before.engine.Admits r ∧ entered.keeps id es₂ = true ∧ before.now < t ∧
            ((Instant.deadline? t d.term).isSome = true ↔
              entered.prolongations id es₂ + 1 < Instant.headroom before.now d.term)) ∧
        (∀ u, Instant.deadline? t d.term = some u → t < u) ∧
        (c.engine.extend? id).map (fun p => (p.1.ledger.expires? id, p.2)) =
          (Instant.deadline? t d.term).map (fun u => (some u, true)) ∧
        ∀ e u, (c.step e).engine.ledger.expires? id = some u → t ≤ u := by
  intro c₀ c
  have hpos : 0 < d.term.nanos := hterm ▸ PoolSettings.provisionTimeout_pos hvalid
  have hsound₀ : c₀.engine.ledger.Sound := Ledger.sound_ofHosts members
  have hsound : c.engine.ledger.Sound := Clocked.sound_run hsound₀ es
  have hsame : c.engine.term = d.term := Clocked.term_run c₀ es
  refine ⟨?_, ?_⟩
  · rw [← List.append_nil es] at hclock
    have hfar : c.now + Instant.farAhead.nanos ≤ Instant.horizon := hclock.append.now
    obtain ⟨u, hu⟩ := Option.isSome_iff_exists.mp (Instant.deadline?_isSome_of_far hfar d.term)
    exact ⟨u, hu, Instant.lt_of_deadline? hpos hu⟩
  · intro id t ht
    refine ⟨?_, fun u hu => Instant.lt_of_deadline? hpos hu, ?_, ?_⟩
    · rcases Clocked.headroom_run hsound₀ hpos hclock ht with hkept | hentered
      · obtain ⟨u, hu⟩ := Clocked.exists_expires?_of_keeps hkept
        cases (Ledger.expires?_ofHosts members id).symm.trans hu
      · obtain ⟨es₁, now, r, es₂, hes, hr, hadmits, hkeeps, hlater, hroom⟩ := hentered
        refine ⟨es₁, now, r, es₂, hes, hr, hadmits, hkeeps, hlater, ?_⟩
        let n := ((c₀.run es₁).step (.act (.submit now r))).prolongations id es₂
        have hused : Instant.headroom (c₀.run es₁).now d.term =
            Instant.headroom t d.term + n + 1 := hroom
        calc (Instant.deadline? t d.term).isSome = true
          _ ↔ 0 < Instant.headroom t d.term := Instant.deadline?_isSome_iff hpos
          _ ↔ n + 1 < Instant.headroom t d.term + n + 1 := by omega
          _ ↔ n + 1 < Instant.headroom (c₀.run es₁).now d.term := by rw [hused]
    · rw [← hsame]
      exact extend?_of_expires? ht
    · intro e u hu
      exact (Clocked.headroom_step hsound (hsame ▸ hpos) ht hu).1

/-- The term of a request that is entered at the start ends forty years before the
last instant. Of two such requests, the one that has been extended once cannot be
extended again, and the other one still can. -/
theorem extension_shown_iff_two_requests :
    let year : Nat := 60 * 60 * 24 * 365
    let s : PoolSettings := { provisionTimeoutSecs := Nat.pow 2 63 - Nat.pow 2 24 - 40 * year }
    let d : EngineDraft := ({} : EngineDraft).withSettings s
    let c₀ : Clocked := ⟨d.engine [], 0⟩
    let es : List Clocked.Event := [.act (.submit 0 ⟨"a", 1, by decide⟩),
      .act (.submit 0 ⟨"b", 1, by decide⟩), .act (.extend "a")]
    let c := c₀.run es
    (s.validate = .ok s ∧ d.term = s.provisionTimeout ∧ c₀.FarShown es) ∧
      Instant.headroom 0 d.term = 2 ∧
      (∃ t, c.engine.ledger.expires? "a" = some t ∧ Instant.deadline? t d.term = none ∧
        c.engine.extend? "a" = none) ∧
      ∃ t u, c.engine.ledger.expires? "b" = some t ∧ Instant.deadline? t d.term = some u ∧
        t < u := by
  intro year s d c₀ es c
  have hvalid : s.validate = .ok s := by decide +kernel
  have hclock : c₀.FarShown es := by decide +kernel
  let t : Instant := Instant.horizon - (Duration.ofSecs (40 * year)).nanos
  let u : Instant := t + Instant.farAhead.nanos
  have ha : c.engine.ledger.expires? "a" = some u := by decide +kernel
  have hb : c.engine.ledger.expires? "b" = some t := by decide +kernel
  have hbeyond : Instant.deadline? u d.term = none := by decide +kernel
  have hshown : Instant.deadline? t d.term = some u := by decide +kernel
  obtain ⟨-, hall⟩ := extension_shown_iff s hvalid d rfl [] 0 es hclock
  obtain ⟨-, -, hext, -⟩ := hall "a" u ha
  obtain ⟨-, hlater, -, -⟩ := hall "b" t hb
  rw [hbeyond] at hext
  exact ⟨⟨hvalid, rfl, hclock⟩, by decide +kernel, ⟨u, ha, hbeyond, Option.map_eq_none_iff.mp hext⟩,
    t, u, hb, hshown, hlater u hshown⟩

/-- However short the term, a request can be extended so often at the instant at
which it is entered that the clock cannot show its next deadline. -/
theorem exists_extension_beyond (s : PoolSettings) (hvalid : s.validate = .ok s) (d : EngineDraft)
    (hterm : d.term = s.provisionTimeout) (members : List Host) (start : Instant)
    (hclock : start + Instant.farAhead.nanos ≤ Instant.horizon) (r : Request) :
    ∃ n, let es : List Clocked.Event :=
        .act (.submit start r) :: List.replicate n (.act (.extend r.id))
      let c₀ : Clocked := ⟨d.engine members, start⟩
      c₀.FarShown es ∧ (c₀.run es).engine.extend? r.id = none := by
  have hpos : 0 < d.term.nanos := hterm ▸ PoolSettings.provisionTimeout_pos hvalid
  have hadmits : (d.engine members).Admits r :=
    ⟨Ledger.describe?_ofHosts members r.id, rfl, nofun⟩
  let c₀ : Clocked := ⟨d.engine members, start⟩
  obtain ⟨t, -, ht⟩ := Clocked.exists_first_deadline (c := c₀) hclock hadmits start
  obtain ⟨n, hn⟩ := Clocked.exists_last_extension
    (Nat.lt_of_lt_of_eq hpos (congrArg _ (Clocked.term_step c₀ _).symm)) ht
  exact ⟨n, ⟨hclock, Clocked.farShown_replicate hclock _ n⟩, hn⟩

/-- The term of a request that is entered at the start ends less than fifteen years
before the last instant. When it has just got its host, its first extension is
beyond the clock, although the clock can show thirty years from now. -/
theorem first_extension_is_beyond_the_clock :
    let year : Nat := 60 * 60 * 24 * 365
    let s : PoolSettings := { provisionTimeoutSecs := Nat.pow 2 63 - 15 * year }
    let d : EngineDraft := ({} : EngineDraft).withSettings s
    let c₀ : Clocked := ⟨d.engine [Host.conventional "host-1"], 0⟩
    let es : List Clocked.Event :=
      [.act (.submit 0 ⟨"a", 1, by decide⟩), .act .work, .act .work]
    let c := c₀.run es
    s.validate = .ok s ∧ c₀.FarShown es ∧
      ∃ t, c.engine.ledger.expires? "a" = some t ∧ Instant.deadline? t d.term = none ∧
        c.engine.extend? "a" = none := by
  intro year s d c₀ es c
  have ha : c.engine.ledger.expires? "a" = some s.provisionTimeout.nanos := by decide +kernel
  have hbeyond : Instant.deadline? s.provisionTimeout.nanos d.term = none := by decide +kernel
  have hext : c.engine.extend? "a" = none := by decide +kernel
  exact ⟨by decide +kernel, by decide +kernel, s.provisionTimeout.nanos, ha, hbeyond, hext⟩

end Engine

end Fleet
