import Fleet.Proofs.Population.Passes

/-!
# Expansion converges

A pass may stop early, when its budget is used up, and then lets members leave
that are on a later page. Over a directory that stays as it is the members are
nevertheless those on all its pages after as many passes as it has pages, and
from then on nothing changes (`passes_converge`).

* **prefixes** — a pass leaves exactly the hosts on the pages that it has taken
  (`Reached`). A pass that has taken no other pages than the one before it has
  let nobody join, so its budget is untouched and it asks for one more page;
* **ends** — a pass takes each page at most once, so it ends after as many
  answers as there are pages (`exists_end`).
-/

namespace Fleet.Growth

/-- What is known of the members after that many passes: they are the hosts on
at least as many pages from the first one on. -/
def Reached (pages : List Page) (passes : Nat) (m : Membership) : Prop :=
  passes = 0 ∨ ∃ k, passes ≤ k ∧ ∀ q, q ∈ m.hosts ↔ q ∈ hostsOn (pages.take k)

theorem Reached.all {pages : List Page} {passes : Nat} {m : Membership}
    (h : Reached pages passes m) (hpos : 0 < pages.length) (hle : pages.length ≤ passes)
    (q : Host) : q ∈ m.hosts ↔ q ∈ hostsOn pages := by
  rcases h with rfl | ⟨k, hk, h⟩
  · omega
  · rw [h, List.take_of_length_le (by omega)]

/-- A pass over a directory that began with some membership after that many
passes, has taken the first pages and is to take the rest. -/
structure Underway (dir : Option String → Page) (passes budget : Nat) (start : Membership)
    (done rest : List Page) (p : Pass) (m : Membership) : Prop where
  ahead : Chain dir p.token rest
  reached : Reached (done ++ rest) passes start
  noted : Pass.Noted budget start (hostsOn done) p m

namespace Underway

variable {dir : Option String → Page} {passes budget : Nat} {start m : Membership}
  {done rest : List Page} {p : Pass}

/-- What the pass knows when it has seen the hosts on the next page. -/
theorem noted_next (h : Underway dir passes budget start done rest p m) :
    Pass.Noted budget start (hostsOn (done ++ [dir p.token]))
      (p.seeAll m (dir p.token).hosts).1 (p.seeAll m (dir p.token).hosts).2.1 := by
  have hnext := h.noted.seeAll (dir p.token).hosts
  have hhosts : hostsOn (done ++ [dir p.token]) = hostsOn done ++ (dir p.token).hosts := by
    simp [hostsOn]
  rw [hhosts]
  exact hnext

/-- A pass that has used up its budget has taken more pages than there have been
passes. -/
theorem passes_lt (h : Underway dir passes budget start done rest p m) (hbudget : 0 < budget)
    (hspent : (p.seeAll m (dir p.token).hosts).1.budget = 0) : passes < done.length + 1 := by
  rcases h.reached with rfl | ⟨k, hk, hstart⟩
  · omega
  · refine Nat.lt_of_not_le fun hle => ?_
    obtain ⟨later, hrest, -⟩ := h.ahead.cases
    -- all that the pass has seen was there when it began, so nobody joined
    have hold : ∀ q ∈ hostsOn (done ++ [dir p.token]), q ∈ start.hosts := by
      intro q hq
      obtain ⟨page, hpage, hq⟩ := mem_hostsOn.mp hq
      refine (hstart q).mpr (mem_hostsOn.mpr ⟨page, ?_, hq⟩)
      have hsplit : done ++ rest = (done ++ [dir p.token]) ++ later := by simp [hrest]
      rw [hsplit, List.take_append]
      refine List.mem_append_left _ ?_
      rw [List.take_of_length_le (by simp; omega)]
      exact hpage
    have hadded := h.noted_next.added_eq_zero hold
    have := h.noted_next.budget
    omega

/-- A pass that ends leaves the hosts on the pages that it has taken. -/
theorem reached_over (h : Underway dir passes budget start done rest p m) (hbudget : 0 < budget)
    (hover : (p.seeAll m (dir p.token).hosts).1.budget = 0 ∨ (dir p.token).next = none) :
    Reached (done ++ rest) (passes + 1)
      ((p.seeAll m (dir p.token).hosts).2.1.removeAll
        (p.seeAll m (dir p.token).hosts).1.unseen).1 := by
  obtain ⟨later, hrest, hlater⟩ := h.ahead.cases
  have hleft : ∀ q, q ∈ ((p.seeAll m (dir p.token).hosts).2.1.removeAll
      (p.seeAll m (dir p.token).hosts).1.unseen).1.hosts ↔
        q ∈ hostsOn (done ++ [dir p.token]) := by
    intro q
    rw [Membership.mem_removeAll, h.noted_next.members, h.noted_next.unseen]
    grind
  by_cases hlast : (dir p.token).next = none
  · -- these were all the pages
    obtain ⟨-, rfl⟩ : (dir p.token).next = none ∧ later = [] :=
      hlater.resolve_right fun hmore => hmore.1 hlast
    refine Or.inr ⟨passes + 1 + (done ++ rest).length, by omega, fun q => ?_⟩
    rw [hleft, List.take_of_length_le (by omega), hrest]
  · have hspent := h.passes_lt hbudget (hover.resolve_right hlast)
    refine Or.inr ⟨done.length + 1, hspent, fun q => ?_⟩
    have hsplit : done ++ rest = (done ++ [dir p.token]) ++ later := by simp [hrest]
    rw [hleft, hsplit, List.take_append_of_le_length (by simp),
      List.take_of_length_le (by simp)]

/-- A pass that asks on is under way with one page less ahead. -/
theorem next (h : Underway dir passes budget start done (dir p.token :: rest) p m)
    (hmore : (dir p.token).next ≠ none) :
    Underway dir passes budget start (done ++ [dir p.token]) rest
      { (p.seeAll m (dir p.token).hosts).1 with token := (dir p.token).next }
      (p.seeAll m (dir p.token).hosts).2.1 := by
  obtain ⟨later, heq, hlater⟩ := h.ahead.cases
  obtain rfl := (List.cons.inj heq).2
  refine ⟨(hlater.resolve_left fun hlast => hmore hlast.1).2, ?_, ?_⟩
  · have := h.reached
    simpa using this
  · have hnoted := h.noted_next
    exact ⟨hnoted.members, hnoted.unseen, hnoted.added, hnoted.budget⟩

/-- When there have been as many passes as there are pages, a page shows no new
host. -/
theorem seeAll_of_reached (h : Underway dir passes budget start done rest p m)
    (hle : (done ++ rest).length ≤ passes) :
    (p.seeAll m (dir p.token).hosts).2 = (m, []) ∧
      (p.seeAll m (dir p.token).hosts).1.added = 0 ∧
      (p.seeAll m (dir p.token).hosts).1.budget = budget := by
  obtain ⟨later, rfl, -⟩ := h.ahead.cases
  have hstart := h.reached.all (by rw [List.length_append, List.length_cons]; omega) hle
  have hnoted := h.noted_next
  have hold : ∀ q ∈ hostsOn (done ++ [dir p.token]), q ∈ start.hosts := by
    intro q hq
    obtain ⟨page, hpage, hq⟩ := mem_hostsOn.mp hq
    refine (hstart q).mpr (mem_hostsOn.mpr ⟨page, ?_, hq⟩)
    simp only [List.mem_append, List.mem_cons] at hpage ⊢
    grind
  have hadded := hnoted.added_eq_zero hold
  refine ⟨Pass.seeAll_of_mem fun q hq => ?_, hadded, by rw [hnoted.budget, hadded]; rfl⟩
  refine (h.noted.members q).mpr (Or.inl (hold q (mem_hostsOn.mpr ⟨_, ?_, hq⟩)))
  exact List.mem_append_right _ List.mem_cons_self

/-- Then nobody is left unseen when the last page has been taken. -/
theorem unseen_of_reached (h : Underway dir passes budget start done rest p m)
    (hle : (done ++ rest).length ≤ passes) (hlast : (dir p.token).next = none) :
    (p.seeAll m (dir p.token).hosts).1.unseen = [] := by
  obtain ⟨later, rfl, hlater⟩ := h.ahead.cases
  obtain ⟨-, rfl⟩ := hlater.resolve_right fun hmore => hmore.1 hlast
  have hstart := h.reached.all (by simp) hle
  rw [List.eq_nil_iff_forall_not_mem]
  intro q hq
  obtain ⟨hold, hunseen⟩ := (h.noted_next.unseen q).mp hq
  exact hunseen ((hstart q).mp hold)

end Underway

namespace Site

/-- How far an expanding population over a directory has come after that many
passes. -/
def Progress (dir : Option String → Page) (pages : List Page) (passes : Nat) (σ : Site) : Prop :=
  match σ.growth.phase with
  | .asking _ p => ∃ start done rest, pages = done ++ rest ∧
      Underway dir passes σ.growth.leaseSize start done rest p σ.members
  | .idle => Reached pages passes σ.members
  | .gone => Reached pages passes σ.members

/-- Nothing changed, and a pass that ended did nothing. -/
def Quiet (effect : List Change × Option Outcome) : Prop :=
  effect.1 = [] ∧ ∀ o ∈ effect.2, o.result = .ok ⟨0, 0⟩

variable {dir : Option String → Page} {pages : List Page} {passes : Nat} {σ : Site}

theorem progress_page {asker : Asker} {p : Pass} (hphase : σ.growth.phase = .asking asker p)
    (h : σ.Progress dir pages passes) :
    let effect := σ.growth.act σ.members (.answer (.ok (dir p.token)))
    (σ.step (.answer (.ok (dir p.token)))).Progress dir pages
        (passes + effect.2.2.2.toList.length) ∧
      (pages.length ≤ passes → Quiet effect.2.2) := by
  unfold Progress at h
  rw [hphase] at h
  obtain ⟨start, done, rest, rfl, h⟩ := h
  dsimp only [step]
  rw [act_answer hphase]
  by_cases hover : (p.seeAll σ.members (dir p.token).hosts).1.budget = 0 ∨
      (dir p.token).next = none
  · rw [Pass.receive_of_over hover]
    refine ⟨h.reached_over σ.growth.leaseSize_pos hover, fun hle => ?_⟩
    obtain ⟨hsame, hadded, hbudget⟩ := h.seeAll_of_reached hle
    -- the budget is untouched, so this was the last page
    have hlast := hover.resolve_left fun hspent => by
      have := σ.growth.leaseSize_pos
      omega
    rw [hsame, hadded, h.unseen_of_reached hle hlast]
    exact ⟨rfl, by rintro o ⟨⟩; rfl⟩
  · rw [Pass.receive_of_asking hover]
    obtain ⟨later, rfl, -⟩ := h.ahead.cases
    refine ⟨⟨start, done ++ [dir p.token], later, by simp, ?_⟩, fun hle => ?_⟩
    · exact h.next fun hlast => hover (Or.inr hlast)
    · rw [(h.seeAll_of_reached hle).1]
      exact ⟨rfl, by rintro o ⟨⟩⟩

/-- A pass that begins has every page ahead of it. -/
theorem progress_begin (hdir : Chain dir none pages) (h : Reached pages passes σ.members)
    (asker : Asker) (queue : List Asker) :
    Progress dir pages passes
      ⟨{ σ.growth with phase := .asking asker (.start σ.members σ.growth.leaseSize), queue },
        σ.members⟩ :=
  ⟨σ.members, [], pages, rfl, hdir, h, Pass.noted_start σ.members σ.growth.leaseSize⟩

/-- Events other than an answer leave a population as far as it has come. -/
theorem progress_of_ne_answer (hdir : Chain dir none pages) {e : Event}
    (he : ∀ a, e ≠ .answer a) (h : σ.Progress dir pages passes) :
    (σ.step e).Progress dir pages passes := by
  cases e with
  | request asker =>
    show Progress dir pages passes ⟨(σ.growth.request? asker).getD σ.growth, σ.members⟩
    unfold request?
    split <;> exact h
  | close => exact h
  | next =>
    show Progress dir pages passes
      ⟨if σ.growth.isReady then (σ.growth.next σ.members).1 else σ.growth, σ.members⟩
    by_cases hready : σ.growth.isReady
    · have hidle : σ.growth.phase = .idle := by
        simp only [isReady, Bool.and_eq_true, beq_iff_eq] at hready
        exact hready.1
      have hreached : Reached pages passes σ.members := by
        unfold Progress at h
        rwa [hidle] at h
      rw [if_pos hready]
      unfold Growth.next
      split
      · exact hreached
      · split
        · exact h
        · exact progress_begin hdir hreached _ _
    · rw [if_neg hready]
      exact h
  | answer a => exact absurd rfl (he a)

/-- Over a directory every event keeps count of the passes, and changes nothing
once there have been as many as there are pages. -/
theorem progress_step (hdir : Chain dir none pages) {e : Event} (h : σ.Progress dir pages passes)
    (hreads : e.IsFrom dir σ.growth.wanted?) :
    let effect := σ.growth.act σ.members e
    (σ.step e).Progress dir pages (passes + effect.2.2.2.toList.length) ∧
      (pages.length ≤ passes → Quiet effect.2.2) := by
  cases e with
  | answer a =>
    cases hphase : σ.growth.phase with
    | asking asker p =>
      have hwanted : σ.growth.wanted? = some (p.token, σ.growth.leaseSize) := by
        simp [wanted?, hphase]
      rw [hwanted] at hreads
      cases a with
      | error reason => cases hreads
      | ok page =>
        obtain rfl : page = dir p.token := hreads _ List.mem_cons_self
        exact progress_page hphase h
    | idle | gone =>
      -- nobody has asked
      have hact : σ.growth.act σ.members (.answer a) = (σ.growth, σ.members, [], none) := by
        simp [act, receive, hphase]
      dsimp only [step]
      rw [hact]
      exact ⟨h, fun _ => ⟨rfl, by rintro o ⟨⟩⟩⟩
  | request | close | next =>
    exact ⟨progress_of_ne_answer hdir (by simp) h, fun _ => ⟨rfl, by rintro o ⟨⟩⟩⟩

theorem progress_run (hdir : Chain dir none pages) {es : List Event}
    (h : σ.Progress dir pages passes) (hreads : σ.Reads dir es) :
    (σ.run es).Progress dir pages (passes + (σ.outcomes es).length) := by
  induction es generalizing σ passes with
  | nil => exact h
  | cons e rest ih =>
    have hrest := ih (progress_step hdir h hreads.1).1 hreads.2
    rw [outcomes, List.length_append, ← Nat.add_assoc]
    exact hrest

theorem quiet_run (hdir : Chain dir none pages) {es : List Event}
    (h : σ.Progress dir pages passes) (hle : pages.length ≤ passes) (hreads : σ.Reads dir es) :
    σ.changes es = [] ∧ ∀ o ∈ σ.outcomes es, o.result = .ok ⟨0, 0⟩ := by
  induction es generalizing σ passes with
  | nil => exact ⟨rfl, fun o ho => absurd ho List.not_mem_nil⟩
  | cons e rest ih =>
    obtain ⟨hnext, hquiet⟩ := progress_step hdir h hreads.1
    obtain ⟨hchanges, houtcomes⟩ := hquiet hle
    obtain ⟨hrest, hothers⟩ := ih hnext (by omega) hreads.2
    rw [changes, outcomes, hchanges, hrest]
    refine ⟨rfl, fun o ho => ?_⟩
    rcases List.mem_append.mp ho with ho | ho
    · exact houtcomes o (Option.mem_toList.mp ho)
    · exact hothers o ho

theorem Progress.members_all (h : σ.Progress dir pages passes) (hpos : 0 < pages.length)
    (hle : pages.length ≤ passes) (q : Host) :
    q ∈ σ.members.hosts ↔ ∃ page ∈ pages, q ∈ page.hosts := by
  rw [← mem_hostsOn]
  unfold Progress at h
  cases hphase : σ.growth.phase with
  | asking asker p =>
    rw [hphase] at h
    obtain ⟨start, done, rest, rfl, h⟩ := h
    have hstart := h.reached.all hpos hle
    -- what the pass has seen so far was there before
    rw [h.noted.members, hstart, or_iff_left_iff_imp, mem_hostsOn, mem_hostsOn]
    rintro ⟨page, hpage, hq⟩
    exact ⟨page, List.mem_append_left _ hpage, hq⟩
  | idle | gone =>
    rw [hphase] at h
    exact Reached.all h hpos hle q

/-! ## Every pass ends -/

/-- The answers of a directory that never fails. -/
def answers (pages : List Page) : List Event := pages.map fun page => .answer (.ok page)

/-- A pass under way is over after at most as many answers as there are pages
ahead of it. -/
theorem exists_end {asker : Asker} {start : Membership} {done rest : List Page} {p : Pass}
    (hphase : σ.growth.phase = .asking asker p)
    (h : Underway dir passes σ.growth.leaseSize start done rest p σ.members) :
    ∃ k ≤ rest.length, ∃ s, σ.Reads dir (answers (rest.take k)) ∧
      (σ.run (answers (rest.take k))).growth.phase = .idle ∧
      σ.outcomes (answers (rest.take k)) = [⟨asker, .ok s⟩] := by
  induction rest generalizing σ done p with
  | nil =>
    obtain ⟨later, heq, -⟩ := h.ahead.cases
    cases heq
  | cons page later ih =>
    obtain ⟨_, heq, -⟩ := h.ahead.cases
    obtain rfl := (List.cons.inj heq).1
    have hreads : (Event.answer (.ok (dir p.token))).IsFrom dir σ.growth.wanted? := by
      intro w hw
      simp only [wanted?, hphase, Option.toList_some, List.mem_singleton] at hw
      rw [hw]
    have hact := act_answer hphase (dir p.token)
    by_cases hover : (p.seeAll σ.members (dir p.token).hosts).1.budget = 0 ∨
        (dir p.token).next = none
    · rw [Pass.receive_of_over hover] at hact
      obtain ⟨s, hs⟩ : ∃ s, (σ.growth.act σ.members (.answer (.ok (dir p.token)))).2.2.2 =
          some ⟨asker, .ok s⟩ := ⟨_, by rw [hact]⟩
      refine ⟨1, by simp, s, ⟨hreads, trivial⟩, ?_, ?_⟩
      · show (σ.growth.act σ.members _).1.phase = .idle
        rw [hact]
      · show (σ.growth.act σ.members _).2.2.2.toList ++ [] = _
        rw [hs]
        rfl
    · rw [Pass.receive_of_asking hover] at hact
      -- the pass goes on, with one page less ahead of it
      let τ := σ.step (.answer (.ok (dir p.token)))
      have hτ : τ = ⟨(σ.growth.act σ.members (.answer (.ok (dir p.token)))).1,
        (σ.growth.act σ.members (.answer (.ok (dir p.token)))).2.1⟩ := rfl
      rw [hact] at hτ
      have hmore : (dir p.token).next ≠ none := fun hlast => hover (Or.inr hlast)
      obtain ⟨k, hk, s, htail, hidle, hout⟩ := ih (σ := τ) (by rw [hτ]) (by
        rw [hτ]
        exact h.next hmore)
      refine ⟨k + 1, by simpa using hk, s, ⟨hreads, htail⟩, hidle, ?_⟩
      show (σ.growth.act σ.members _).2.2.2.toList ++ τ.outcomes _ = _
      rw [hact]
      exact hout

/-- **Convergence.** Over a directory of some pages that never fails, every pass
that an open population takes up ends, after at most one answer for each page.
When there have been as many passes as pages, whatever the members were before,
they are the hosts on all pages; and from then on no pass changes anything. -/
theorem passes_converge {dir : Option String → Page} {pages : List Page}
    (hdir : Chain dir none pages) (σ : Site) (hidle : σ.growth.phase = .idle) :
    (∀ asker rest, σ.growth.closed = false → σ.growth.queue = asker :: rest →
      ∃ k ≤ pages.length, ∃ s,
        let es := Event.next :: answers (pages.take k)
        σ.Reads dir es ∧ (σ.run es).growth.phase = .idle ∧ σ.outcomes es = [⟨asker, .ok s⟩]) ∧
    ∀ es fs, σ.Reads dir (es ++ fs) → pages.length ≤ (σ.outcomes es).length →
      (∀ q, q ∈ (σ.run es).members.hosts ↔ ∃ page ∈ pages, q ∈ page.hosts) ∧
      (σ.run es).changes fs = [] ∧
      ∀ o ∈ (σ.run es).outcomes fs, o.result = .ok ⟨0, 0⟩ := by
  have hpos : 0 < pages.length := by
    obtain ⟨later, rfl, -⟩ := hdir.cases
    simp
  have hstart : σ.Progress dir pages 0 := by
    unfold Progress
    rw [hidle]
    exact Or.inl rfl
  refine ⟨fun asker rest hopen hqueue => ?_, fun es fs hreads hle => ?_⟩
  · let τ : Site :=
      ⟨{ σ.growth with
          phase := .asking asker (.start σ.members σ.growth.leaseSize), queue := rest }, σ.members⟩
    have hτ : σ.step .next = τ := by
      simp [step, act, isReady, Growth.next, hidle, hopen, hqueue, τ]
    have hbegun : Underway dir 0 τ.growth.leaseSize σ.members [] pages
        (.start σ.members σ.growth.leaseSize) τ.members :=
      ⟨hdir, Or.inl rfl, Pass.noted_start _ _⟩
    obtain ⟨k, hk, s, hread, hend, hout⟩ := exists_end (σ := τ) rfl hbegun
    refine ⟨k, hk, s, ⟨trivial, ?_⟩, ?_, ?_⟩
    · rw [hτ]
      exact hread
    · show ((σ.step .next).run _).growth.phase = .idle
      rw [hτ]
      exact hend
    · show [] ++ (σ.step .next).outcomes _ = _
      rw [hτ]
      exact hout
  · obtain ⟨hfirst, hlater⟩ := reads_append.mp hreads
    have hprogress := progress_run hdir hstart hfirst
    rw [Nat.zero_add] at hprogress
    exact ⟨hprogress.members_all hpos hle, quiet_run hdir hprogress hle hlater⟩

/-- A directory of two pages that share a host, read one new host at a time by a
population that begins with a host which is on neither: the first pass ends with
the first page. -/
theorem passes_converge_two_pages :
    let host (n : String) : Host := .conventional n
    let dir (token : Option String) : Page :=
      if token = none then ⟨[host "a", host "b"], some "2"⟩ else ⟨[host "b", host "c"], none⟩
    let pages := [dir none, dir (some "2")]
    let σ : Site := ⟨{ ofLeaseSize 1 with queue := [none, some 7, none] }, .ofHosts [host "z"]⟩
    let es := [.next] ++ answers [dir none] ++ [.next] ++ answers pages
    let fs := [.next] ++ answers pages
    (Chain dir none pages ∧ σ.growth.phase = .idle ∧ σ.Reads dir (es ++ fs) ∧
      (σ.run es).members.hosts = [host "a", host "b", host "c"]) ∧
      (∀ q, q ∈ (σ.run es).members.hosts ↔ ∃ page ∈ pages, q ∈ page.hosts) ∧
      (σ.run es).changes fs = [] ∧ ∀ o ∈ (σ.run es).outcomes fs, o.result = .ok ⟨0, 0⟩ := by
  intro host dir pages σ es fs
  have hdir : Chain dir none pages := .more rfl (.last rfl)
  have hreads : σ.Reads dir (es ++ fs) := by decide +kernel
  refine ⟨⟨hdir, rfl, hreads, by decide⟩, ?_⟩
  exact (passes_converge hdir σ rfl).2 es fs hreads (by decide)

end Site

end Fleet.Growth
