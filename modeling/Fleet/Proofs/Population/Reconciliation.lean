import Fleet.Proofs.Population.Passes

/-!
# What a pass has on record

A worker that is idle stays so until it begins a pass; then pages are asked for
and taken until the pass ends. `Since` says how far it has come: which pages it
has taken, which ones it has asked for, and how the members have changed. It is
kept by every event that does not end the pass (`since_step`), so a pass that
ends is told of by the pages it took:

* **completed** — the members are the hosts on these pages; the new ones joined,
  each where it first occurs, and then the members that are on no page left
  (`EndsWith.reconciled`);
* **failed** — the new ones joined, and nobody left (`EndsWith.brokenOff`).

In both cases each page but the last goes on (`GoesOn`): it names a page after
it, and fewer hosts than the lease size have joined by then.
-/

namespace Fleet

namespace Membership

/-- Members that leave one after the other are told of in that order. -/
theorem snd_removeAll {m : Membership} {hosts : List Host} (hin : ∀ h ∈ hosts, h ∈ m.hosts)
    (hnodup : hosts.Nodup) : (m.removeAll hosts).2 = hosts.map .removed := by
  induction hosts generalizing m with
  | nil => rfl
  | cons h rest ih =>
    obtain ⟨hnot, hnodup⟩ := List.nodup_cons.mp hnodup
    have hfirst : (m.remove h).2 = [.removed h] := by
      unfold remove
      rw [if_pos (hin h List.mem_cons_self)]
    have hrest : ∀ q ∈ rest, q ∈ (m.remove h).1.hosts := fun q hq =>
      mem_remove.mpr ⟨hin q (List.mem_cons_of_mem h hq), fun heq => hnot (heq ▸ hq)⟩
    show (m.remove h).2 ++ ((m.remove h).1.removeAll rest).2 = _
    rw [hfirst, ih hrest hnodup]
    rfl

end Membership

theorem hostsOn_snoc (pages : List Page) (page : Page) :
    hostsOn (pages ++ [page]) = hostsOn pages ++ page.hosts := by
  simp [hostsOn]

namespace Pass

/-- What a pass has on record when it has seen some hosts: who is still to be
seen, in order, and who has been told of. -/
structure Recorded (budget : Nat) (start : Membership) (seen : List Host) (p : Pass)
    (m : Membership) (changes : List Change) : Prop extends Noted budget start seen p m where
  remaining : p.unseen = start.hosts.filter fun q => q ∉ seen
  joined : changes = (newcomers start seen).map .added

theorem recorded_start (m : Membership) (budget : Nat) :
    Recorded budget m [] (.start m budget) m [] where
  toNoted := noted_start m budget
  remaining := (List.filter_eq_self.mpr (by simp)).symm
  joined := rfl

namespace Recorded

variable {budget : Nat} {start m : Membership} {seen : List Host} {p : Pass}
  {changes : List Change}

theorem see (hp : Recorded budget start seen p m changes) (h : Host) :
    Recorded budget start (seen ++ [h]) (p.see m h).1 (p.see m h).2.1
      (changes ++ (p.see m h).2.2) := by
  refine ⟨hp.toNoted.see h, ?_, ?_⟩
  · by_cases hin : h ∈ m.hosts
    · rw [see_of_mem hin]
      simp only [hp.remaining, List.filter_filter]
      refine List.filter_congr fun q _ => ?_
      by_cases heq : q = h <;> simp [heq]
    · have hout := not_or.mp (mt (hp.members h).mpr hin)
      have hunseen : ∀ q ∈ p.unseen, q ∈ m.hosts := fun q hq =>
        (hp.members q).mpr (Or.inl ((hp.unseen q).mp hq).1)
      rw [see_of_notMem hunseen hin]
      -- a host that joins was no member, so nobody else is seen
      simp only [hp.remaining]
      refine List.filter_congr fun q hq => ?_
      have hne : q ≠ h := fun heq => hout.1 (heq ▸ hq)
      simp [hne]
  · by_cases hin : h ∈ m.hosts
    · rw [see_of_mem hin, newcomers_append_of_mem ((hp.members h).mp hin), List.append_nil]
      exact hp.joined
    · obtain ⟨hout, hseen⟩ := not_or.mp (mt (hp.members h).mpr hin)
      have hunseen : ∀ q ∈ p.unseen, q ∈ m.hosts := fun q hq =>
        (hp.members q).mpr (Or.inl ((hp.unseen q).mp hq).1)
      rw [see_of_notMem hunseen hin, newcomers_append_of_notMem hout hseen, List.map_append,
        hp.joined]
      rfl

theorem seeAll (hp : Recorded budget start seen p m changes) (hosts : List Host) :
    Recorded budget start (seen ++ hosts) (p.seeAll m hosts).1 (p.seeAll m hosts).2.1
      (changes ++ (p.seeAll m hosts).2.2) := by
  induction hosts generalizing p m seen changes with
  | nil =>
    rw [List.append_nil]
    simpa [Pass.seeAll] using hp
  | cons h rest ih =>
    have hrest := ih (hp.see h)
    rw [List.append_assoc, List.append_assoc] at hrest
    exact hrest

/-- The members that are still to be seen leave. -/
theorem leave (hp : Recorded budget start seen p m changes) :
    (∀ q, q ∈ (m.removeAll p.unseen).1.hosts ↔ q ∈ seen) ∧
      (m.removeAll p.unseen).2 = (start.hosts.filter fun q => q ∉ seen).map .removed := by
  refine ⟨fun q => ?_, ?_⟩
  · rw [Membership.mem_removeAll, hp.members, hp.unseen]
    grind
  · have hin : ∀ q ∈ p.unseen, q ∈ m.hosts := fun q hq =>
      (hp.members q).mpr (Or.inl ((hp.unseen q).mp hq).1)
    rw [hp.remaining] at hin ⊢
    exact Membership.snd_removeAll hin (start.nodup.filter _)

/-- The budget is used up when as many hosts have joined. -/
theorem budget_eq_zero_iff (hp : Recorded budget start seen p m changes) :
    p.budget = 0 ↔ budget ≤ (newcomers start seen).length := by
  rw [hp.budget, hp.added]
  omega

end Recorded

/-- After this page a pass asks for the next one: the page names one, and fewer
hosts than the budget have joined. -/
def GoesOn (start : Membership) (budget : Nat) (before : List Page) (page : Page) : Prop :=
  page.next ≠ none ∧ (newcomers start (hostsOn (before ++ [page]))).length < budget

theorem not_goesOn_iff {start : Membership} {budget : Nat} {before : List Page} {page : Page} :
    ¬GoesOn start budget before page ↔
      page.next = none ∨ budget ≤ (newcomers start (hostsOn (before ++ [page]))).length := by
  unfold GoesOn
  by_cases hlast : page.next = none <;> simp [hlast]

/-- The condition on which a page ends a pass is that the pass does not go on. -/
theorem Recorded.over_iff {budget : Nat} {start m : Membership} {before : List Page} {p : Pass}
    {changes : List Change} (hp : Recorded budget start (hostsOn before) p m changes) (page : Page) :
    ((p.seeAll m page.hosts).1.budget = 0 ∨ page.next = none) ↔
      ¬GoesOn start budget before page := by
  rw [(hp.seeAll page.hosts).budget_eq_zero_iff, ← hostsOn_snoc, not_goesOn_iff]
  exact Or.comm

/-- After each of these pages a pass asks for the next one. -/
def AllGoOn (start : Membership) (budget : Nat) (pages : List Page) : Prop :=
  ∀ before page after, pages = before ++ page :: after → GoesOn start budget before page

/-- A list with one more page splits around a page at its end or before it. -/
theorem snoc_eq_append_cons {before first after : List Page} {last page : Page}
    (heq : before ++ [last] = first ++ page :: after) :
    after = [] ∧ first = before ∧ page = last ∨
      ∃ after', after = after' ++ [last] ∧ before = first ++ page :: after' := by
  rcases List.eq_nil_or_concat after with rfl | ⟨after', q, rfl⟩
  · obtain ⟨hbefore, hlast⟩ := List.append_inj' heq rfl
    exact Or.inl ⟨rfl, hbefore.symm, (List.singleton_inj.mp hlast).symm⟩
  · rw [List.concat_eq_append, ← List.cons_append, ← List.append_assoc] at heq
    obtain ⟨hbefore, hlast⟩ := List.append_inj' heq rfl
    exact Or.inr ⟨after', by rw [List.singleton_inj.mp hlast, List.concat_eq_append], hbefore⟩

theorem AllGoOn.snoc {start : Membership} {budget : Nat} {pages : List Page} {page : Page}
    (h : AllGoOn start budget pages) (hpage : GoesOn start budget pages page) :
    AllGoOn start budget (pages ++ [page]) := by
  intro before q after heq
  rcases snoc_eq_append_cons heq with ⟨-, rfl, rfl⟩ | ⟨after', -, hbefore⟩
  · exact hpage
  · exact h before q after' hbefore

/-- When all pages but the last go on, a page is the last one exactly if it does
not. -/
theorem AllGoOn.last_iff {start : Membership} {budget : Nat} {before first after : List Page}
    {last page : Page} (h : AllGoOn start budget before) (hlast : ¬GoesOn start budget before last)
    (heq : before ++ [last] = first ++ page :: after) :
    after = [] ↔ ¬GoesOn start budget first page := by
  rcases snoc_eq_append_cons heq with ⟨rfl, rfl, rfl⟩ | ⟨after', rfl, hbefore⟩
  · exact ⟨fun _ => hlast, fun _ => rfl⟩
  · exact ⟨fun hnil => by simp at hnil, fun hno => absurd (h first page after' hbefore) hno⟩

/-- As long as a pass goes on, fewer hosts than the budget have joined. -/
theorem AllGoOn.lt {start : Membership} {budget : Nat} {pages : List Page}
    (h : AllGoOn start budget pages) (hpos : 0 < budget) :
    (newcomers start (hostsOn pages)).length < budget := by
  rcases List.eq_nil_or_concat pages with rfl | ⟨before, page, rfl⟩
  · exact hpos
  · rw [List.concat_eq_append] at h ⊢
    exact (h before page [] rfl).2

end Pass

namespace Growth

namespace Site

/-- The page that an event brings to the pass under way. -/
def page? (σ : Site) : Event → Option Page
  | .answer (.ok page) => σ.growth.wanted?.map fun _ => page
  | .answer (.error _) | .request _ | .close | .next => none

/-- The pages that passes take over a run. -/
def pages (σ : Site) : List Event → List Page
  | [] => []
  | e :: es => (σ.page? e).toList ++ (σ.step e).pages es

/-- What the directory is asked for when an event has happened: the token of a
page, and how many hosts it should hold. -/
def asked? (σ : Site) : Event → Option (Option String × Nat)
  | .next => if σ.growth.isReady then (σ.step .next).growth.wanted? else none
  | .answer a => (σ.step (.answer a)).growth.wanted?
  | .request _ | .close => none

/-- What the directory is asked for over a run. -/
def asked (σ : Site) : List Event → List (Option String × Nat)
  | [] => []
  | e :: es => (σ.asked? e).toList ++ (σ.step e).asked es

/-- The pass that an event ends. -/
def outcome? (σ : Site) (e : Event) : Option Outcome := (σ.growth.act σ.members e).2.2.2

/-- No pass ends over the events but the last one, which ends one so. -/
inductive EndsWith : Site → List Event → Outcome → Prop
  | last {σ e o} (h : σ.outcome? e = some o) : EndsWith σ [e] o
  | more {σ e es o} (h : σ.outcome? e = none) (hrest : EndsWith (σ.step e) es o) :
      EndsWith σ (e :: es) o

/-- How far a worker has come that was idle with some members. -/
inductive Since (start : Membership) (budget : Nat) :
    Site → List Page → List (Option String × Nat) → List Change → Prop
  | resting {g} (hphase : g.wanted? = none) (hsize : g.leaseSize = budget) :
      Since start budget ⟨g, start⟩ [] [] []
  | underway {g m asker p pages changes} (hphase : g.phase = .asking asker p)
      (hsize : g.leaseSize = budget)
      (hp : Pass.Recorded budget start (hostsOn pages) p m changes)
      (hpages : Pass.AllGoOn start budget pages) :
      Since start budget ⟨g, m⟩ pages ((none :: pages.map Page.next).map (·, budget)) changes

variable {start : Membership} {budget : Nat} {σ : Site} {taken : List Page}
  {wanted : List (Option String × Nat)} {changes : List Change}

/-- A worker takes requests, and what it does next is to begin a pass for the
first of them. -/
structure Serves (σ : Site) : Prop where
  accepts : ∀ asker,
    σ.growth.request? asker = some { σ.growth with queue := σ.growth.queue ++ [asker] }
  begins : ∀ asker rest, σ.growth.queue = asker :: rest → σ.growth.closed = false →
    (σ.step .next).growth.phase = .asking asker (.start σ.members σ.growth.leaseSize) ∧
      σ.asked? .next = some (none, σ.growth.leaseSize)

theorem serves_of_idle (hidle : σ.growth.phase = .idle) : σ.Serves := by
  refine ⟨fun asker => by simp [request?, Growth.accepts, hidle], fun asker rest hqueue hopen => ?_⟩
  have hready : σ.growth.isReady := by simp [isReady, hidle, hqueue]
  have hstep : (σ.step .next).growth = (σ.growth.next σ.members).1 := if_pos hready
  have hnext : (σ.growth.next σ.members).1 = { σ.growth with
      phase := .asking asker (.start σ.members σ.growth.leaseSize), queue := rest } := by
    simp [next, hopen, hqueue]
  have hasked : σ.asked? .next = (σ.step .next).growth.wanted? := if_pos hready
  rw [hasked, hstep, hnext]
  exact ⟨rfl, rfl⟩

theorem since_of_idle (hidle : σ.growth.phase = .idle) :
    Since σ.members σ.growth.leaseSize σ [] [] [] :=
  .resting (by simp [wanted?, hidle]) rfl

theorem Since.congr (h : Since start budget σ taken wanted changes) {g : Growth}
    (hphase : g.phase = σ.growth.phase) (hsize : g.leaseSize = σ.growth.leaseSize) :
    Since start budget ⟨g, σ.members⟩ taken wanted changes := by
  cases h with
  | resting hrest hbudget =>
    refine .resting ?_ (hsize.trans hbudget)
    unfold wanted? at hrest ⊢
    rw [hphase]
    cases hg : g.phase <;> simp_all
  | underway hasking hbudget hp hpages =>
    exact .underway (hphase.trans hasking) (hsize.trans hbudget) hp hpages

/-- After each page taken the pass has gone on. -/
theorem Since.allGoOn (h : Since start budget σ taken wanted changes) :
    Pass.AllGoOn start budget taken := by
  cases h with
  | resting => simp [Pass.AllGoOn]
  | underway _ _ _ hpages => exact hpages

/-- A page after which the pass goes on. -/
theorem since_page {asker : Asker} {p : Pass} (hphase : σ.growth.phase = .asking asker p)
    (hsize : σ.growth.leaseSize = budget)
    (hp : Pass.Recorded budget start (hostsOn taken) p σ.members changes)
    (htaken : Pass.AllGoOn start budget taken) {page : Page}
    (hgo : Pass.GoesOn start budget taken page) :
    let effect := σ.growth.act σ.members (.answer (.ok page))
    Since start budget ⟨effect.1, effect.2.1⟩ (taken ++ [page])
        ((none :: (taken ++ [page]).map Page.next).map (·, budget)) (changes ++ effect.2.2.1) ∧
      effect.1.wanted? = some (page.next, budget) ∧ effect.2.2.2 = none := by
  have hseen := hp.seeAll page.hosts
  rw [← hostsOn_snoc] at hseen
  rw [act_answer hphase, Pass.receive_of_asking fun hover => (hp.over_iff page).mp hover hgo]
  refine ⟨.underway rfl hsize ?_ (htaken.snoc hgo), by simp [wanted?, hsize], rfl⟩
  exact ⟨⟨hseen.members, hseen.unseen, hseen.added, hseen.budget⟩, hseen.remaining, hseen.joined⟩

/-- A page that ends the pass: the members are the hosts on the pages taken. -/
theorem act_last_page {asker : Asker} {p : Pass} (hphase : σ.growth.phase = .asking asker p)
    (hp : Pass.Recorded budget start (hostsOn taken) p σ.members changes) {page : Page}
    (hover : ¬Pass.GoesOn start budget taken page) :
    let effect := σ.growth.act σ.members (.answer (.ok page))
    let seen := hostsOn (taken ++ [page])
    let gone := start.hosts.filter fun q => q ∉ seen
    (∀ q, q ∈ effect.2.1.hosts ↔ q ∈ seen) ∧
      changes ++ effect.2.2.1 = (Pass.newcomers start seen).map .added ++ gone.map .removed ∧
      effect.2.2.2 = some ⟨asker, .ok ⟨(Pass.newcomers start seen).length, gone.length⟩⟩ ∧
      effect.1 = { σ.growth with phase := .idle } := by
  have hseen := hp.seeAll page.hosts
  rw [← hostsOn_snoc] at hseen
  obtain ⟨hmembers, hleft⟩ := hseen.leave
  rw [act_answer hphase, Pass.receive_of_over ((hp.over_iff page).mpr hover)]
  refine ⟨hmembers, ?_, ?_, rfl⟩
  · dsimp only
    rw [← List.append_assoc, hseen.joined, hleft]
  · dsimp only
    rw [hseen.added, hleft, List.length_map]

/-- A worker that does what is next either stops or begins a pass, which asks for
the first page. -/
theorem since_next (h : Since start budget σ taken wanted changes) (hready : σ.growth.isReady) :
    Since start budget ⟨(σ.growth.next σ.members).1, σ.members⟩ taken
      (wanted ++ (σ.growth.next σ.members).1.wanted?.toList) changes := by
  cases h with
  | @resting g hrest hsize =>
    unfold next
    split
    · exact .resting rfl hsize
    · split
      · dsimp only
        rw [hrest]
        exact .resting hrest hsize
      · next asker rest _ =>
        subst hsize
        exact .underway rfl rfl (Pass.recorded_start start g.leaseSize) (by simp [Pass.AllGoOn])
  | underway hphase => simp [isReady, hphase] at hready

/-- An event that does not end the pass leaves the record complete. -/
theorem since_step (h : Since start budget σ taken wanted changes) {e : Event}
    (hnone : σ.outcome? e = none) :
    Since start budget (σ.step e) (taken ++ (σ.page? e).toList) (wanted ++ (σ.asked? e).toList)
      (changes ++ (σ.growth.act σ.members e).2.2.1) := by
  have hquiet {g : Growth} (hphase : g.phase = σ.growth.phase)
      (hsize : g.leaseSize = σ.growth.leaseSize) :
      Since start budget ⟨g, σ.members⟩ (taken ++ []) (wanted ++ []) (changes ++ []) := by
    simpa using h.congr hphase hsize
  cases e with
  | request asker =>
    refine hquiet (g := (σ.growth.request? asker).getD σ.growth) ?_ ?_ <;>
      · unfold request?
        split <;> rfl
  | close => exact hquiet rfl rfl
  | next =>
    show Since start budget
      ⟨if σ.growth.isReady then (σ.growth.next σ.members).1 else σ.growth, σ.members⟩ _ _ _
    by_cases hready : σ.growth.isReady
    · have hasked : σ.asked? .next = (σ.growth.next σ.members).1.wanted? := by
        show (if σ.growth.isReady then (if σ.growth.isReady then
          (σ.growth.next σ.members).1 else σ.growth).wanted? else none) = _
        rw [if_pos hready, if_pos hready]
      rw [hasked, if_pos hready]
      simpa [page?, act] using since_next h hready
    · have hasked : σ.asked? .next = none := if_neg hready
      rw [hasked, if_neg hready]
      exact hquiet rfl rfl
  | answer a =>
    cases h with
    | @resting g hrest hsize =>
      -- nobody has asked
      have hact : g.act start (.answer a) = (g, start, [], none) := by
        unfold act receive
        unfold wanted? at hrest
        cases hphase : g.phase <;> simp_all
      have hstep : step ⟨g, start⟩ (.answer a) = ⟨g, start⟩ := by
        unfold step
        rw [hact]
      have hpage : page? ⟨g, start⟩ (.answer a) = none := by
        cases a <;> simp [page?, hrest]
      rw [hpage, asked?, hstep, hact, hrest]
      exact .resting hrest hsize
    | @underway g m asker p _ _ hphase hsize hp hpages =>
      cases a with
      | error reason =>
        have hfails : outcome? ⟨g, m⟩ (.answer (.error reason)) = some ⟨asker, .error reason⟩ := by
          simp [outcome?, act, receive, hphase]
        rw [hfails] at hnone
        cases hnone
      | ok page =>
        have hgo : Pass.GoesOn start budget taken page := by
          refine Classical.byContradiction fun hover => ?_
          have hends := (act_last_page (σ := ⟨g, m⟩) hphase hp hover).2.2.1
          rw [outcome?, hends] at hnone
          cases hnone
        obtain ⟨hnext, hwanted, -⟩ := since_page (σ := ⟨g, m⟩) hphase hsize hp hpages hgo
        have hpage : page? ⟨g, m⟩ (.answer (.ok page)) = some page := by
          simp [page?, wanted?, hphase]
        have hasked : asked? ⟨g, m⟩ (.answer (.ok page)) = some (page.next, budget) := hwanted
        rw [hpage, hasked]
        simpa [step] using hnext

/-- What a pass comes to that is completed. -/
structure Reconciled (start : Membership) (budget : Nat) (taken : List Page)
    (wanted : List (Option String × Nat)) (changes : List Change) (s : PassSummary)
    (hosts : List Host) : Prop where
  members : ∀ q, q ∈ hosts ↔ q ∈ hostsOn taken
  added : s.added = (Pass.newcomers start (hostsOn taken)).length
  removed : s.removed = (start.hosts.filter fun q => q ∉ hostsOn taken).length
  told : changes = (Pass.newcomers start (hostsOn taken)).map .added ++
    (start.hosts.filter fun q => q ∉ hostsOn taken).map .removed
  -- all pages but the last go on
  pages : ∃ before last, taken = before ++ [last] ∧ Pass.AllGoOn start budget before ∧
    ¬Pass.GoesOn start budget before last ∧
    wanted = (none :: before.map Page.next).map (·, budget)

/-- What a pass comes to that fails. -/
structure BrokenOff (start : Membership) (budget : Nat) (taken : List Page)
    (wanted : List (Option String × Nat)) (changes : List Change) (hosts : List Host) : Prop where
  members : ∀ q, q ∈ hosts ↔ q ∈ start.hosts ∨ q ∈ hostsOn taken
  told : changes = (Pass.newcomers start (hostsOn taken)).map .added
  pages : Pass.AllGoOn start budget taken
  wanted : wanted = (none :: taken.map Page.next).map (·, budget)

/-- Only the answer to a page that a pass has asked for ends it. -/
theorem Since.of_outcome (h : Since start budget σ taken wanted changes) {e : Event} {o : Outcome}
    (hend : σ.outcome? e = some o) :
    ∃ a p, e = .answer a ∧ σ.growth.phase = .asking o.asker p ∧ σ.growth.leaseSize = budget ∧
      Pass.Recorded budget start (hostsOn taken) p σ.members changes ∧
      Pass.AllGoOn start budget taken ∧
      wanted = (none :: taken.map Page.next).map (·, budget) := by
  cases e with
  | request | close | next => cases hend
  | answer a =>
    cases h with
    | @resting g hrest =>
      unfold wanted? at hrest
      cases hphase : g.phase <;> simp_all [outcome?, act, receive]
    | @underway g m asker p _ _ hphase hsize hp hpages =>
      have hasker : asker = o.asker := by
        cases a with
        | error reason =>
          obtain rfl : (⟨asker, .error reason⟩ : Outcome) = o := by
            simpa [outcome?, act, receive, hphase] using hend
          rfl
        | ok page =>
          rw [outcome?, act_answer hphase] at hend
          split at hend
          · cases hend
          · obtain rfl := Option.some.inj hend
            rfl
      exact ⟨a, p, rfl, hasker ▸ hphase, hsize, hp, hpages, rfl⟩

theorem Since.reconciled (h : Since start budget σ taken wanted changes) {e : Event}
    {asker : Asker} {s : PassSummary} (hend : σ.outcome? e = some ⟨asker, .ok s⟩) :
    Reconciled start budget (taken ++ (σ.page? e).toList) (wanted ++ (σ.asked? e).toList)
      (changes ++ (σ.growth.act σ.members e).2.2.1) s (σ.step e).members.hosts := by
  obtain ⟨a, p, rfl, hphase, hsize, hp, hpages, rfl⟩ := h.of_outcome hend
  unfold outcome? at hend
  cases a with
  | error reason => simp [act, receive, hphase] at hend
  | ok page =>
    have hover : ¬Pass.GoesOn start budget taken page := by
      intro hgo
      rw [(since_page hphase hsize hp hpages hgo).2.2] at hend
      cases hend
    obtain ⟨hmembers, htold, houtcome, hgrowth⟩ := act_last_page hphase hp hover
    rw [houtcome] at hend
    obtain rfl := Except.ok.inj (congrArg Outcome.result (Option.some.inj hend))
    have hpage : σ.page? (.answer (.ok page)) = some page := by simp [page?, wanted?, hphase]
    have hasked : σ.asked? (.answer (.ok page)) = none := by
      show (σ.growth.act σ.members _).1.wanted? = none
      rw [hgrowth]
      rfl
    rw [hpage, hasked, Option.toList_none, List.append_nil]
    exact ⟨hmembers, rfl, rfl, htold, taken, page, rfl, hpages, hover, rfl⟩

theorem Since.brokenOff (h : Since start budget σ taken wanted changes) {e : Event}
    {asker : Asker} {reason : PopulationError}
    (hend : σ.outcome? e = some ⟨asker, .error reason⟩) :
    BrokenOff start budget (taken ++ (σ.page? e).toList) (wanted ++ (σ.asked? e).toList)
      (changes ++ (σ.growth.act σ.members e).2.2.1) (σ.step e).members.hosts := by
  obtain ⟨a, p, rfl, hphase, hsize, hp, hpages, rfl⟩ := h.of_outcome hend
  cases a with
  | ok page =>
    unfold outcome? at hend
    rw [act_answer hphase] at hend
    split at hend <;> cases hend
  | error reason' =>
    have hact : σ.growth.act σ.members (.answer (.error reason')) =
        ({ σ.growth with phase := .idle }, σ.members, [], some ⟨asker, .error reason'⟩) := by
      simp [act, receive, hphase]
    have hasked : σ.asked? (.answer (.error reason')) = none := by
      show (σ.growth.act σ.members _).1.wanted? = none
      rw [hact]
      rfl
    unfold step
    rw [hasked, hact]
    simp only [page?, Option.toList_none, List.append_nil]
    exact ⟨hp.members, hp.joined, hpages, rfl⟩

/-! ## Whole passes -/

/-- What the record of a pass and its last event lead to is what the pass comes
to. -/
theorem EndsWith.of_last {es : List Event} {o : Outcome} (hend : σ.EndsWith es o)
    (h : Since start budget σ taken wanted changes)
    {P : List Page → List (Option String × Nat) → List Change → Site → Prop}
    (hlast : ∀ {τ e taken wanted changes}, Since start budget τ taken wanted changes →
      τ.outcome? e = some o →
      P (taken ++ (τ.page? e).toList) (wanted ++ (τ.asked? e).toList)
        (changes ++ (τ.growth.act τ.members e).2.2.1) (τ.step e)) :
    P (taken ++ σ.pages es) (wanted ++ σ.asked es) (changes ++ σ.changes es) (σ.run es) := by
  induction hend generalizing taken wanted changes with
  | last hends => simpa [pages, asked, Site.changes, run] using hlast h hends
  | more hnone hrest ih =>
    have hrun := ih (since_step h hnone) hlast
    rwa [List.append_assoc, List.append_assoc, List.append_assoc] at hrun

theorem EndsWith.reconciled {es : List Event} {asker : Asker} {s : PassSummary}
    (hend : σ.EndsWith es ⟨asker, .ok s⟩) (hidle : σ.growth.phase = .idle) :
    Reconciled σ.members σ.growth.leaseSize (σ.pages es) (σ.asked es) (σ.changes es) s
      (σ.run es).members.hosts :=
  hend.of_last (since_of_idle hidle) (P := fun taken wanted changes τ =>
    Reconciled σ.members σ.growth.leaseSize taken wanted changes s τ.members.hosts)
    fun h hlast => h.reconciled hlast

theorem EndsWith.brokenOff {es : List Event} {asker : Asker} {reason : PopulationError}
    (hend : σ.EndsWith es ⟨asker, .error reason⟩) (hidle : σ.growth.phase = .idle) :
    BrokenOff σ.members σ.growth.leaseSize (σ.pages es) (σ.asked es) (σ.changes es)
      (σ.run es).members.hosts :=
  hend.of_last (since_of_idle hidle) (P := fun taken wanted changes τ =>
    BrokenOff σ.members σ.growth.leaseSize taken wanted changes τ.members.hosts)
    fun h hlast => h.brokenOff hlast

/-- A pass fails with the error that the directory answers last. -/
theorem EndsWith.getLast?_of_error {es : List Event} {o : Outcome} (hend : σ.EndsWith es o)
    {reason : PopulationError} (ho : o.result = .error reason) :
    es.getLast? = some (.answer (.error reason)) := by
  induction hend with
  | @last σ e o hlast =>
    refine congrArg some ?_
    unfold outcome? act at hlast
    cases e with
    | request | close | next => cases hlast
    | answer a =>
      dsimp only at hlast
      unfold receive at hlast
      split at hlast
      · split at hlast
        · obtain rfl := Option.some.inj hlast
          cases ho
          rfl
        · split at hlast
          · cases hlast
          · obtain rfl := Option.some.inj hlast
            cases ho
      · cases hlast
  | more _ _ ih =>
    rw [List.getLast?_cons, ih ho]
    rfl

theorem EndsWith.mem_of_error {es : List Event} {o : Outcome} (hend : σ.EndsWith es o)
    {reason : PopulationError} (ho : o.result = .error reason) :
    .answer (.error reason) ∈ es :=
  List.mem_of_getLast? (hend.getLast?_of_error ho)

/-- A worker whose pass has ended is idle. -/
theorem Since.idle (h : Since start budget σ taken wanted changes) {e : Event} {o : Outcome}
    (hend : σ.outcome? e = some o) : (σ.step e).growth.phase = .idle := by
  obtain ⟨a, p, rfl, hphase, -⟩ := h.of_outcome hend
  cases a with
  | error reason => simp [step, act, receive, hphase]
  | ok page =>
    unfold outcome? at hend
    unfold step
    rw [act_answer hphase] at hend ⊢
    split at hend
    · cases hend
    · rfl

theorem EndsWith.idle {es : List Event} {o : Outcome} (hend : σ.EndsWith es o)
    (hidle : σ.growth.phase = .idle) : (σ.run es).growth.phase = .idle :=
  hend.of_last (since_of_idle hidle) (P := fun _ _ _ τ => τ.growth.phase = .idle)
    fun h hlast => h.idle hlast

end Site

end Growth

end Fleet
