import Fleet.Proofs.Population.Changes

/-!
# Runs of an expanding population

What happens to an expanding population is that growth is requested, that it is
closed, that its worker takes up what is next, and that the directory answers.
A run is a list of such events in any order.

* **effects** — an event may change the members and may end a pass; `changes`
  and `outcomes` collect both over a run;
* **directories** — `Reads` says that all answers of a run are those of one
  directory, which answers a token with a page and does not fail;
* **a pass under way** — `Noted` is what a pass knows when it has seen some
  hosts: which are members now, which members it has not seen, how many joined
  and what is left of the budget.
-/

namespace Fleet

namespace Growth

/-- What can happen to an expanding population. -/
inductive Event
  | request (asker : Asker)
  | close
  -- an idle worker does what is next
  | next
  | answer (answer : Except PopulationError Page)

/-- An expanding population after an event, how its members changed, and the
pass that ended with it. -/
def act (g : Growth) (m : Membership) : Event → Growth × Membership × List Change × Option Outcome
  | .request asker => ((g.request? asker).getD g, m, [], none)
  | .close => (g.close, m, [], none)
  | .next => (if g.isReady then (g.next m).1 else g, m, [], none)
  | .answer a => g.receive m a

theorem carries_act (g : Growth) (m : Membership) (e : Event) :
    Change.Carries m.hosts (g.act m e).2.2.1 (g.act m e).2.1.hosts := by
  cases e with
  | answer a => exact g.carries_receive m a
  | request | close | next => exact .refl _

/-- An answer to what was asked for is the page that a directory has under the
token. -/
def Event.IsFrom (dir : Option String → Page) (wanted : Option (Option String × Nat)) :
    Event → Prop
  | .answer (.ok page) => ∀ w ∈ wanted.toList, page = dir w.1
  | .answer (.error _) => wanted = none
  | .request _ | .close | .next => True

instance (dir : Option String → Page) (wanted : Option (Option String × Nat)) (e : Event) :
    Decidable (e.IsFrom dir wanted) :=
  match e with
  | .answer (.ok page) => inferInstanceAs (Decidable (∀ w ∈ wanted.toList, page = dir w.1))
  | .answer (.error _) => inferInstanceAs (Decidable (wanted = none))
  | .request _ => isTrue trivial
  | .close => isTrue trivial
  | .next => isTrue trivial

/-- The worker of an expanding population with the members. -/
structure Site where
  growth : Growth
  members : Membership

namespace Site

/-- The population after an event. -/
def step (σ : Site) (e : Event) : Site :=
  ⟨(σ.growth.act σ.members e).1, (σ.growth.act σ.members e).2.1⟩

/-- The population after events in order. -/
def run (σ : Site) (es : List Event) : Site := es.foldl step σ

/-- How the members change over a run. -/
def changes (σ : Site) : List Event → List Change
  | [] => []
  | e :: es => (σ.growth.act σ.members e).2.2.1 ++ (σ.step e).changes es

/-- The passes that end over a run. -/
def outcomes (σ : Site) : List Event → List Outcome
  | [] => []
  | e :: es => (σ.growth.act σ.members e).2.2.2.toList ++ (σ.step e).outcomes es

/-- Every answer of a run is the one of a directory. -/
def Reads (dir : Option String → Page) (σ : Site) : List Event → Prop
  | [] => True
  | e :: es => e.IsFrom dir σ.growth.wanted? ∧ (σ.step e).Reads dir es

instance decidableReads (dir : Option String → Page) :
    (σ : Site) → (es : List Event) → Decidable (σ.Reads dir es)
  | _, [] => isTrue trivial
  | σ, e :: es =>
    have := decidableReads dir (σ.step e) es
    inferInstanceAs (Decidable (e.IsFrom dir σ.growth.wanted? ∧ (σ.step e).Reads dir es))

theorem run_append (σ : Site) (es fs : List Event) : σ.run (es ++ fs) = (σ.run es).run fs :=
  List.foldl_append

theorem changes_append (σ : Site) (es fs : List Event) :
    σ.changes (es ++ fs) = σ.changes es ++ (σ.run es).changes fs := by
  induction es generalizing σ with
  | nil => rfl
  | cons e rest ih =>
    show (σ.growth.act σ.members e).2.2.1 ++ (σ.step e).changes (rest ++ fs) = _
    rw [ih, ← List.append_assoc]
    rfl

theorem reads_append {dir : Option String → Page} {σ : Site} {es fs : List Event} :
    σ.Reads dir (es ++ fs) ↔ σ.Reads dir es ∧ (σ.run es).Reads dir fs := by
  induction es generalizing σ with
  | nil => exact ⟨fun h => ⟨trivial, h⟩, And.right⟩
  | cons e rest ih =>
    show _ ∧ (σ.step e).Reads dir (rest ++ fs) ↔ _
    rw [ih, ← and_assoc]
    rfl

theorem act_answer {σ : Site} {asker : Asker} {p : Pass}
    (hphase : σ.growth.phase = .asking asker p)
    (page : Page) :
    σ.growth.act σ.members (.answer (.ok page)) =
      match p.receive σ.members page with
      | (.asking pass, m, changes) =>
        ({ σ.growth with phase := .asking asker pass }, m, changes, none)
      | (.over summary, m, changes) =>
        ({ σ.growth with phase := .idle }, m, changes, some ⟨asker, .ok summary⟩) := by
  obtain ⟨⟨leaseSize, leaseSize_pos, queue, phase, closed⟩, m⟩ := σ
  obtain rfl : phase = .asking asker p := hphase
  rfl

end Site

/-- The pages that a directory leads to from a token, up to the one that names
no page after it. -/
inductive Chain (dir : Option String → Page) : Option String → List Page → Prop
  | last {token} (h : (dir token).next = none) : Chain dir token [dir token]
  | more {token next rest} (h : (dir token).next = some next) (hrest : Chain dir (some next) rest) :
      Chain dir token (dir token :: rest)

theorem Chain.cases {dir : Option String → Page} {token : Option String} {pages : List Page}
    (h : Chain dir token pages) :
    ∃ rest, pages = dir token :: rest ∧
      ((dir token).next = none ∧ rest = [] ∨
        (dir token).next ≠ none ∧ Chain dir (dir token).next rest) := by
  cases h with
  | last hnext => exact ⟨[], rfl, Or.inl ⟨hnext, rfl⟩⟩
  | more hnext hrest =>
    refine ⟨_, rfl, Or.inr ⟨by simp [hnext], ?_⟩⟩
    rw [hnext]
    exact hrest

end Growth

/-- The hosts on pages. -/
def hostsOn (pages : List Page) : List Host := pages.flatMap Page.hosts

theorem mem_hostsOn {pages : List Page} {q : Host} :
    q ∈ hostsOn pages ↔ ∃ page ∈ pages, q ∈ page.hosts := List.mem_flatMap

/-! ## Hosts seen by a pass -/

theorem distinctHosts_filter (keep : Host → Bool) (hosts : List Host) :
    distinctHosts (hosts.filter keep) = (distinctHosts hosts).filter keep := by
  induction hosts with
  | nil => rfl
  | cons a rest ih =>
    have hcomm : (distinctHosts (rest.filter keep)).filter (· ≠ a) =
        ((distinctHosts rest).filter (· ≠ a)).filter keep := by
      rw [ih, List.filter_filter, List.filter_filter]
      exact List.filter_congr fun q _ => Bool.and_comm ..
    cases ha : keep a with
    | true => rw [List.filter_cons_of_pos ha, distinctHosts, hcomm, distinctHosts,
        List.filter_cons_of_pos ha]
    | false =>
      -- the host is not kept, so it need not be kept from recurring
      have hkept : ((distinctHosts rest).filter keep).filter (· ≠ a) =
          (distinctHosts rest).filter keep :=
        List.filter_eq_self.mpr fun q hq => by
          have := (List.mem_filter.mp hq).2
          grind
      rw [List.filter_cons_of_neg (by simp [ha]), distinctHosts,
        List.filter_cons_of_neg (by simp [ha]), ← hcomm, ih, hkept]

/-- Of the later hosts those are added that are not among the earlier ones. -/
theorem distinctHosts_append (first later : List Host) :
    distinctHosts (first ++ later) =
      distinctHosts first ++ (distinctHosts later).filter fun q => q ∉ first := by
  induction first with
  | nil => exact (List.filter_eq_self.mpr (by simp)).symm
  | cons a rest ih =>
    rw [List.cons_append, distinctHosts, ih, List.filter_append, List.filter_filter, distinctHosts,
      List.cons_append]
    simp

namespace Pass

/-- The hosts that a pass over a membership has let join when it has seen some
hosts: the new ones, each where it first occurs. -/
def newcomers (m : Membership) (seen : List Host) : List Host :=
  (distinctHosts seen).filter fun q => q ∉ m.hosts

theorem newcomers_append (m : Membership) (seen hosts : List Host) :
    newcomers m (seen ++ hosts) = newcomers m seen ++ newcomers m (hosts.filter fun q => q ∉ seen) := by
  unfold newcomers
  rw [distinctHosts_append, distinctHosts_filter, List.filter_append]

theorem newcomers_append_of_mem {m : Membership} {seen : List Host} {h : Host}
    (hin : h ∈ m.hosts ∨ h ∈ seen) : newcomers m (seen ++ [h]) = newcomers m seen := by
  rw [newcomers_append]
  by_cases hseen : h ∈ seen
  · simp [newcomers, distinctHosts, hseen]
  · simp [newcomers, distinctHosts, hin.resolve_right hseen, hseen]

theorem newcomers_append_of_notMem {m : Membership} {seen : List Host} {h : Host}
    (hout : h ∉ m.hosts) (hseen : h ∉ seen) :
    newcomers m (seen ++ [h]) = newcomers m seen ++ [h] := by
  rw [newcomers_append]
  simp [newcomers, distinctHosts, hout, hseen]

theorem newcomers_eq_nil_iff {m : Membership} {seen : List Host} :
    newcomers m seen = [] ↔ ∀ q ∈ seen, q ∈ m.hosts := by
  unfold newcomers
  rw [List.filter_eq_nil_iff]
  simp [mem_distinctHosts]

/-- What a pass that began with a membership and a budget knows when it has seen
some hosts. -/
structure Noted (budget : Nat) (start : Membership) (seen : List Host) (p : Pass)
    (m : Membership) : Prop where
  members : ∀ q, q ∈ m.hosts ↔ q ∈ start.hosts ∨ q ∈ seen
  unseen : ∀ q, q ∈ p.unseen ↔ q ∈ start.hosts ∧ q ∉ seen
  added : p.added = (newcomers start seen).length
  budget : p.budget = budget - p.added

theorem noted_start (m : Membership) (budget : Nat) : Noted budget m [] (.start m budget) m where
  members := by simp
  unseen := by simp [start]
  added := rfl
  budget := rfl

namespace Noted

variable {budget : Nat} {start m : Membership} {seen : List Host} {p : Pass}

theorem see (hp : Noted budget start seen p m) (h : Host) :
    Noted budget start (seen ++ [h]) (p.see m h).1 (p.see m h).2.1 := by
  by_cases hin : h ∈ m.hosts
  · rw [see_of_mem hin]
    refine ⟨fun q => ?_, fun q => ?_, ?_, hp.budget⟩
    · have := hp.members h
      rw [hp.members q]
      grind
    · have := hp.unseen q
      simp only [List.mem_filter, List.mem_append]
      grind
    · rw [newcomers_append_of_mem ((hp.members h).mp hin)]
      exact hp.added
  · obtain ⟨hout, hseen⟩ := not_or.mp (mt (hp.members h).mpr hin)
    have hunseen : ∀ q ∈ p.unseen, q ∈ m.hosts := fun q hq =>
      (hp.members q).mpr (Or.inl ((hp.unseen q).mp hq).1)
    rw [see_of_notMem hunseen hin]
    refine ⟨fun q => ?_, fun q => ?_, ?_, ?_⟩
    · rw [Membership.mem_insert, hp.members q]
      grind
    · have := hp.unseen q
      grind
    · rw [newcomers_append_of_notMem hout hseen, List.length_append, ← hp.added]
      rfl
    · have := hp.budget
      show p.budget - 1 = budget - (p.added + 1)
      omega

theorem seeAll (hp : Noted budget start seen p m) (hosts : List Host) :
    Noted budget start (seen ++ hosts) (p.seeAll m hosts).1 (p.seeAll m hosts).2.1 := by
  induction hosts generalizing p m seen with
  | nil =>
    rw [List.append_nil]
    exact hp
  | cons h rest ih =>
    have hrest := ih (hp.see h)
    rw [List.append_assoc] at hrest
    exact hrest

/-- What a pass over the hosts of its own membership has seen costs nothing. -/
theorem added_eq_zero (hp : Noted budget start seen p m) (h : ∀ q ∈ seen, q ∈ start.hosts) :
    p.added = 0 := by
  rw [hp.added, newcomers_eq_nil_iff.mpr h]
  rfl

end Noted

theorem seeAll_of_mem {p : Pass} {m : Membership} {hosts : List Host}
    (h : ∀ q ∈ hosts, q ∈ m.hosts) : (p.seeAll m hosts).2 = (m, []) := by
  induction hosts generalizing p with
  | nil => rfl
  | cons q rest ih =>
    have hsee := see_of_mem (p := p) (h q List.mem_cons_self)
    have hrest := ih (p := (p.see m q).1) fun x hx => h x (List.mem_cons_of_mem _ hx)
    rw [hsee] at hrest
    simp only [seeAll, hsee, hrest]
    rfl

/-- A page at which the budget is used up, or which is the last one, ends the
pass: the members that no page has shown leave. -/
theorem receive_of_over {p : Pass} {m : Membership} {page : Page}
    (h : (p.seeAll m page.hosts).1.budget = 0 ∨ page.next = none) :
    p.receive m page =
      (.over ⟨(p.seeAll m page.hosts).1.added,
          ((p.seeAll m page.hosts).2.1.removeAll (p.seeAll m page.hosts).1.unseen).2.length⟩,
        ((p.seeAll m page.hosts).2.1.removeAll (p.seeAll m page.hosts).1.unseen).1,
        (p.seeAll m page.hosts).2.2 ++
          ((p.seeAll m page.hosts).2.1.removeAll (p.seeAll m page.hosts).1.unseen).2) := by
  unfold receive
  exact if_pos h

/-- After any other page the next one is asked for. -/
theorem receive_of_asking {p : Pass} {m : Membership} {page : Page}
    (h : ¬((p.seeAll m page.hosts).1.budget = 0 ∨ page.next = none)) :
    p.receive m page =
      (.asking { (p.seeAll m page.hosts).1 with token := page.next },
        (p.seeAll m page.hosts).2) := by
  unfold receive
  exact if_neg h

end Pass

end Fleet
