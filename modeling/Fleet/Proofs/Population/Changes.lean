import Fleet.Population.Growth

/-!
# Changes that carry one set of hosts to another

`Change.Carries before changes after` is what an observer may rely on: each
change is one for the set that the changes before it make of `before`, and all
of them together make `after` of it. Sets are compared by their elements, since
an observer cannot see in which order hosts joined.

* **composition** — `Carries.append`: what carries from `a` to `b` and what
  carries on to `c` carry from `a` to `c`;
* **operations** — every operation of a membership returns changes that carry
  the hosts before to the hosts after, and so does every page that an expansion
  pass takes (`Growth.carries_receive`).
-/

namespace Fleet

namespace Change

/-- A change is one for a set of hosts: who joins is not in it, who leaves is. -/
def Effective (hosts : List Host) : Change → Prop
  | added h => h ∉ hosts
  | removed h => h ∈ hosts

/-- Each change is one for the set that those before it make, and all of them
make another set. -/
structure Carries (before : List Host) (changes : List Change) (after : List Host) : Prop where
  effective : ∀ done c rest, changes = done ++ c :: rest → c.Effective (replay before done)
  reaches : ∀ q, q ∈ replay before changes ↔ q ∈ after

theorem mem_replayOne_added {hosts : List Host} {h q : Host} :
    q ∈ replayOne hosts (added h) ↔ q = h ∨ q ∈ hosts := by
  by_cases hin : h ∈ hosts
  · simp only [replayOne, if_pos hin]
    exact ⟨Or.inr, fun hq => hq.elim (fun heq => heq ▸ hin) id⟩
  · simp [replayOne, hin, or_comm]

theorem mem_replayOne_removed {hosts : List Host} {h q : Host} :
    q ∈ replayOne hosts (removed h) ↔ q ∈ hosts ∧ q ≠ h := by
  simp [replayOne]

theorem effective_congr {a b : List Host} (h : ∀ q, q ∈ a ↔ q ∈ b) (c : Change) :
    c.Effective a ↔ c.Effective b := by
  cases c <;> simp [Effective, h]

theorem mem_replay_congr {a b : List Host} (h : ∀ q, q ∈ a ↔ q ∈ b) (changes : List Change)
    (q : Host) : q ∈ replay a changes ↔ q ∈ replay b changes := by
  induction changes generalizing a b with
  | nil => exact h q
  | cons c rest ih =>
    refine ih fun x => ?_
    cases c with
    | added host => rw [mem_replayOne_added, mem_replayOne_added, h]
    | removed host => rw [mem_replayOne_removed, mem_replayOne_removed, h]

theorem replay_append (hosts : List Host) (cs ds : List Change) :
    replay hosts (cs ++ ds) = replay (replay hosts cs) ds := List.foldl_append

namespace Carries

variable {a b c : List Host} {cs ds : List Change}

theorem refl (a : List Host) : Carries a [] a :=
  ⟨fun _ _ _ h => absurd h (by simp), fun _ => Iff.rfl⟩

theorem single {c : Change} (hc : c.Effective a) (h : ∀ q, q ∈ replayOne a c ↔ q ∈ b) :
    Carries a [c] b := by
  refine ⟨fun done d rest heq => ?_, h⟩
  rcases List.singleton_eq_append_iff.mp heq with ⟨rfl, hd⟩ | ⟨-, hd⟩
  · obtain ⟨rfl, -⟩ := List.cons.inj hd
    exact hc
  · cases hd

theorem congr_right (h : Carries a cs b) (hbc : ∀ q, q ∈ b ↔ q ∈ c) : Carries a cs c :=
  ⟨h.effective, fun q => (h.reaches q).trans (hbc q)⟩

theorem append (h : Carries a cs b) (k : Carries b ds c) : Carries a (cs ++ ds) c := by
  refine ⟨fun done e rest heq => ?_, fun q => ?_⟩
  · -- the change is one of the first or of the second changes
    rcases List.append_eq_append_iff.mp heq with ⟨first, hdone, hds⟩ | ⟨last, hcs, hrest⟩
    · rw [hdone, replay_append]
      exact (effective_congr (mem_replay_congr h.reaches first) e).mpr
        (k.effective first e rest hds)
    · cases last with
      | nil =>
        rw [List.append_nil] at hcs
        rw [← hcs]
        exact (effective_congr h.reaches e).mpr (k.effective [] e rest hrest.symm)
      | cons d last =>
        obtain ⟨rfl, -⟩ := List.cons.inj hrest
        exact h.effective done e last hcs
  · rw [replay_append, mem_replay_congr h.reaches, k.reaches]

theorem cons {c' : Change} (hc : c'.Effective a) (h : Carries (replayOne a c') cs b) :
    Carries a (c' :: cs) b :=
  (single hc fun _ => Iff.rfl).append h

end Carries

/-- Hosts that leave one after the other. -/
theorem carries_removals {a : List Host} {hosts : List Host} (hin : ∀ h ∈ hosts, h ∈ a)
    (hnodup : hosts.Nodup) :
    Carries a (hosts.map removed) (a.filter fun q => q ∉ hosts) := by
  induction hosts generalizing a with
  | nil => exact (Carries.refl a).congr_right (by simp)
  | cons h rest ih =>
    obtain ⟨hnot, hnodup⟩ := List.nodup_cons.mp hnodup
    have hrest : ∀ q ∈ rest, q ∈ replayOne a (removed h) := by
      intro q hq
      rw [mem_replayOne_removed]
      exact ⟨hin q (List.mem_cons_of_mem _ hq), fun heq => hnot (heq ▸ hq)⟩
    have hfirst : (removed h).Effective a := hin h List.mem_cons_self
    have hstep := Carries.cons hfirst (ih hrest hnodup)
    refine hstep.congr_right fun q => ?_
    simp only [List.mem_filter, mem_replayOne_removed, List.mem_cons, decide_eq_true_eq]
    grind

/-- Hosts that join one after the other. -/
theorem carries_additions {a : List Host} {hosts : List Host} (hout : ∀ h ∈ hosts, h ∉ a)
    (hnodup : hosts.Nodup) : Carries a (hosts.map added) (a ++ hosts) := by
  induction hosts generalizing a with
  | nil => simpa using Carries.refl a
  | cons h rest ih =>
    obtain ⟨hnot, hnodup⟩ := List.nodup_cons.mp hnodup
    have hrest : ∀ q ∈ rest, q ∉ replayOne a (added h) := by
      intro q hq hin
      rcases mem_replayOne_added.mp hin with heq | hin
      · exact hnot (heq ▸ hq)
      · exact hout q (List.mem_cons_of_mem _ hq) hin
    have hfirst : (added h).Effective a := hout h List.mem_cons_self
    have hstep := Carries.cons hfirst (ih hrest hnodup)
    refine hstep.congr_right fun q => ?_
    simp only [List.mem_append, mem_replayOne_added, List.mem_cons]
    grind

end Change

open Change

/-! ## Memberships -/

namespace Membership

theorem carries_insert (m : Membership) (h : Host) :
    Carries m.hosts (m.insert h).2 (m.insert h).1.hosts := by
  unfold insert
  split
  · exact .refl _
  · next hout =>
    refine .single hout fun q => ?_
    simp [mem_replayOne_added, or_comm]

theorem carries_remove (m : Membership) (h : Host) :
    Carries m.hosts (m.remove h).2 (m.remove h).1.hosts := by
  unfold remove
  split
  · next hin => exact .single hin fun _ => Iff.rfl
  · exact .refl _

theorem carries_follow (m : Membership) (c : Change) :
    Carries m.hosts (m.follow c).2 (m.follow c).1.hosts := by
  cases c with
  | added h => exact m.carries_insert h
  | removed h => exact m.carries_remove h

theorem carries_reset (m : Membership) (hosts : List Host) :
    Carries m.hosts (m.reset hosts).2 (m.reset hosts).1.hosts := by
  let next := ofHosts hosts
  let gone := m.hosts.filter fun h => h ∉ next.hosts
  have hremoved : Carries m.hosts (gone.map removed) (m.hosts.filter fun q => q ∉ gone) :=
    carries_removals (fun h hh => (List.mem_filter.mp hh).1) (m.nodup.filter _)
  have hout : ∀ h ∈ next.hosts.filter (fun h => h ∉ m.hosts),
      h ∉ m.hosts.filter fun q => q ∉ gone := by
    intro h hh hin
    simp only [List.mem_filter, decide_eq_true_eq] at hh hin
    exact hh.2 hin.1
  refine (hremoved.append (carries_additions hout (next.nodup.filter _))).congr_right fun q => ?_
  show _ ↔ q ∈ next.hosts
  simp only [gone, List.mem_append, List.mem_filter, decide_eq_true_eq]
  grind

theorem carries_removeAll (m : Membership) (hosts : List Host) :
    Carries m.hosts (m.removeAll hosts).2 (m.removeAll hosts).1.hosts := by
  induction hosts generalizing m with
  | nil => exact .refl _
  | cons h rest ih => exact (m.carries_remove h).append (ih (m.remove h).1)

theorem mem_insertAll {m : Membership} {hosts : List Host} {q : Host} :
    q ∈ (m.insertAll hosts).1.hosts ↔ q ∈ hosts ∨ q ∈ m.hosts := by
  induction hosts generalizing m with
  | nil => simp [insertAll]
  | cons h rest ih =>
    show q ∈ ((m.insert h).1.insertAll rest).1.hosts ↔ _
    rw [ih, mem_insert, List.mem_cons, or_left_comm, or_assoc]

theorem mem_removeAll {m : Membership} {hosts : List Host} {q : Host} :
    q ∈ (m.removeAll hosts).1.hosts ↔ q ∈ m.hosts ∧ q ∉ hosts := by
  induction hosts generalizing m with
  | nil => simp [removeAll]
  | cons h rest ih =>
    show q ∈ ((m.remove h).1.removeAll rest).1.hosts ↔ _
    rw [ih, mem_remove, List.mem_cons]
    grind

theorem insert_of_mem {m : Membership} {h : Host} (hin : h ∈ m.hosts) : m.insert h = (m, []) := by
  unfold insert
  rw [dif_pos hin]

theorem snd_insert_of_notMem {m : Membership} {h : Host} (hout : h ∉ m.hosts) :
    (m.insert h).2 = [.added h] := by
  unfold insert
  rw [dif_neg hout]

end Membership

/-! ## Passes -/

namespace Pass

/-- A host on a page that is new joins and costs one unit of the budget; one
that is not is only noted. -/
theorem see_of_notMem {p : Pass} {m : Membership} {h : Host} (hunseen : ∀ q ∈ p.unseen, q ∈ m.hosts)
    (hout : h ∉ m.hosts) :
    p.see m h =
      ({ p with added := p.added + 1, budget := p.budget - 1 }, (m.insert h).1, [.added h]) := by
  have hjoins := Membership.snd_insert_of_notMem hout
  unfold see
  rw [if_neg fun hin => hout (hunseen h hin)]
  -- the insertion made a change, so it is not the silent branch
  split
  · next heq =>
    rw [heq] at hjoins
    cases hjoins
  · next m' changes _ heq =>
    rw [heq] at hjoins ⊢
    obtain rfl : changes = [.added h] := hjoins
    rfl

theorem see_of_mem {p : Pass} {m : Membership} {h : Host} (hin : h ∈ m.hosts) :
    p.see m h = ({ p with unseen := p.unseen.filter (· ≠ h) }, m, []) := by
  unfold see
  split
  · rfl
  · next hnot =>
    have hsame : p.unseen.filter (· ≠ h) = p.unseen := by
      rw [List.filter_eq_self]
      intro q hq
      simpa using fun heq : q = h => hnot (heq ▸ hq)
    rw [Membership.insert_of_mem hin, hsame]

theorem carries_see (p : Pass) (m : Membership) (h : Host) :
    Carries m.hosts (p.see m h).2.2 (p.see m h).2.1.hosts := by
  have hinsert := m.carries_insert h
  unfold see
  split
  · exact .refl _
  · split
    · next heq =>
      rw [heq] at hinsert
      exact hinsert
    · next heq =>
      rw [heq] at hinsert
      exact hinsert

theorem carries_seeAll (p : Pass) (m : Membership) (hosts : List Host) :
    Carries m.hosts (p.seeAll m hosts).2.2 (p.seeAll m hosts).2.1.hosts := by
  induction hosts generalizing p m with
  | nil => exact .refl _
  | cons h rest ih => exact (p.carries_see m h).append (ih _ _)

theorem carries_receive (p : Pass) (m : Membership) (page : Page) :
    Carries m.hosts (p.receive m page).2.2 (p.receive m page).2.1.hosts := by
  have hjoined := p.carries_seeAll m page.hosts
  unfold receive
  dsimp only
  split
  · exact hjoined.append (Membership.carries_removeAll _ _)
  · exact hjoined

end Pass

theorem Growth.carries_receive (g : Growth) (m : Membership)
    (answer : Except PopulationError Page) :
    Carries m.hosts (g.receive m answer).2.2.1 (g.receive m answer).2.1.hosts := by
  unfold receive
  split
  · next asker pass _ =>
    split
    · exact .refl _
    · next page =>
      have hpage := pass.carries_receive m page
      split
      · next heq =>
        rw [heq] at hpage
        exact hpage
      · next heq =>
        rw [heq] at hpage
        exact hpage
  · exact .refl _

end Fleet
