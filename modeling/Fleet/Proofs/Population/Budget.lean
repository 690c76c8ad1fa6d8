import Fleet.Proofs.Population.Reconciliation

/-!
# How many hosts join in a pass

A pass looks at its budget between pages only. Up to its last page fewer hosts
than the lease size have joined; the last page may hold a whole lease size of new
ones. So a pass over pages of at most the lease size adds fewer than twice that
many hosts, and it keeps to the lease size exactly if its last page brings no
more new hosts than the budget has left (`additions_le_iff`). Every pass that
adds more than the lease size does so with its last page, and the bound is
attained (`additions_attained`).
-/

namespace Fleet

/-- How many of the changes are hosts that join. -/
def Change.additions (changes : List Change) : Nat := changes.countP fun c => !c.isRemoval

theorem length_distinctHosts_le (hosts : List Host) :
    (distinctHosts hosts).length ≤ hosts.length := by
  induction hosts with
  | nil => exact Nat.le_refl 0
  | cons h rest ih =>
    have hfilter := List.length_filter_le (· ≠ h) (distinctHosts rest)
    simp only [distinctHosts, List.length_cons]
    omega

theorem distinctHosts_of_nodup {hosts : List Host} (h : hosts.Nodup) :
    distinctHosts hosts = hosts := by
  induction hosts with
  | nil => rfl
  | cons q rest ih =>
    obtain ⟨hq, hrest⟩ := List.nodup_cons.mp h
    rw [distinctHosts, ih hrest, List.filter_eq_self.mpr]
    exact fun x hx => decide_eq_true fun heq => hq (heq ▸ hx)

namespace Pass

variable {start : Membership} {budget : Nat}

/-- The hosts that join with a page: the new ones that are on no page before. -/
def joiners (start : Membership) (before : List Page) (page : Page) : List Host :=
  newcomers start (page.hosts.filter fun q => q ∉ hostsOn before)

theorem newcomers_snoc (start : Membership) (before : List Page) (page : Page) :
    newcomers start (hostsOn (before ++ [page])) =
      newcomers start (hostsOn before) ++ joiners start before page := by
  rw [hostsOn_snoc, newcomers_append]
  rfl

theorem length_joiners_le (start : Membership) (before : List Page) (page : Page) :
    (joiners start before page).length ≤ page.hosts.length :=
  calc (joiners start before page).length
      ≤ (distinctHosts (page.hosts.filter fun q => q ∉ hostsOn before)).length :=
        List.length_filter_le ..
    _ ≤ (page.hosts.filter fun q => q ∉ hostsOn before).length := length_distinctHosts_le _
    _ ≤ page.hosts.length := List.length_filter_le ..

theorem AllGoOn.of_snoc {before : List Page} {page : Page}
    (h : AllGoOn start budget (before ++ [page])) : AllGoOn start budget before := by
  intro first q after heq
  exact h first q (after ++ [page]) (by simp [heq])

end Pass

namespace Growth.Site

open Change

variable {σ : Site} {es : List Event} {o : Outcome}

/-- The hosts that join in a pass are the new ones on its pages, however it
ends. -/
theorem EndsWith.additions_eq (hends : σ.EndsWith es o) (hidle : σ.growth.phase = .idle) :
    additions (σ.changes es) = (Pass.newcomers σ.members (hostsOn (σ.pages es))).length := by
  obtain ⟨asker, result⟩ := o
  cases result with
  | ok s =>
    rw [(hends.reconciled hidle).told]
    simp [additions, Change.isRemoval, List.countP_map, Function.comp_def]
  | error reason =>
    rw [(hends.brokenOff hidle).told]
    simp [additions, Change.isRemoval, List.countP_map, Function.comp_def]

/-- Before the last page of a pass its budget is not used up. -/
theorem EndsWith.lt_before_last (hends : σ.EndsWith es o) (hidle : σ.growth.phase = .idle)
    {before : List Page} {last : Page} (heq : σ.pages es = before ++ [last]) :
    (Pass.newcomers σ.members (hostsOn before)).length < σ.growth.leaseSize := by
  have hgo : Pass.AllGoOn σ.members σ.growth.leaseSize before := by
    obtain ⟨asker, result⟩ := o
    cases result with
    | ok s =>
      obtain ⟨before', last', hpages, hgo, -⟩ := (hends.reconciled hidle).pages
      obtain ⟨rfl, -⟩ := List.append_inj' (heq.symm.trans hpages) rfl
      exact hgo
    | error reason => exact (heq ▸ (hends.brokenOff hidle).pages).of_snoc
  exact hgo.lt σ.growth.leaseSize_pos

/-- A pass over pages of at most the lease size adds fewer than twice as many
hosts; it adds at most the lease size exactly if its last page brings no more new
hosts than the budget has left. -/
theorem additions_le_iff (hidle : σ.growth.phase = .idle) (hends : σ.EndsWith es o)
    (hsizes : ∀ page ∈ σ.pages es, page.hosts.length ≤ σ.growth.leaseSize) :
    let budget := σ.growth.leaseSize
    let added := additions (σ.changes es)
    (∀ s, o.result = .ok s → s.added = added) ∧ added < 2 * budget ∧
    (added ≤ budget ↔ ∀ before last, σ.pages es = before ++ [last] →
      (Pass.joiners σ.members before last).length ≤
        budget - (Pass.newcomers σ.members (hostsOn before)).length) := by
  intro budget added
  have hadded : added = (Pass.newcomers σ.members (hostsOn (σ.pages es))).length :=
    hends.additions_eq hidle
  have hpos : 0 < budget := σ.growth.leaseSize_pos
  refine ⟨fun s hs => ?_, ?_⟩
  · obtain ⟨asker, result⟩ := o
    obtain rfl : result = .ok s := hs
    rw [hadded, (hends.reconciled hidle).added]
  · rcases List.eq_nil_or_concat (σ.pages es) with hnil | ⟨before, last, heq⟩
    · have hzero : added = 0 := by simp [hadded, hnil, hostsOn, Pass.newcomers, distinctHosts]
      exact ⟨by omega, by simp [hnil, hzero]⟩
    · rw [List.concat_eq_append] at heq
      have hbefore := hends.lt_before_last hidle heq
      have hlast := Pass.length_joiners_le σ.members before last
      have hsize := hsizes last (by simp [heq])
      have hsplit : added = (Pass.newcomers σ.members (hostsOn before)).length +
          (Pass.joiners σ.members before last).length := by
        rw [hadded, heq, Pass.newcomers_snoc, List.length_append]
      refine ⟨by omega, fun hle first page hpages => ?_, fun h => ?_⟩
      · obtain ⟨rfl, hpage⟩ := List.append_inj' (heq.symm.trans hpages) rfl
        obtain rfl := List.singleton_inj.mp hpage
        omega
      · have := h before last heq
        omega

/-- A pass over two full pages, half of each already members. -/
theorem additions_le_mixed_pages :
    let host (n : String) : Host := .conventional n
    let σ : Site := ⟨.ofLeaseSize 2, .ofHosts [host "a", host "b"]⟩
    let pages : List Page := [⟨[host "a", host "c"], some "2"⟩, ⟨[host "d", host "b"], none⟩]
    let es : List Event := [.request (some 7), .next, .answer (.ok pages[0]), .request none,
      .answer (.ok pages[1])]
    (σ.growth.phase = .idle ∧ σ.EndsWith es ⟨some 7, .ok ⟨2, 0⟩⟩ ∧
      ∀ page ∈ σ.pages es, page.hosts.length ≤ σ.growth.leaseSize) ∧
    σ.pages es = pages ∧ additions (σ.changes es) ≤ 2 := by
  intro host σ pages es
  have hends : σ.EndsWith es ⟨some 7, .ok ⟨2, 0⟩⟩ :=
    .more rfl (.more rfl (.more rfl (.more rfl (.last rfl))))
  have hpages : σ.pages es = pages := by decide +kernel
  have hsizes : ∀ page ∈ σ.pages es, page.hosts.length ≤ σ.growth.leaseSize := by
    rw [hpages]
    decide +kernel
  obtain ⟨-, -, hkeeps⟩ := additions_le_iff rfl hends hsizes
  refine ⟨⟨rfl, hends, hsizes⟩, hpages, hkeeps.mpr fun before last heq => ?_⟩
  obtain ⟨rfl, hlast⟩ := List.append_inj'
    (show [pages[0]] ++ [pages[1]] = before ++ [last] from hpages.symm.trans heq) rfl
  obtain rfl := List.singleton_inj.mp hlast
  decide +kernel

/-- One new host on the first page leaves room for one more; the second page
brings two. -/
theorem additions_exceed_lease_size :
    let host (n : String) : Host := .conventional n
    let σ : Site := ⟨.ofLeaseSize 2, .empty⟩
    let pages : List Page := [⟨[host "a"], some "2"⟩, ⟨[host "b", host "c"], none⟩]
    let es : List Event :=
      [.request (some 7), .next, .answer (.ok pages[0]), .answer (.ok pages[1])]
    (σ.growth.phase = .idle ∧ σ.EndsWith es ⟨some 7, .ok ⟨3, 0⟩⟩) ∧
    σ.growth.leaseSize = 2 ∧ σ.pages es = pages ∧ (∀ page ∈ pages, page.hosts.length ≤ 2) ∧
    additions (σ.changes es) = 3 := by
  intro host σ pages es
  exact ⟨⟨rfl, .more rfl (.more rfl (.more rfl (.last rfl)))⟩, by decide +kernel⟩

/-- For every lease size a pass over pages of at most that size may add one host
less than twice as many: all but one of them with the first page are not enough
to end it, and the second page is full. -/
theorem additions_attained {budget : Nat} (hpos : 0 < budget) {hosts : List Host}
    (hnodup : hosts.Nodup) (hlength : hosts.length + 1 = 2 * budget) :
    let σ : Site := ⟨.ofLeaseSize budget, .empty⟩
    ∃ es o, σ.EndsWith es o ∧
      (∀ page ∈ σ.pages es, page.hosts.length ≤ σ.growth.leaseSize) ∧
      additions (σ.changes es) = hosts.length := by
  intro σ
  let first : Page := ⟨hosts.take (budget - 1), some ""⟩
  let last : Page := ⟨hosts.drop (budget - 1), none⟩
  have hsize : σ.growth.leaseSize = budget := Nat.max_eq_left hpos
  -- the pass has begun, and waits for its first page
  let p := Pass.start .empty σ.growth.leaseSize
  let τ : Site := ⟨{ σ.growth with phase := .asking none p }, .empty⟩
  have hgo : Pass.GoesOn .empty σ.growth.leaseSize [] first := by
    refine ⟨nofun, ?_⟩
    have hjoin := Pass.length_joiners_le .empty [] first
    have htake : first.hosts.length ≤ budget - 1 := List.length_take_le ..
    rw [Pass.newcomers_snoc, List.length_append, hsize]
    show 0 + _ < budget
    omega
  have hp : Pass.Recorded σ.growth.leaseSize .empty (hostsOn []) p τ.members [] :=
    Pass.recorded_start ..
  obtain ⟨hsince, hwanted, hnone⟩ := since_page (σ := τ) rfl rfl hp (by simp [Pass.AllGoOn]) hgo
  let υ := τ.step (.answer (.ok first))
  have hpage : υ.page? (.answer (.ok last)) = some last := by
    show υ.growth.wanted?.map _ = _
    rw [show υ.growth.wanted? = _ from hwanted]
    rfl
  cases hover : υ.outcome? (.answer (.ok last)) with
  | none =>
    -- then the pass would have gone on after the last page
    have hall := (since_step (σ := υ) hsince hover).allGoOn
    rw [hpage] at hall
    exact absurd rfl (hall [first] last [] rfl).1
  | some o =>
    let es : List Event := [.request none, .next, .answer (.ok first), .answer (.ok last)]
    have hends : σ.EndsWith es o := .more rfl (.more rfl (.more hnone (.last hover)))
    have hpages : σ.pages es = [first, last] := by
      show [] ++ ([] ++ ([first] ++ ((υ.page? (.answer (.ok last))).toList ++ []))) = _
      rw [hpage]
      rfl
    refine ⟨es, o, hends, ?_, ?_⟩
    · rw [hpages, hsize]
      simp only [List.mem_cons, List.not_mem_nil, or_false, forall_eq_or_imp, forall_eq, first,
        last, List.length_take, List.length_drop]
      omega
    · have hon : hostsOn [first, last] = hosts := by simp [hostsOn, first, last]
      rw [hends.additions_eq rfl, hpages, hon]
      show (Pass.newcomers .empty hosts).length = _
      simp [Pass.newcomers, distinctHosts_of_nodup hnodup, Membership.empty]

end Growth.Site

end Fleet
