import Fleet.Proofs.Population.Reconciliation
import Fleet.Proofs.Population.Sites

/-!
# What a pass comes to

A pass that is completed leaves exactly the hosts that it saw, counts them
right, and tells every listener once of each host that joins or leaves; it asks
for the pages of a directory one after the other and stops where it must
(`pass_reconciles`).

A pass that fails does not take back what the earlier pages brought. The members
are as they were, and nobody has been told of anything, exactly if these pages
showed members only (`failed_pass_unchanged_iff`). In any case the next request
is served.
-/

namespace Fleet.Network

open Growth.Site

variable {n number : Nat} {l : Listener} {φ : Growth.Site}

/-- A pass that does not fail reconciles the members with the pages that it took:
they are the hosts on these pages; each new one joined, where it first occurs,
then each old one that is on no page left, and nobody else is told of. The pages
were asked for from the first on, by the lease size, each under the token that
the one before it names; and a page was the last one exactly if it names no page
after it or as many hosts as the lease size had joined by then. -/
theorem pass_reconciles (es₀ es : List Event) {o : Growth.Outcome}
    (hφ : (run {} es₀).site? n = some φ) (hidle : φ.growth.phase = .idle)
    (hpass : φ.EndsWith (growthAt n es) o)
    (hworks : ∀ reason, .answer (.error reason) ∉ growthAt n es)
    (hlistens : (run {} es₀).Attached n number l.subscriber)
    (hspares : ∀ e ∈ es, e.Spares n number l) :
    let σ := run {} es₀
    let start := σ.members n
    let pages := φ.pages (growthAt n es)
    let new := Pass.newcomers start (hostsOn pages)
    let gone := start.hosts.filter fun q => q ∉ hostsOn pages
    o.result = .ok ⟨new.length, gone.length⟩ ∧
    (∀ q, q ∈ ((σ.run es).members n).hosts ↔ q ∈ hostsOn pages) ∧
    told l.subscriber (σ.sent es) = new.map .added ++ gone.map .removed ∧
    pages ≠ [] ∧
    φ.asked (growthAt n es) =
      (none :: pages.dropLast.map Page.next).map (·, φ.growth.leaseSize) ∧
    ∀ before page after, pages = before ++ page :: after →
      (after = [] ↔ page.next = none ∨
        φ.growth.leaseSize ≤ (Pass.newcomers start (hostsOn (before ++ [page]))).length) := by
  intro σ start pages new gone
  obtain ⟨hsite, htold⟩ := site_run_later hlistens hφ hspares
  have hstart : start = φ.members := (site?_eq_some.mp hφ).2
  obtain ⟨asker, result⟩ := o
  cases result with
  | error reason => exact absurd (hpass.mem_of_error rfl) (hworks reason)
  | ok s =>
    have h := hpass.reconciled hidle
    rw [← hstart] at h
    obtain ⟨before, last, hpages, hgo, hlast, hasked⟩ := h.pages
    have hpages : pages = before ++ [last] := hpages
    refine ⟨?_, fun q => ?_, htold.trans h.told, by simp [hpages], ?_, fun first page after heq => ?_⟩
    · show Except.ok s = _
      rw [show s = ⟨s.added, s.removed⟩ from rfl, h.added, h.removed]
    · rw [(site?_eq_some.mp hsite).2]
      exact h.members q
    · rw [hasked, hpages, List.dropLast_concat]
    · rw [← Pass.not_goesOn_iff]
      exact hgo.last_iff hlast (hpages ▸ heq)

/-- A population of two members, one of which its directory has dropped, reads
two pages that repeat a member and a new host; with the first page one host has
joined of two that may, with the second one three. -/
theorem pass_reconciles_two_pages :
    let host (n : String) : Host := .conventional n
    let es₁ : List Event := [.addExpanding 2, .grow 0 (.request none), .grow 0 .next,
      .grow 0 (.answer (.ok ⟨[host "z", host "a"], none⟩))]
    let es₀ := es₁ ++ [.subscribe 0 (.log 0)]
    let pages : List Page :=
      [⟨[host "a", host "b", host "a"], some "2"⟩, ⟨[host "b", host "c", host "d"], none⟩]
    let es : List Event := [.grow 0 (.request (some 7)), .grow 0 .next, .addLayered [] 0,
      .grow 0 (.answer (.ok pages[0])), .grow 0 .close, .insert 1 (host "e"),
      .grow 0 (.answer (.ok pages[1]))]
    let σ := run {} es₀
    let φ : Growth.Site := ⟨.ofLeaseSize 2, .ofHosts [host "z", host "a"]⟩
    (σ.site? 0 = some φ ∧ φ.growth.phase = .idle ∧
      φ.EndsWith (growthAt 0 es) ⟨some 7, .ok ⟨3, 1⟩⟩ ∧
      (∀ reason, .answer (.error reason) ∉ growthAt 0 es) ∧
      σ.Attached 0 0 (.log 0) ∧ ∀ e ∈ es, e.Spares 0 0 (.log 0)) ∧
    φ.pages (growthAt 0 es) = pages ∧
    (∀ q, q ∈ ((σ.run es).members 0).hosts ↔ q ∈ hostsOn pages) ∧
    told (.log 0) (σ.sent es) =
      [.added (host "b"), .added (host "c"), .added (host "d"), .removed (host "z")] ∧
    φ.asked (growthAt 0 es) = [(none, 2), (some "2", 2)] := by
  intro host es₁ es₀ pages es σ φ
  have hφ : σ.site? 0 = some φ := site?_eq_some.mpr ⟨rfl, by decide +kernel⟩
  have hpass : φ.EndsWith (growthAt 0 es) ⟨some 7, .ok ⟨3, 1⟩⟩ :=
    .more rfl (.more rfl (.more rfl (.more rfl (.last rfl))))
  have hworks : ∀ reason, .answer (.error reason) ∉ growthAt 0 es := by
    simp [growthAt, es, Event.growthAt?]
  have hlistens : σ.Attached 0 0 (.log 0) :=
    attached_subscribe (σ := run {} es₁) (by decide +kernel)
      (subscriptions_of_fresh (l := .log 0) (by simp [es₁]))
  have hspares : ∀ e ∈ es, e.Spares 0 0 (.log 0) := by decide +kernel
  have hpages : φ.pages (growthAt 0 es) = pages := by decide +kernel
  obtain ⟨-, hmembers, htold, -, hasked, -⟩ :=
    pass_reconciles es₀ es hφ rfl hpass hworks hlistens hspares
  rw [hpages] at hmembers htold hasked
  exact ⟨⟨hφ, rfl, hpass, hworks, hlistens, hspares⟩, hpages, hmembers,
    htold.trans (by decide +kernel), hasked⟩

/-- A pass that fails leaves the members as they were exactly if the pages before
the failure showed members only, and exactly then nobody is told of anything.
Otherwise the new hosts on these pages have joined, and stay. The worker goes on
to serve. -/
theorem failed_pass_unchanged_iff (es₀ es : List Event) {asker : Asker} {reason : PopulationError}
    (hφ : (run {} es₀).site? n = some φ) (hidle : φ.growth.phase = .idle)
    (hfails : φ.EndsWith (growthAt n es) ⟨asker, .error reason⟩)
    (hlistens : (run {} es₀).Attached n number l.subscriber)
    (hspares : ∀ e ∈ es, e.Spares n number l) :
    let σ := run {} es₀
    let start := σ.members n
    let seen := hostsOn (φ.pages (growthAt n es))
    ((∀ q, q ∈ ((σ.run es).members n).hosts ↔ q ∈ start.hosts) ↔ ∀ q ∈ seen, q ∈ start.hosts) ∧
    (told l.subscriber (σ.sent es) = [] ↔ ∀ q ∈ seen, q ∈ start.hosts) ∧
    (∀ q, q ∈ ((σ.run es).members n).hosts ↔ q ∈ start.hosts ∨ q ∈ seen) ∧
    told l.subscriber (σ.sent es) = (Pass.newcomers start seen).map .added ∧
    ∃ ψ, (σ.run es).site? n = some ψ ∧ ψ.Serves := by
  intro σ start seen
  obtain ⟨hsite, htold⟩ := site_run_later hlistens hφ hspares
  have hstart : start = φ.members := (site?_eq_some.mp hφ).2
  have h := hfails.brokenOff hidle
  rw [← hstart] at h
  have hmembers : ∀ q, q ∈ ((σ.run es).members n).hosts ↔ q ∈ start.hosts ∨ q ∈ seen := by
    rw [(site?_eq_some.mp hsite).2]
    exact h.members
  have htold : told l.subscriber (σ.sent es) = (Pass.newcomers start seen).map .added :=
    htold.trans h.told
  refine ⟨?_, ?_, hmembers, htold, _, hsite, serves_of_idle (hfails.idle hidle)⟩
  · simp only [hmembers, or_iff_left_iff_imp]
  · rw [htold, List.map_eq_nil_iff, Pass.newcomers_eq_nil_iff]

/-- A pass that sees its members again before the directory fails. -/
theorem failed_pass_unchanged_members_seen :
    let host (n : String) : Host := .conventional n
    let es₁ : List Event := [.addExpanding 2, .grow 0 (.request none), .grow 0 .next,
      .grow 0 (.answer (.ok ⟨[host "a", host "b"], none⟩))]
    let es₀ := es₁ ++ [.subscribe 0 (.log 0)]
    let es : List Event := [.grow 0 (.request (some 7)), .grow 0 .next,
      .grow 0 (.answer (.ok ⟨[host "b", host "b"], some "2"⟩)), .grow 0 (.request none),
      .grow 0 (.answer (.error (.expansion "down")))]
    let σ := run {} es₀
    let φ : Growth.Site := ⟨.ofLeaseSize 2, .ofHosts [host "a", host "b"]⟩
    (σ.site? 0 = some φ ∧ φ.growth.phase = .idle ∧
      φ.EndsWith (growthAt 0 es) ⟨some 7, .error (.expansion "down")⟩ ∧
      σ.Attached 0 0 (.log 0) ∧ ∀ e ∈ es, e.Spares 0 0 (.log 0)) ∧
    (∀ q, q ∈ ((σ.run es).members 0).hosts ↔ q ∈ (σ.members 0).hosts) ∧
    told (.log 0) (σ.sent es) = [] ∧
    ∃ ψ, (σ.run es).site? 0 = some ψ ∧ ψ.Serves := by
  intro host es₁ es₀ es σ φ
  have hφ : σ.site? 0 = some φ := site?_eq_some.mpr ⟨rfl, by decide +kernel⟩
  have hfails : φ.EndsWith (growthAt 0 es) ⟨some 7, .error (.expansion "down")⟩ :=
    .more rfl (.more rfl (.more rfl (.more rfl (.last rfl))))
  have hlistens : σ.Attached 0 0 (.log 0) :=
    attached_subscribe (σ := run {} es₁) (by decide +kernel)
      (subscriptions_of_fresh (l := .log 0) (by simp [es₁]))
  have hspares : ∀ e ∈ es, e.Spares 0 0 (.log 0) := by decide +kernel
  obtain ⟨hsame, hquiet, -, -, hserves⟩ :=
    failed_pass_unchanged_iff es₀ es hφ rfl hfails hlistens hspares
  have hseen : ∀ q ∈ hostsOn (φ.pages (growthAt 0 es)), q ∈ (σ.members 0).hosts := by
    decide +kernel
  exact ⟨⟨hφ, rfl, hfails, hlistens, hspares⟩, hsame.mpr hseen, hquiet.mpr hseen, hserves⟩

/-- The first page of a pass brings a host, and the second one cannot be had: the
caller is answered with the error, and the host stays. -/
theorem failed_pass_adds :
    let host : Host := .conventional "a"
    let σ := run {} [.addExpanding 2, .subscribe 0 (.log 0)]
    let es : List Event := [.grow 0 (.request (some 7)), .grow 0 .next,
      .grow 0 (.answer (.ok ⟨[host], some "2"⟩)), .grow 0 (.answer (.error (.expansion "down")))]
    let φ : Growth.Site := ⟨.ofLeaseSize 2, .empty⟩
    (σ.site? 0 = some φ ∧ φ.growth.phase = .idle ∧
      φ.EndsWith (growthAt 0 es) ⟨some 7, .error (.expansion "down")⟩) ∧
    (σ.members 0).hosts = [] ∧ ((σ.run es).members 0).hosts = [host] ∧
    told (.log 0) (σ.sent es) = [.added host] := by
  intro host σ es φ
  refine ⟨⟨site?_eq_some.mpr ⟨rfl, by decide +kernel⟩, rfl, ?_⟩, ?_⟩
  · exact .more rfl (.more rfl (.more rfl (.last rfl)))
  · decide +kernel

end Fleet.Network
