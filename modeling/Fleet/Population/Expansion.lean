import Fleet.Population.Membership

/-!
# Expansion passes

A population can be filled from a host directory that answers in pages. One
*pass* over the directory lets new hosts join and, when it is over, lets those
members leave that it has not seen.

* **budget** — each new host costs one unit of the budget that the pass starts
  with; the pass ends after the first page at which the budget is used up or
  which names no page after it. The budget is looked at between pages only;
* **repetitions** — a host counts as new when it is not yet a member, so a
  host on several pages counts once;
* **failure** — a page that cannot be had ends the pass where it stands: what
  has joined stays, and nobody leaves.
-/

namespace Fleet

/-- What the directory answers: hosts, and the token of the next page if there
is one. -/
structure Page where
  hosts : List Host
  next : Option String
  deriving DecidableEq, Repr

/-- What a pass did to the membership. -/
structure PassSummary where
  added : Nat
  removed : Nat
  deriving DecidableEq, Repr, Inhabited

/-- A pass that waits for a page. -/
structure Pass where
  /-- The members at the start of the pass that no page has shown so far. -/
  unseen : List Host
  /-- How many more new hosts may join before the pass stops asking. -/
  budget : Nat
  added : Nat
  /-- The page that was asked for. -/
  token : Option String
  deriving DecidableEq, Repr

namespace Pass

/-- A pass over a membership with a budget. -/
def start (m : Membership) (budget : Nat) : Pass := ⟨m.hosts, budget, 0, none⟩

/-- Takes note of one host on a page. -/
def see (p : Pass) (m : Membership) (h : Host) : Pass × Membership × List Change :=
  if h ∈ p.unseen then ({ p with unseen := p.unseen.filter (· ≠ h) }, m, [])
  else
    match m.insert h with
    | (m, []) => (p, m, [])
    | (m, changes) => ({ p with added := p.added + 1, budget := p.budget - 1 }, m, changes)

/-- Takes note of the hosts on a page in order. -/
def seeAll (p : Pass) (m : Membership) : List Host → Pass × Membership × List Change
  | [] => (p, m, [])
  | h :: rest =>
    let (p, m, first) := p.see m h
    let (p, m, others) := p.seeAll m rest
    (p, m, first ++ others)

/-- Where a pass stands after a page. -/
inductive Progress
  | asking (pass : Pass)
  | over (summary : PassSummary)

/-- Takes a page: the pass asks for the next one, or is over once the unseen
members have left. -/
def receive (p : Pass) (m : Membership) (page : Page) : Progress × Membership × List Change :=
  let (p, m, joined) := p.seeAll m page.hosts
  if p.budget = 0 ∨ page.next = none then
    let (m, left) := m.removeAll p.unseen
    (.over ⟨p.added, left.length⟩, m, joined ++ left)
  else (.asking { p with token := page.next }, m, joined)

end Pass

end Fleet
