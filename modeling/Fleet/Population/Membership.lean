import Fleet.Host

/-!
# Memberships and changes

A membership is a set of hosts, kept in the order in which they joined. Every
operation returns the changes it made, and nothing else counts as a change:

* **insertion and removal** — one change, or none when the host was already
  there or already gone;
* **reset** — first a removal for each host that is not to stay, then an
  addition for each host that is new;
* **following** — a membership that follows another applies that one's changes
  and passes on those that changed itself.

`Change.replay` is the other way to look at changes: applied in order to the
hosts before, they give the hosts after.
-/

namespace Fleet

/-- A host has joined or left. -/
inductive Change
  | added (host : Host)
  | removed (host : Host)
  deriving DecidableEq, Repr

namespace Change

/-- The host that joined or left. -/
def host : Change → Host
  | added h => h
  | removed h => h

/-- Whether the host left. -/
def isRemoval : Change → Bool
  | added _ => false
  | removed _ => true

/-- A change as it is written in a log. -/
def label : Change → String
  | added h => "+" ++ h.label
  | removed h => "-" ++ h.label

/-- The hosts after one change, as an observer keeps them. -/
def replayOne (hosts : List Host) : Change → List Host
  | added h => if h ∈ hosts then hosts else hosts ++ [h]
  | removed h => hosts.filter (· ≠ h)

/-- The hosts after changes in order, as an observer keeps them. -/
def replay (hosts : List Host) (changes : List Change) : List Host :=
  changes.foldl replayOne hosts

end Change

/-- The hosts without repetitions, each where it first occurs. -/
def distinctHosts : List Host → List Host
  | [] => []
  | h :: rest => h :: (distinctHosts rest).filter (· ≠ h)

theorem mem_distinctHosts {h : Host} {hosts : List Host} : h ∈ distinctHosts hosts ↔ h ∈ hosts := by
  induction hosts with
  | nil => simp [distinctHosts]
  | cons a rest ih =>
    by_cases e : h = a <;> simp [distinctHosts, e, ih]

theorem nodup_distinctHosts (hosts : List Host) : (distinctHosts hosts).Nodup := by
  induction hosts with
  | nil => simp [distinctHosts]
  | cons a rest ih =>
    simp only [distinctHosts, List.nodup_cons]
    exact ⟨by simp, ih.filter _⟩

/-- A set of hosts in the order in which they joined. -/
structure Membership where
  hosts : List Host
  nodup : hosts.Nodup
  deriving DecidableEq

namespace Membership

/-- Nobody. -/
def empty : Membership := ⟨[], List.nodup_nil⟩

/-- The membership of a list of hosts. -/
def ofHosts (hosts : List Host) : Membership := ⟨distinctHosts hosts, nodup_distinctHosts hosts⟩

/-- Whether a host is a member. -/
def contains (m : Membership) (h : Host) : Bool := decide (h ∈ m.hosts)

/-- Lets a host join. -/
def insert (m : Membership) (h : Host) : Membership × List Change :=
  if hin : h ∈ m.hosts then (m, [])
  else (⟨m.hosts ++ [h], by
    rw [List.nodup_append]
    exact ⟨m.nodup, by simp, by rintro a ha b hb rfl; simp_all⟩⟩, [.added h])

/-- Lets a host leave. -/
def remove (m : Membership) (h : Host) : Membership × List Change :=
  if h ∈ m.hosts then (⟨m.hosts.filter (· ≠ h), m.nodup.filter _⟩, [.removed h])
  else (m, [])

theorem mem_insert {m : Membership} {h q : Host} :
    q ∈ (m.insert h).1.hosts ↔ q = h ∨ q ∈ m.hosts := by
  unfold insert
  split
  · next hin => exact ⟨Or.inr, fun hq => hq.elim (fun e => e ▸ hin) id⟩
  · simp [or_comm]

theorem mem_remove {m : Membership} {h q : Host} :
    q ∈ (m.remove h).1.hosts ↔ q ∈ m.hosts ∧ q ≠ h := by
  unfold remove
  split
  · simp
  · next hout => exact ⟨fun hq => ⟨hq, fun e => hout (e ▸ hq)⟩, And.left⟩

/-- Makes the members exactly the given hosts. -/
def reset (m : Membership) (hosts : List Host) : Membership × List Change :=
  let next := ofHosts hosts
  let removed := m.hosts.filter fun h => h ∉ next.hosts
  let added := next.hosts.filter fun h => h ∉ m.hosts
  (next, removed.map .removed ++ added.map .added)

/-- Applies a change of the population that this one follows. -/
def follow (m : Membership) : Change → Membership × List Change
  | .added h => m.insert h
  | .removed h => m.remove h

/-- Lets several hosts join, in order. -/
def insertAll (m : Membership) : List Host → Membership × List Change
  | [] => (m, [])
  | h :: rest =>
    let (m, first) := m.insert h
    let (m, others) := m.insertAll rest
    (m, first ++ others)

/-- Lets several hosts leave, in order. -/
def removeAll (m : Membership) : List Host → Membership × List Change
  | [] => (m, [])
  | h :: rest =>
    let (m, first) := m.remove h
    let (m, others) := m.removeAll rest
    (m, first ++ others)

end Membership

end Fleet
