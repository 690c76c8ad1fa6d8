import Fleet.Population.Growth

/-!
# Networks of populations

Populations tell their subscribers of every change. A subscriber is a log, an
engine, or another population that follows this one; so populations form a
network through which changes travel.

* **numbers** — each population numbers its subscriptions from zero; taking a
  subscription back is by number alone;
* **delivery** — a change goes to the subscribers in the order in which they
  subscribed; a follower passes on what changed itself before the next
  subscriber is told. Logs and engines are told by the deliveries that
  `Network.publish` returns, in order;
* **growth** — a request for growth goes up from a layered population to the
  one it is layered over.

The followers of a population were made after it, or are fixed sets that
nobody follows back, so a change travels over at most as many steps as there
are populations; that number is the fuel of `publishFrom`.
-/

namespace Fleet

/-- Who is told of the changes of a population. -/
inductive Subscriber
  | log (n : Nat)
  | engine (n : Nat)
  | follower (n : Nat)
  deriving DecidableEq, Repr

/-- Where the hosts of a population come from. -/
inductive Origin
  /-- They are entered by hand; requests for growth are counted. -/
  | byHand (growth : Nat)
  /-- They follow another population, under a subscription of that number. -/
  | layered (below : Nat) (subscription : Nat)
  /-- They are read from a host directory. -/
  | expanding (growth : Growth)

/-- A population with its subscribers. -/
structure Population where
  members : Membership
  origin : Origin
  subscribers : List (Nat × Subscriber) := []
  nextNumber : Nat := 0

namespace Population

/-- Adds a subscriber and returns its number. -/
def subscribe (p : Population) (s : Subscriber) : Population × Nat :=
  ({ p with subscribers := p.subscribers ++ [(p.nextNumber, s)], nextNumber := p.nextNumber + 1 },
    p.nextNumber)

/-- Takes a subscription back; whether there was one of that number. -/
def unsubscribe (p : Population) (number : Nat) : Population × Bool :=
  ({ p with subscribers := p.subscribers.filter fun s => s.1 ≠ number },
    p.subscribers.any fun s => s.1 == number)

end Population

/-- A change on its way to a log or an engine. -/
structure Delivery where
  subscriber : Subscriber
  change : Change
  deriving DecidableEq, Repr

/-- Populations by number. -/
structure Network where
  populations : Array Population := #[]

namespace Network

/-- The population of a number. -/
def get? (σ : Network) (n : Nat) : Option Population := σ.populations[n]?

/-- The members of a population. -/
def members (σ : Network) (n : Nat) : Membership :=
  ((σ.get? n).map (·.members)).getD Membership.empty

/-- Changes a population in place. -/
def modify (σ : Network) (n : Nat) (f : Population → Population) : Network :=
  ⟨σ.populations.modify n f⟩

/-- Replaces the members of a population. -/
def setMembers (σ : Network) (n : Nat) (m : Membership) : Network :=
  σ.modify n fun p => { p with members := m }

/-- Adds a population and returns its number. -/
def add (σ : Network) (p : Population) : Network × Nat :=
  (⟨σ.populations.push p⟩, σ.populations.size)

/-- Adds a subscriber to a population and returns its number there. -/
def subscribe (σ : Network) (n : Nat) (s : Subscriber) : Network × Nat :=
  match σ.get? n with
  | none => (σ, 0)
  | some p =>
    let (p, number) := p.subscribe s
    (σ.modify n fun _ => p, number)

/-- Takes a subscription of a population back. -/
def unsubscribe (σ : Network) (n number : Nat) : Network × Bool :=
  match σ.get? n with
  | none => (σ, false)
  | some p =>
    let (p, found) := p.unsubscribe number
    (σ.modify n fun _ => p, found)

/-- Tells the subscribers of a population of a change; with fuel for that many
followers in a row. -/
def publishFrom : (fuel : Nat) → Network → Nat → Change → Network × List Delivery
  | 0, σ, _, _ => (σ, [])
  | fuel + 1, σ, n, c =>
    ((σ.get? n).elim [] (·.subscribers)).foldl (fun (σ, sent) (_, s) =>
      match s with
      | .follower k =>
        let (m, changes) := (σ.members k).follow c
        changes.foldl (fun (σ, sent) c =>
          let (σ, more) := publishFrom fuel σ k c
          (σ, sent ++ more)) (σ.setMembers k m, sent)
      | s => (σ, sent ++ [⟨s, c⟩])) (σ, [])

/-- Tells the subscribers of a population of changes in order. -/
def publish (σ : Network) (n : Nat) (changes : List Change) : Network × List Delivery :=
  changes.foldl (fun (σ, sent) c =>
    let (σ, more) := publishFrom σ.populations.size σ n c
    (σ, sent ++ more)) (σ, [])

/-- Replaces the members of a population and tells its subscribers how they
changed. -/
def update (σ : Network) (n : Nat) (next : Membership × List Change) : Network × List Delivery :=
  (σ.setMembers n next.1).publish n next.2

/-- Lets a host join a population. -/
def insert (σ : Network) (n : Nat) (h : Host) : Network × List Delivery :=
  σ.update n ((σ.members n).insert h)

/-- Lets a host leave a population. -/
def remove (σ : Network) (n : Nat) (h : Host) : Network × List Delivery :=
  σ.update n ((σ.members n).remove h)

/-- Makes the members of a population exactly the given hosts. -/
def reset (σ : Network) (n : Nat) (hosts : List Host) : Network × List Delivery :=
  σ.update n ((σ.members n).reset hosts)

/-- Adds a population of its own hosts layered over another: it subscribes
first and takes over the hosts that are there afterwards. -/
def addLayered (σ : Network) (seed : List Host) (below : Nat) : Network × Nat :=
  let n := σ.populations.size
  let (σ, number) := σ.subscribe below (.follower n)
  let (m, _) := (Membership.ofHosts seed).insertAll (σ.members below).hosts
  σ.add { members := m, origin := .layered below number }

/-- The population that a request for growth made to one reaches. -/
def growthTarget : (fuel : Nat) → Network → Nat → Nat
  | 0, _, n => n
  | fuel + 1, σ, n =>
    match (σ.get? n).map Population.origin with
    | some (Origin.layered below _) => growthTarget fuel σ below
    | _ => n

/-- Follows layers down to the population that can grow. -/
def growthSource (σ : Network) (n : Nat) : Nat := growthTarget σ.populations.size σ n

end Network

end Fleet
