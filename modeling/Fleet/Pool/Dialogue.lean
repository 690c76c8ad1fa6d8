/-!
# Dialogues

A dialogue is what a caller does that asks questions one after the other and
goes on according to the answers. The answers come from outside, so the same
dialogue can be led with any environment:

* **run** — `Dialogue.run` leads a dialogue to its end with an environment that
  answers from a state;
* **breaking off** — a dialogue is a tree, and every point at which a caller
  can be left alone is one of its `ask` nodes.
-/

namespace Fleet

/-- A caller that asks questions `Q`, whose answers are in `A`, and ends with a
result in `R`. -/
inductive Dialogue (Q : Type) (A : Q → Type) (R : Type) : Type
  | done (result : R)
  | ask (question : Q) (next : A question → Dialogue Q A R)

namespace Dialogue

variable {Q : Type} {A : Q → Type} {R S : Type}

/-- Goes on with the result of a dialogue. -/
def bind : Dialogue Q A R → (R → Dialogue Q A S) → Dialogue Q A S
  | done r, f => f r
  | ask q next, f => ask q fun a => (next a).bind f

instance : Monad (Dialogue Q A) where
  pure := done
  bind := bind

/-- Asks one question. -/
def question (q : Q) : Dialogue Q A (A q) := ask q done

/-- Leads a dialogue to its end. -/
def run {E : Type} (answer : E → (q : Q) → E × A q) : E → Dialogue Q A R → E × R
  | σ, done r => (σ, r)
  | σ, ask q next =>
    let (σ, a) := answer σ q
    (next a).run answer σ

@[simp] theorem run_done {E : Type} (answer : E → (q : Q) → E × A q) (σ : E) (r : R) :
    run answer σ (done r : Dialogue Q A R) = (σ, r) := rfl

theorem run_ask {E : Type} (answer : E → (q : Q) → E × A q) (σ : E) (q : Q)
    (next : A q → Dialogue Q A R) :
    run answer σ (ask q next) = run answer (answer σ q).1 (next (answer σ q).2) := rfl

/-- A dialogue in two parts is led to its end one part after the other. -/
theorem run_bind {E : Type} (answer : E → (q : Q) → E × A q) (σ : E) (d : Dialogue Q A R)
    (f : R → Dialogue Q A S) :
    run answer σ (d.bind f) = run answer (run answer σ d).1 (f (run answer σ d).2) := by
  induction d generalizing σ with
  | done r => rfl
  | ask q next ih => exact ih _ _

end Dialogue

end Fleet
