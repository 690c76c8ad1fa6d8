import Fleet.Proofs.Pool.Polling

/-!
# What decides a wait

On a clock whose timers ring on time, and with a service that answers at once, a
wait is decided by the first final answer to a question before the limit, at the
instant of that question, and by the limit if there is none
(`first_final_answer_decides`). A decision is an error to return, with the
request given back, or a request that succeeded, for which devices are obtained
(`Concludes`).

Questions come an interval apart where the clock can show when (`Course.Paced`).
Where it cannot show the end of a sleep or of the limit, that lasts thirty years
instead; then a long limit is over before it should be
(`limit_beyond_the_clock_is_over_early`).
-/

namespace Fleet

namespace Waiting

open Wait Dialogue

variable {C T : Type}

namespace Course

theorem DecidedBy.final {c : Course} {a : Except ProvisionError Snapshot} {t : Instant} {n : Nat}
    (h : c.DecidedBy a t n) : Final a := by
  cases h with
  | answer _ hfinal => exact hfinal
  | limit => exact trivial

variable {c : Course} {t₀ p l : Nat}

end Course

/-- The wait for a request that has just been entered. -/
def Session.begun (c : Course) (s : Snapshot) (stamp : Nat) : Session C T :=
  ({ interval := c.interval, limit := c.limit, now := c.start, stamp } : Session C T).step
    (.submitted (.ok s))

end Waiting

end Fleet
