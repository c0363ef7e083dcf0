import PerpExchange.Proofs.Trade.Fill

/-!
Runs of orders against a market.

Orders arrive one after the other, each with the oracle reading that it meets. A fill commits the
market that it leaves; an order that does not fill commits nothing. A run keeps the fills that it
made, each with the market before it.
-/

namespace PerpExchange

/-- An order that reaches a market, with the oracle reading that it meets. -/
structure Arrival where
  order : Order
  oracle : OracleReading

structure Execution where
  before : PerpMarket
  arrival : Arrival
  fill : Fill

namespace PerpMarket

/-- The market after all arrivals, and what was filled. -/
def run (m : PerpMarket) : List Arrival → PerpMarket × List Execution
  | [] => (m, [])
  | arrival :: rest =>
    match m.fill arrival.order arrival.oracle with
    | .ok (.filled fill) =>
      ((run fill.market rest).1, ⟨m, arrival, fill⟩ :: (run fill.market rest).2)
    | _ => run m rest

@[simp] lemma run_nil (m : PerpMarket) : m.run [] = (m, []) := rfl

lemma run_cons_of_filled {m : PerpMarket} {arrival : Arrival} {fill : Fill}
    (h : m.fill arrival.order arrival.oracle = .ok (.filled fill)) (rest : List Arrival) :
    m.run (arrival :: rest) =
      ((fill.market.run rest).1, ⟨m, arrival, fill⟩ :: (fill.market.run rest).2) := by
  rw [run, h]

lemma run_cons_of_not_filled {m : PerpMarket} {arrival : Arrival}
    (h : ∀ fill, m.fill arrival.order arrival.oracle ≠ .ok (.filled fill)) (rest : List Arrival) :
    m.run (arrival :: rest) = m.run rest := by
  rw [run]
  split
  · next fill hfill => exact absurd hfill (h fill)
  · rfl

/-- To show a fact about every run, show it for no arrivals, for an order that fills before a run
that starts from the market it leaves, and for an order that does not fill. -/
lemma run_induction {motive : PerpMarket → PerpMarket × List Execution → Prop}
    (nil : ∀ m, motive m (m, []))
    (filled : ∀ m arrival fill last executions,
      m.fill arrival.order arrival.oracle = .ok (.filled fill) →
      motive fill.market (last, executions) →
      motive m (last, ⟨m, arrival, fill⟩ :: executions))
    (m : PerpMarket) (arrivals : List Arrival) : motive m (m.run arrivals) := by
  induction arrivals generalizing m with
  | nil => exact nil m
  | cons arrival rest ih =>
    by_cases h : ∃ fill, m.fill arrival.order arrival.oracle = .ok (.filled fill)
    · obtain ⟨fill, hfill⟩ := h
      rw [run_cons_of_filled hfill]
      exact filled m arrival fill _ _ hfill (ih fill.market)
    · rw [run_cons_of_not_filled fun fill hfill => h ⟨fill, hfill⟩]
      exact ih m

end PerpMarket

end PerpExchange
