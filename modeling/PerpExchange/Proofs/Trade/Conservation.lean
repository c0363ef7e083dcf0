import PerpExchange.Proofs.Trade.Run

/-!
Value is conserved over runs of orders, up to one quote unit a fill.

What takers receive and what is booked as surplus add up to the value of the quote reserve that
left the pool. Each fill rounds that value down once, so a run is short of it by less than one unit
a fill.
-/

namespace PerpExchange

/-- A pool with reserves, a peg that no repeg moves, and spreads that are not negative. -/
structure Amm.Steady (a : Amm) : Prop where
  base_pos : 0 < a.baseReserve.raw
  quote_pos : 0 < a.quoteReserve.raw
  peg_pos : 0 < a.peg.raw
  intensity : a.repegIntensity = 0
  long_nonneg : 0 ≤ a.longSpread.raw
  short_nonneg : 0 ≤ a.shortSpread.raw

lemma Amm.Steady.spread_nonneg {a : Amm} (h : a.Steady) (direction : Direction) :
    0 ≤ (a.spreadOf direction).raw := by
  cases direction with
  | long => exact h.long_nonneg
  | short => exact h.short_nonneg

namespace PerpMarket

variable {m : PerpMarket} {order : Order} {oracle : OracleReading} {f : Fill}

namespace Filled

variable {r : Reserves} {quoted real : Swap}

lemma steady (h : m.Filled order oracle f m.amm r quoted real) (hm : m.amm.Steady) :
    f.market.amm.Steady := by
  obtain ⟨budget, -, hpool⟩ := h.amm_eq
  rw [hpool]
  exact {
    base_pos := h.real_swapped.newBase_pos
    quote_pos := h.real_swapped.newQuote_pos
    peg_pos := hm.peg_pos
    intensity := hm.intensity
    long_nonneg := hm.long_nonneg
    short_nonneg := hm.short_nonneg }

/-- Taker and surplus together receive what the pool moved along its own curve: for a short the
truncated value of the quote reserve that left, for a long the negative of what the pool charged. -/
lemma delta_add_surplus {amm : Amm} (h : m.Filled order oracle f amm r quoted real)
    (hspread : 0 ≤ (amm.spreadOf order.direction).raw) (hpeg : 0 ≤ amm.peg.raw) :
    f.delta.quote.raw + f.surplus.raw = -(order.direction.sign * real.quote.raw) := by
  rw [h.delta_quote, h.surplus_eq hspread hpeg]
  ring

lemma conserves (h : m.Filled order oracle f m.amm r quoted real) (hm : m.amm.Steady) :
    (m.amm.quoteReserve.raw - f.market.amm.quoteReserve.raw) * m.amm.peg.raw - quoteUnit ≤
        quoteUnit * (f.delta.quote.raw + f.surplus.raw) ∧
      quoteUnit * (f.delta.quote.raw + f.surplus.raw) ≤
        (m.amm.quoteReserve.raw - f.market.amm.quoteReserve.raw) * m.amm.peg.raw := by
  obtain ⟨budget, -, hpool⟩ := h.amm_eq
  have hnew : f.market.amm.quoteReserve = real.reserves.quote := by rw [hpool]; rfl
  have hvalue := h.real_swapped.value_bounds hm.peg_pos.le
  rw [Direction.sign_swap] at hvalue
  rw [h.delta_add_surplus (hm.spread_nonneg _) hm.peg_pos.le, hnew, ← neg_mul]
  exact hvalue

end Filled

/-- What takers received over all these fills. -/
def received (executions : List Execution) : ℤ := (executions.map (·.fill.delta.quote.raw)).sum

def surpluses (executions : List Execution) : ℤ := (executions.map (·.fill.surplus.raw)).sum

/-- The taker was quoted no better than the real reserves moved, and the surplus is all of the
difference: a long pays at least the real swap's quote, a short receives at most that. -/
def QuotedNoBetter (e : Execution) : Prop :=
  ∃ real, e.before.amm.swapBase e.fill.size e.arrival.order.direction.swap = .ok real ∧
    0 ≤ e.arrival.order.direction.sign * (e.fill.quote.raw - real.quote.raw) ∧
    e.fill.surplus.raw = e.arrival.order.direction.sign * (e.fill.quote.raw - real.quote.raw)

/-- What is conserved from a market to the last one of a run. -/
structure Conserved (m last : PerpMarket) (executions : List Execution) : Prop where
  lower : (m.amm.quoteReserve.raw - last.amm.quoteReserve.raw) * m.amm.peg.raw
      - executions.length * quoteUnit ≤
    quoteUnit * (received executions + surpluses executions)
  upper : quoteUnit * (received executions + surpluses executions) ≤
    (m.amm.quoteReserve.raw - last.amm.quoteReserve.raw) * m.amm.peg.raw
  budget : last.amm.budget.raw = m.amm.budget.raw + surpluses executions
  quoted : ∀ e ∈ executions, e.before.fill e.arrival.order e.arrival.oracle = .ok (.filled e.fill) ∧
    QuotedNoBetter e

lemma Conserved.nil (m : PerpMarket) : Conserved m m [] := by
  constructor <;> simp [received, surpluses]

lemma quotedNoBetter_of_filled {arrival : Arrival} {r : Reserves} {quoted real : Swap}
    (h : m.Filled arrival.order arrival.oracle f m.amm r quoted real) (hm : m.amm.Steady) :
    QuotedNoBetter ⟨m, arrival, f⟩ := by
  have hle := (Amm.behind_of_spreadReserves h.reserves (hm.spread_nonneg _)).quote_le
    h.quoted_swapped h.real_swapped hm.peg_pos.le
  refine ⟨real, h.realSwap, ?_, ?_⟩
  · rw [h.quote]; exact hle
  · rw [h.quote]; exact h.surplus_eq (hm.spread_nonneg _) hm.peg_pos.le

lemma Conserved.cons {arrival : Arrival} {last : PerpMarket} {executions : List Execution}
    (hm : m.amm.Steady) (hfill : m.fill arrival.order arrival.oracle = .ok (.filled f))
    (h : f.market.amm.Steady → Conserved f.market last executions) :
    Conserved m last (⟨m, arrival, f⟩ :: executions) := by
  obtain ⟨r, quoted, real, hf⟩ := filled_of_fill_of_intensity_zero hfill hm.intensity
  obtain ⟨hlower, hupper, hbudget, hquoted⟩ := h (hf.steady hm)
  obtain ⟨hlower₁, hupper₁⟩ := hf.conserves hm
  obtain ⟨budget, hbudget₁, hpool⟩ := hf.amm_eq
  have hpeg : f.market.amm.peg = m.amm.peg := by rw [hpool]; rfl
  have hgrown : f.market.amm.budget.raw = m.amm.budget.raw + f.surplus.raw := by
    rw [hpool]; exact hbudget₁
  rw [hpeg] at hlower hupper
  simp only [received, surpluses] at hlower hupper hbudget
  constructor
  · simp only [received, surpluses, List.map_cons, List.sum_cons, List.length_cons]
    push_cast
    linarith
  · simp only [received, surpluses, List.map_cons, List.sum_cons]
    linarith
  · simp only [surpluses, List.map_cons, List.sum_cons]
    linarith
  · rw [List.forall_mem_cons]
    exact ⟨⟨hfill, quotedNoBetter_of_filled hf hm⟩, hquoted⟩

lemma run_conserved (m : PerpMarket) (hm : m.amm.Steady) (arrivals : List Arrival) :
    Conserved m (m.run arrivals).1 (m.run arrivals).2 :=
  run_induction (motive := fun m result => m.amm.Steady → Conserved m result.1 result.2)
    (fun m _ => .nil m) (fun _ _ _ _ _ hfill ih hm => .cons hm hfill ih) m arrivals hm

/-- **Value is conserved over runs.** The quote reserve that left the pool, at the peg, is what the
takers received and what was booked as surplus, up to one quote unit a fill. The budget grows by
exactly the surpluses, and no fill is quoted better than the real reserves move. -/
theorem run_conserves_value (m : PerpMarket) (hm : m.amm.Steady) (arrivals : List Arrival) :
    let last := (m.run arrivals).1
    let executions := (m.run arrivals).2
    (m.amm.quoteReserve.raw - last.amm.quoteReserve.raw) * m.amm.peg.raw
          - executions.length * 10 ^ 9 ≤
        10 ^ 9 * (received executions + surpluses executions) ∧
      10 ^ 9 * (received executions + surpluses executions) ≤
        (m.amm.quoteReserve.raw - last.amm.quoteReserve.raw) * m.amm.peg.raw ∧
      last.amm.budget.raw = m.amm.budget.raw + surpluses executions ∧
      ∀ e ∈ executions, e.before.fill e.arrival.order e.arrival.oracle = .ok (.filled e.fill) ∧
        QuotedNoBetter e := by
  obtain ⟨hlower, hupper, hbudget, hquoted⟩ := run_conserved m hm arrivals
  exact ⟨hlower, hupper, hbudget, hquoted⟩

/-- A market with a tenth of a percent between takers and either side of the pool. -/
def wide : PerpMarket :=
  (even Fixed.one).withAmm
    { (even Fixed.one).amm with longSpread := .ofRaw 2000, shortSpread := .ofRaw 2000 }

/-- A long, a short of more, and an order for more base than the pool has. -/
def swing : List Arrival :=
  [⟨⟨.long, Fixed.one, .market⟩, .of Fixed.one⟩,
    ⟨⟨.short, .ofRaw 4000000000, .market⟩, .of Fixed.one⟩,
    ⟨⟨.long, .ofRaw 600000000000000, .market⟩, .of Fixed.one⟩]

lemma wide_steady : wide.amm.Steady := by
  constructor <;> decide

theorem run_conserves_value_swing :
    wide.amm.Steady ∧ (wide.run swing).2.length = 2 ∧ 0 < surpluses (wide.run swing).2 ∧
      (wide.run swing).1.amm.budget.raw = wide.amm.budget.raw + surpluses (wide.run swing).2 ∧
      10 ^ 9 * (received (wide.run swing).2 + surpluses (wide.run swing).2) ≤
        (wide.amm.quoteReserve.raw - (wide.run swing).1.amm.quoteReserve.raw)
          * wide.amm.peg.raw := by
  obtain ⟨-, hupper, hbudget, -⟩ := run_conserves_value wide wide_steady swing
  exact ⟨wide_steady, by decide, by decide, hbudget, hupper⟩

end PerpMarket

end PerpExchange
