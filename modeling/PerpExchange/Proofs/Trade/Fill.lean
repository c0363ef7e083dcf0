import PerpExchange.Proofs.Amm.Quoting
import PerpExchange.Proofs.Amm.Repeg
import PerpExchange.Trade.Fill

/-!
What is known of an order that filled.

`filled_of_fill` takes a fill apart once: the repegged pool, the reserves that quote the taker, the
two swaps of one size, and what they leave in the market. Everything about fills is derived from it.
-/

namespace PerpExchange

namespace Order

variable {order : Order} {quoting : Amm} {oracle limit : Price} {most : BaseAmount}
  {direction : Direction} {size : BaseAmount} {quote quoted real surplus : QuoteAmount}
  {change : PositionDelta}

lemma delta_eq_ok (h : delta direction size quote = .ok change) :
    change.base.raw = direction.sign * size.raw ∧
      change.quote.raw = -(direction.sign * quote.raw) := by
  cases direction with
  | long =>
    simp only [delta, bind_eq_ok, Fixed.neg_eq_ok, pure_eq_ok] at h
    obtain ⟨paid, hpaid, rfl⟩ := h
    simp [Direction.sign, hpaid]
  | short =>
    simp only [delta, bind_eq_ok, Fixed.neg_eq_ok, pure_eq_ok] at h
    obtain ⟨given, hgiven, rfl⟩ := h
    simp [Direction.sign, hgiven]

lemma sizeWithin_eq_ok (h : order.sizeWithin quoting oracle = .ok (some most)) :
    (order.price.limit? oracle = .ok none ∧ most = order.size) ∨
    ∃ limit cap, order.price.limit? oracle = .ok (some limit) ∧ 0 < limit.raw ∧
      quoting.sizeToPrice limit = .ok (some (cap, order.direction)) ∧
      most = min order.size cap := by
  simp only [sizeWithin, bind_eq_ok, Failure.liftM_violation_eq_ok] at h
  obtain ⟨limit?, hlimit, h⟩ := h
  rcases limit? with - | limit
  · cases h
    exact .inl ⟨hlimit, rfl⟩
  · simp only [bind_eq_ok, Failure.liftM_violation_eq_ok, Failure.liftM_refusal_eq_ok,
      Refusal.guard_eq_ok] at h
    obtain ⟨-, hpos, found, hfound, h⟩ := h
    rcases found with - | ⟨cap, direction⟩
    · simp only [pure_eq_ok, reduceCtorEq] at h
    · simp only [pure_eq_ok] at h
      split_ifs at h with hdirection
      cases h
      exact .inr ⟨limit, cap, hlimit, hpos, by rw [hfound, hdirection], rfl⟩

lemma sizeWithin_of_limit (h : order.sizeWithin quoting oracle = .ok (some most))
    (hlimit : order.price.limit? oracle = .ok (some limit)) :
    0 < limit.raw ∧ ∃ cap, quoting.sizeToPrice limit = .ok (some (cap, order.direction)) ∧
      most.raw ≤ cap.raw := by
  rcases sizeWithin_eq_ok h with ⟨hnone, -⟩ | ⟨limit', cap, hsome, hpos, hcap, rfl⟩
  · cases hlimit.symm.trans hnone
  · cases hlimit.symm.trans hsome
    exact ⟨hpos, cap, hcap, by rw [Fixed.raw_min]; exact min_le_right _ _⟩

lemma sizeWithin_le (h : order.sizeWithin quoting oracle = .ok (some most)) :
    most.raw ≤ order.size.raw := by
  rcases sizeWithin_eq_ok h with ⟨-, rfl⟩ | ⟨limit, cap, -, -, -, rfl⟩
  · exact le_rfl
  · rw [Fixed.raw_min]
    exact min_le_left _ _

lemma sizeWithin_pos (h : order.sizeWithin quoting oracle = .ok (some most))
    (hsize : 0 < order.size.raw) : 0 < most.raw := by
  rcases sizeWithin_eq_ok h with ⟨-, rfl⟩ | ⟨limit, cap, -, -, hcap, rfl⟩
  · exact hsize
  · rw [Fixed.raw_min]
    exact lt_min hsize (Amm.sizeToPrice_eq_ok hcap).1

lemma surplus_eq_ok (h : Order.surplus direction quoted real = .ok surplus) :
    surplus.raw = max (direction.sign * (quoted.raw - real.raw)) 0 := by
  cases direction with
  | long =>
    simp only [Order.surplus, bind_eq_ok, pure_eq_ok, Fixed.sub_eq_ok] at h
    obtain ⟨difference, hdifference, rfl⟩ := h
    simp [Direction.sign, hdifference]
  | short =>
    simp only [Order.surplus, bind_eq_ok, pure_eq_ok, Fixed.sub_eq_ok] at h
    obtain ⟨difference, hdifference, rfl⟩ := h
    simp [Direction.sign, hdifference]

end Order

namespace PerpMarket

/-- A market around 500,000 base and as much quote reserve, at a peg. -/
def even (peg : Peg) : PerpMarket := new ⟨0⟩ (Amm.balanced (.ofInt 500000000000000) peg)

/-- An order that filled, with the pool `amm` after the repeg, the reserves `r` that quoted the
taker, and the two swaps. -/
structure Filled (m : PerpMarket) (order : Order) (oracle : OracleReading) (f : Fill)
    (amm : Amm) (r : Reserves) (quoted real : Swap) : Prop where
  order_pos : 0 < order.size.raw
  active : m.status = .active
  repegged : m.amm.repeg oracle = .ok amm
  reserves : amm.spreadReserves order.direction = .ok r
  size : ∃ most, order.sizeWithin (amm.withReserves r) oracle.price = .ok (some most) ∧
    standardize most amm.stepSize = .ok f.size
  size_pos : 0 < f.size.raw
  quotedSwap : (amm.withReserves r).swapBase f.size order.direction.swap = .ok quoted
  realSwap : amm.swapBase f.size order.direction.swap = .ok real
  quote : f.quote = quoted.quote
  averagePrice : averagePrice f.quote f.size = .ok f.averagePrice
  surplus : f.surplus.raw = max (order.direction.sign * (quoted.quote.raw - real.quote.raw)) 0
  delta_base : f.delta.base.raw = order.direction.sign * f.size.raw
  delta_quote : f.delta.quote.raw = -(order.direction.sign * quoted.quote.raw)
  market : ∃ budget, budget.raw = amm.budget.raw + f.surplus.raw ∧
    f.market = m.withAmm { amm.withReserves real.reserves with budget }

variable {m : PerpMarket} {order : Order} {oracle : OracleReading} {f : Fill}

/-- **Everything that an order which filled went through.** -/
theorem filled_of_fill (h : m.fill order oracle = .ok (.filled f)) :
    ∃ amm r quoted real, m.Filled order oracle f amm r quoted real := by
  simp only [fill, bind_eq_ok, Failure.liftM_refusal_eq_ok, Refusal.guard_eq_ok] at h
  obtain ⟨-, hpos, h⟩ := h
  split_ifs at h with hactive
  · simp only [pure_eq_ok, reduceCtorEq] at h
  · simp only [bind_eq_ok, Failure.liftM_violation_eq_ok] at h
    obtain ⟨amm, hamm, r, hr, most?, hmost, h⟩ := h
    rcases most? with - | most
    · simp only [pure_eq_ok, reduceCtorEq] at h
    · simp only [bind_eq_ok, Failure.liftM_violation_eq_ok] at h
      obtain ⟨size, hsize, h⟩ := h
      split_ifs at h with hle
      · simp only [pure_eq_ok, reduceCtorEq] at h
      · simp only [fillSize, bind_eq_ok, Failure.liftM_violation_eq_ok, pure_eq_ok,
          Fixed.add_eq_ok] at h
        obtain ⟨fill, ⟨quoted, hquoted, real, hreal, surplus, hsurplus, budget, hbudget, delta,
          hdelta, price, hprice, rfl⟩, hfill⟩ := h
        cases hfill
        obtain ⟨hbase, hquote⟩ := Order.delta_eq_ok hdelta
        exact ⟨amm, r, quoted, real, {
          order_pos := hpos
          active := not_not.mp hactive
          repegged := hamm
          reserves := hr
          size := ⟨most, hmost, hsize⟩
          size_pos := not_le.mp hle
          quotedSwap := hquoted
          realSwap := hreal
          quote := rfl
          averagePrice := hprice
          surplus := Order.surplus_eq_ok hsurplus
          delta_base := hbase
          delta_quote := hquote
          market := ⟨budget, hbudget, rfl⟩ }⟩

instance {p : Fill → Prop} [DecidablePred p] :
    Decidable (∃ f, m.fill order oracle = .ok (.filled f) ∧ p f) :=
  match h : m.fill order oracle with
  | .ok (.filled f) => decidable_of_iff (p f) (by simp)
  | .ok (.none _) => .isFalse (by simp)
  | .error _ => .isFalse (by simp)

theorem filled_of_fill_of_intensity_zero (h : m.fill order oracle = .ok (.filled f))
    (hm : m.amm.repegIntensity = 0) :
    ∃ r quoted real, m.Filled order oracle f m.amm r quoted real := by
  obtain ⟨amm, r, quoted, real, hf⟩ := filled_of_fill h
  have hamm := hf.repegged
  rw [Amm.repeg_of_intensity_zero hm] at hamm
  cases hamm
  exact ⟨r, quoted, real, hf⟩

namespace Filled

variable {amm : Amm} {r : Reserves} {quoted real : Swap}

lemma quoted_swapped (h : m.Filled order oracle f amm r quoted real) :
    (amm.withReserves r).Swapped f.size order.direction.swap quoted :=
  Amm.swapped_of_swapBase h.quotedSwap

lemma real_swapped (h : m.Filled order oracle f amm r quoted real) :
    amm.Swapped f.size order.direction.swap real :=
  Amm.swapped_of_swapBase h.realSwap

lemma surplus_nonneg (h : m.Filled order oracle f amm r quoted real) : 0 ≤ f.surplus.raw := by
  rw [h.surplus]
  exact le_max_right _ _

/-- Taking the surplus as the difference of the two quotes loses nothing when spreads are not
negative: the taker is never quoted better than the pool moves. -/
lemma surplus_eq (h : m.Filled order oracle f amm r quoted real)
    (hspread : 0 ≤ (amm.spreadOf order.direction).raw) (hpeg : 0 ≤ amm.peg.raw) :
    f.surplus.raw = order.direction.sign * (quoted.quote.raw - real.quote.raw) := by
  have hle := (Amm.behind_of_spreadReserves h.reserves hspread).quote_le h.quoted_swapped
    h.real_swapped hpeg
  rw [h.surplus, max_eq_left hle]

lemma amm_eq (h : m.Filled order oracle f amm r quoted real) :
    ∃ budget, budget.raw = amm.budget.raw + f.surplus.raw ∧
      f.market.amm = { amm.withReserves real.reserves with budget } := by
  obtain ⟨budget, hbudget, hmarket⟩ := h.market
  exact ⟨budget, hbudget, by rw [hmarket]; rfl⟩

lemma size_le (h : m.Filled order oracle f amm r quoted real) : f.size.raw ≤ order.size.raw := by
  obtain ⟨most, hmost, hsize⟩ := h.size
  exact (standardize_le hsize h.size_pos).trans (Order.sizeWithin_le hmost)

/-- Of the pool of the market, a fill writes the reserves, the peg, the budget and the noted oracle
price only. -/
lemma frame (h : m.Filled order oracle f amm r quoted real) :
    ∃ peg budget price, f.market = m.withAmm { m.amm with
      baseReserve := real.reserves.base
      quoteReserve := real.reserves.quote
      peg
      budget
      lastOraclePrice := price } := by
  obtain ⟨peg, _, price, hamm⟩ := Amm.repeg_frame h.repegged
  obtain ⟨budget, -, hmarket⟩ := h.market
  exact ⟨peg, budget, price, by rw [hmarket, hamm]; rfl⟩

lemma newBase (h : m.Filled order oracle f amm r quoted real) :
    real.reserves.base.raw = m.amm.baseReserve.raw - f.delta.base.raw := by
  obtain ⟨_, _, _, rfl⟩ := Amm.repeg_frame h.repegged
  have hreal := h.real_swapped.newBase
  rw [Direction.sign_swap] at hreal
  rw [hreal, h.delta_base]
  ring

end Filled

end PerpMarket

end PerpExchange
