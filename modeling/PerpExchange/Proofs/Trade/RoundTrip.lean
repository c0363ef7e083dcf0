import PerpExchange.Proofs.Position.Perp
import PerpExchange.Proofs.Trade.Conservation

/-!
Round trips: a market order, and the opposite one of the same size on the market that it left.

The long leg of the trip pays one quote unit more than its truncated value. The pool keeps less
quote reserve than it had, because both swaps truncate it, and what it is short of is worth
`peg / 10 ^ 9` quote units for each unit of the reserve. Whether the trip pays the user depends on
which of the two is more.
-/

namespace PerpExchange

lemma ediv_add_sub_le_iff {a d k u : ℤ} (hu : 0 < u) :
    (a + d) / u - a / u ≤ k ↔ a % u + d < (k + 1) * u := by
  have ha : a = u * (a / u) + a % u := (Int.mul_ediv_add_emod a u).symm
  calc (a + d) / u - a / u ≤ k ↔ (a + d) / u < a / u + k + 1 := by omega
    _ ↔ a + d < (a / u + k + 1) * u := Int.ediv_lt_iff_lt_mul hu
    _ ↔ a % u + d < (k + 1) * u := by
      constructor
      · intro h; linarith
      · intro h; linarith

namespace PerpMarket

/-- A market order of this size filled completely, and so did the opposite one after it. -/
structure RoundTrip (m : PerpMarket) (direction : Direction) (size : BaseAmount)
    (opening closing : Fill) : Prop where
  opens : ∃ oracle, m.fill ⟨direction, size, .market⟩ oracle = .ok (.filled opening)
  closes : ∃ oracle,
    opening.market.fill ⟨direction.opposite, size, .market⟩ oracle = .ok (.filled closing)
  opening_size : opening.size = size
  closing_size : closing.size = size

variable {m : PerpMarket} {direction : Direction} {size : BaseAmount} {opening closing : Fill}

/-- What the two fills of a round trip pay the user in total. -/
def roundTripTotal (opening closing : Fill) : ℤ :=
  opening.delta.quote.raw + closing.delta.quote.raw

/-- The value that the long leg of a round trip moved, in parts of a quote unit. -/
def longLeg (m : PerpMarket) (direction : Direction) (opening closing : Fill) : ℤ :=
  match direction with
  | .long => (opening.market.amm.quoteReserve.raw - m.amm.quoteReserve.raw) * m.amm.peg.raw
  | .short =>
    (closing.market.amm.quoteReserve.raw - opening.market.amm.quoteReserve.raw) * m.amm.peg.raw

/-- The quote reserve that the pool is short of after a round trip. -/
def reserveLost (m : PerpMarket) (closing : Fill) : ℤ :=
  m.amm.quoteReserve.raw - closing.market.amm.quoteReserve.raw

namespace RoundTrip

/-- The two swaps of a round trip along the curve of the pool, and what they left. -/
structure Legs (m : PerpMarket) (direction : Direction) (size : BaseAmount)
    (opening closing : Fill) (there back : Swap) : Prop where
  there_swapped : m.amm.Swapped size direction.swap there
  back_swapped : opening.market.amm.Swapped size direction.opposite.swap back
  there_base : opening.market.amm.baseReserve = there.reserves.base
  there_quote : opening.market.amm.quoteReserve = there.reserves.quote
  back_quote : closing.market.amm.quoteReserve = back.reserves.quote
  peg : opening.market.amm.peg = m.amm.peg
  opened : opening.delta.quote.raw + opening.surplus.raw = -(direction.sign * there.quote.raw)
  closed : closing.delta.quote.raw + closing.surplus.raw = direction.sign * back.quote.raw
  surpluses_nonneg : 0 ≤ opening.surplus.raw ∧ 0 ≤ closing.surplus.raw
  opened_base : opening.delta.base.raw = direction.sign * size.raw
  closed_base : closing.delta.base.raw = -opening.delta.base.raw

lemma legs (h : m.RoundTrip direction size opening closing) (hm : m.amm.Steady) :
    ∃ there back, Legs m direction size opening closing there back := by
  obtain ⟨⟨oracle₁, hopen⟩, ⟨oracle₂, hclose⟩, hsize₁, hsize₂⟩ := h
  obtain ⟨r₁, quoted₁, there, hf₁⟩ := filled_of_fill_of_intensity_zero hopen hm.intensity
  have hm₁ := hf₁.steady hm
  obtain ⟨r₂, quoted₂, back, hf₂⟩ := filled_of_fill_of_intensity_zero hclose hm₁.intensity
  obtain ⟨budget₁, -, hpool₁⟩ := hf₁.amm_eq
  obtain ⟨budget₂, -, hpool₂⟩ := hf₂.amm_eq
  have hthere := hf₁.real_swapped
  have hback := hf₂.real_swapped
  rw [hsize₁] at hthere
  rw [hsize₂] at hback
  have hclosed := hf₂.delta_add_surplus (hm₁.spread_nonneg _) hm₁.peg_pos.le
  rw [Direction.sign_opposite, neg_mul, neg_neg] at hclosed
  have hbase₁ := hf₁.delta_base
  have hbase₂ := hf₂.delta_base
  rw [hsize₁] at hbase₁
  rw [hsize₂, Direction.sign_opposite, neg_mul, ← hbase₁] at hbase₂
  exact ⟨there, back, {
    there_swapped := hthere
    back_swapped := hback
    there_base := by rw [hpool₁]; rfl
    there_quote := by rw [hpool₁]; rfl
    back_quote := by rw [hpool₂]; rfl
    peg := by rw [hpool₁]; rfl
    opened := hf₁.delta_add_surplus (hm.spread_nonneg _) hm.peg_pos.le
    closed := hclosed
    surpluses_nonneg := ⟨hf₁.surplus_nonneg, hf₂.surplus_nonneg⟩
    opened_base := hbase₁
    closed_base := hbase₂ }⟩

namespace Legs

variable {there back : Swap}

/-- The closing swap brings the base reserve back to where it was. -/
lemma back_base (h : Legs m direction size opening closing there back) :
    back.reserves.base.raw = m.amm.baseReserve.raw := by
  have h₁ := h.there_swapped.newBase
  have h₂ := h.back_swapped.newBase
  rw [h.there_base, h₁, Direction.sign_swap, Direction.sign_swap, Direction.sign_opposite] at h₂
  rw [h₂]
  ring

/-- A round trip pays the difference of the values that its legs moved, each truncated, less the one
unit that the long leg is charged and the surpluses. -/
lemma total_eq (h : Legs m direction size opening closing there back) (hpeg : 0 < m.amm.peg.raw) :
    roundTripTotal opening closing =
      (longLeg m direction opening closing + reserveLost m closing * m.amm.peg.raw) / quoteUnit
        - longLeg m direction opening closing / quoteUnit
        - (1 + opening.surplus.raw + closing.surplus.raw) := by
  have h₁ := h.there_swapped.quote_eq
  have h₂ := h.back_swapped.quote_eq
  rw [Int.tdiv_eq_ediv_of_nonneg (h.there_swapped.moved_nonneg hpeg.le)] at h₁
  rw [Int.tdiv_eq_ediv_of_nonneg
    (h.back_swapped.moved_nonneg (by rw [h.peg]; exact hpeg.le))] at h₂
  have hopened := h.opened
  have hclosed := h.closed
  simp only [Amm.moved, h.peg, h.there_quote] at h₁ h₂
  cases direction with
  | long =>
    simp only [Direction.sign, Direction.swap, Direction.opposite, SwapDirection.sign,
      SwapDirection.charge] at h₁ h₂ hopened hclosed
    simp only [roundTripTotal, longLeg, reserveLost, h.there_quote, h.back_quote]
    have hshort : (there.reserves.quote.raw - m.amm.quoteReserve.raw) * m.amm.peg.raw
        + (m.amm.quoteReserve.raw - back.reserves.quote.raw) * m.amm.peg.raw
        = 1 * (there.reserves.quote.raw - back.reserves.quote.raw) * m.amm.peg.raw := by ring
    have hlong : (there.reserves.quote.raw - m.amm.quoteReserve.raw) * m.amm.peg.raw
        = -1 * (m.amm.quoteReserve.raw - there.reserves.quote.raw) * m.amm.peg.raw := by ring
    rw [hshort, hlong]
    omega
  | short =>
    simp only [Direction.sign, Direction.swap, Direction.opposite, SwapDirection.sign,
      SwapDirection.charge] at h₁ h₂ hopened hclosed
    simp only [roundTripTotal, longLeg, reserveLost, h.there_quote, h.back_quote]
    have hshort : (back.reserves.quote.raw - there.reserves.quote.raw) * m.amm.peg.raw
        + (m.amm.quoteReserve.raw - back.reserves.quote.raw) * m.amm.peg.raw
        = 1 * (m.amm.quoteReserve.raw - there.reserves.quote.raw) * m.amm.peg.raw := by ring
    have hlong : (back.reserves.quote.raw - there.reserves.quote.raw) * m.amm.peg.raw
        = -1 * (there.reserves.quote.raw - back.reserves.quote.raw) * m.amm.peg.raw := by ring
    rw [hshort, hlong]
    omega

/-- A round trip does not pay exactly when the two truncations that it gains from stay below the
charge, the truncated rest of the long leg, and the surpluses. -/
lemma total_nonpos_iff (h : Legs m direction size opening closing there back)
    (hpeg : 0 < m.amm.peg.raw) :
    roundTripTotal opening closing ≤ 0 ↔
      longLeg m direction opening closing % quoteUnit + reserveLost m closing * m.amm.peg.raw
        < (2 + opening.surplus.raw + closing.surplus.raw) * quoteUnit := by
  rw [h.total_eq hpeg, sub_nonpos, ediv_add_sub_le_iff quoteUnit_pos,
    show 1 + opening.surplus.raw + closing.surplus.raw + 1 =
      2 + opening.surplus.raw + closing.surplus.raw by ring]

/-- The charge covers what the pool is short of if that is worth one quote unit at most. -/
lemma total_nonpos_of_lost_le (h : Legs m direction size opening closing there back)
    (hpeg : 0 < m.amm.peg.raw) (hlost : reserveLost m closing * m.amm.peg.raw ≤ quoteUnit) :
    roundTripTotal opening closing ≤ 0 := by
  rw [h.total_nonpos_iff hpeg]
  obtain ⟨h₁, h₂⟩ := h.surpluses_nonneg
  have hrest := Int.emod_lt_of_pos (longLeg m direction opening closing) quoteUnit_pos
  have hsurplus := mul_nonneg (add_nonneg h₁ h₂) quoteUnit_pos.le
  linarith

/-- A position that a round trip opens and closes realizes what the trip pays. -/
lemma realizedPnl_eq (h : Legs m direction size opening closing there back)
    {index : MarketIndex} {u v : PositionUpdate}
    (hu : (PerpPosition.new index).apply opening.delta = .ok u)
    (hv : u.position.apply closing.delta = .ok v) :
    v.realizedPnl.raw = roundTripTotal opening closing := by
  have hopen : opening.delta.base.raw ≠ 0 := by
    have hsize := h.there_swapped.amount_pos
    have hbase := h.opened_base
    cases direction with
    | long => simp only [Direction.sign] at hbase; omega
    | short => simp only [Direction.sign] at hbase; omega
  obtain ⟨hbase, hentry⟩ := PerpPosition.entry_of_open hu hopen
  rw [PerpPosition.realizedPnl_of_close hv (by rw [hbase]; exact hopen)
    (by rw [hbase]; exact h.closed_base), hentry, roundTripTotal, add_comm]

lemma lost_bounds (h : Legs m direction size opening closing there back) :
    m.amm.baseReserve.raw * m.amm.quoteReserve.raw % there.reserves.base.raw
        ≤ reserveLost m closing * m.amm.baseReserve.raw ∧
      reserveLost m closing * m.amm.baseReserve.raw
        < m.amm.baseReserve.raw * m.amm.quoteReserve.raw % there.reserves.base.raw
          + m.amm.baseReserve.raw := by
  obtain ⟨hle, hlt⟩ := h.back_swapped.invariant_bounds
  rw [h.back_base, h.there_base, h.there_quote, h.there_swapped.newQuote] at hle hlt
  have hrem := Int.mul_ediv_add_emod (m.amm.baseReserve.raw * m.amm.quoteReserve.raw)
    there.reserves.base.raw
  rw [reserveLost, h.back_quote]
  constructor
  · linarith
  · linarith

/-- A long that closes leaves the pool short of one unit at most, a short of no more than the base
reserve of two. -/
lemma lost_le (h : Legs m direction size opening closing there back) :
    (direction = .long → reserveLost m closing ≤ 1) ∧
      (direction = .short → size.raw ≤ m.amm.baseReserve.raw → reserveLost m closing ≤ 2) := by
  obtain ⟨-, hlt⟩ := h.lost_bounds
  have hb := h.there_swapped.base_pos
  have hnew := h.there_swapped.newBase
  have hrem := Int.emod_lt_of_pos (m.amm.baseReserve.raw * m.amm.quoteReserve.raw)
    h.there_swapped.newBase_pos
  constructor
  · rintro rfl
    have hsize := h.there_swapped.amount_pos
    simp only [Direction.swap, SwapDirection.sign] at hnew
    by_contra hc
    have := mul_le_mul_of_nonneg_right (show 2 ≤ reserveLost m closing by omega) hb.le
    linarith
  · rintro rfl hsize
    simp only [Direction.swap, SwapDirection.sign] at hnew
    by_contra hc
    have := mul_le_mul_of_nonneg_right (show 3 ≤ reserveLost m closing by omega) hb.le
    linarith

end Legs

end RoundTrip

/-- **When a round trip does not pay the user.** What the long leg truncated and the value of the
quote reserve that the pool is short of have to stay below two quote units and the surpluses. The
pool is short of the remainder of the first swap over its base reserve, rounded up; as long as that
is worth one quote unit at most, no trip pays. -/
theorem round_trip_never_profits_iff (hm : m.amm.Steady)
    (h : m.RoundTrip direction size opening closing) :
    (roundTripTotal opening closing ≤ 0 ↔
        longLeg m direction opening closing % 10 ^ 9 + reserveLost m closing * m.amm.peg.raw
          < (2 + opening.surplus.raw + closing.surplus.raw) * 10 ^ 9) ∧
      (let b := m.amm.baseReserve.raw
      let remainder := b * m.amm.quoteReserve.raw % opening.market.amm.baseReserve.raw
      remainder ≤ reserveLost m closing * b ∧ reserveLost m closing * b < remainder + b) ∧
      (reserveLost m closing * m.amm.peg.raw ≤ 10 ^ 9 → roundTripTotal opening closing ≤ 0) ∧
      (direction = .long → m.amm.peg.raw ≤ 10 ^ 9 → roundTripTotal opening closing ≤ 0) ∧
      (direction = .short → size.raw ≤ m.amm.baseReserve.raw → 2 * m.amm.peg.raw ≤ 10 ^ 9 →
        roundTripTotal opening closing ≤ 0) ∧
      ∀ index u v, (PerpPosition.new index).apply opening.delta = .ok u →
        u.position.apply closing.delta = .ok v →
        v.realizedPnl.raw = roundTripTotal opening closing := by
  obtain ⟨there, back, hl⟩ := h.legs hm
  have hpeg := hm.peg_pos
  obtain ⟨hlong, hshort⟩ := hl.lost_le
  refine ⟨hl.total_nonpos_iff hpeg, by rw [hl.there_base]; exact hl.lost_bounds,
    hl.total_nonpos_of_lost_le hpeg, ?_, ?_, fun index u v hu hv => hl.realizedPnl_eq hu hv⟩
  · intro hdirection hworth
    have := mul_le_mul_of_nonneg_right (hlong hdirection) hpeg.le
    exact hl.total_nonpos_of_lost_le hpeg (by rw [quoteUnit]; linarith)
  · intro hdirection hsize hworth
    have := mul_le_mul_of_nonneg_right (hshort hdirection hsize) hpeg.le
    exact hl.total_nonpos_of_lost_le hpeg (by rw [quoteUnit]; linarith)

theorem round_trip_never_profits_iff_even : (even Fixed.one).amm.Steady ∧
    ∃ opening closing, (even Fixed.one).RoundTrip .long Fixed.one opening closing ∧
      roundTripTotal opening closing ≤ 0 := by
  have hm : (even Fixed.one).amm.Steady := by constructor <;> decide
  have htrip : ∃ opening closing,
      (even Fixed.one).RoundTrip .long Fixed.one opening closing :=
    ⟨_, _, ⟨.of Fixed.one, rfl⟩, ⟨.of Fixed.one, rfl⟩, rfl, rfl⟩
  obtain ⟨opening, closing, h⟩ := htrip
  exact ⟨hm, opening, closing, h, (round_trip_never_profits_iff hm h).2.2.2.1 rfl (by decide)⟩

/-- At a peg where a unit of the quote reserve is worth sixty quote units, opening and closing one
base pays fifty-nine. -/
theorem round_trip_profits_at_large_peg : (even (.ofRaw 60000000000)).amm.Steady ∧
    ∃ opening closing,
      (even (.ofRaw 60000000000)).RoundTrip .long Fixed.one opening closing ∧
        opening.delta.quote.raw = -60000120001 ∧ closing.delta.quote.raw = 60000120060 ∧
        ¬roundTripTotal opening closing ≤ 0 := by
  refine ⟨by constructor <;> decide, _, _, ⟨⟨.of (.ofRaw 60000000000), rfl⟩,
    ⟨.of (.ofRaw 60000000000), rfl⟩, rfl, rfl⟩, by decide, by decide, by decide⟩

end PerpMarket

end PerpExchange
