import PerpExchange.Amm.Quoting
import PerpExchange.Proofs.Amm.Swap

/-!
What takers are quoted, against what the pool moves.

The spread reserves lie on the far side of the pool's own for either direction, so the same trade
never costs less, or pays more, on them than on the pool. The size that a limit leaves ends where
the curve meets the limit, up to the floor of a square root.
-/

namespace PerpExchange

namespace Direction

@[simp] lemma sign_swap (d : Direction) : d.swap.sign = -d.sign := by cases d <;> rfl

@[simp] lemma sign_opposite (d : Direction) : d.opposite.sign = -d.sign := by cases d <;> rfl

end Direction

namespace Amm

variable {a : Amm} {direction : Direction} {r : Reserves}

/-! ### Spread reserves -/

lemma quoteShift_eq_ok {shift : QuoteReserve} (h : a.quoteShift direction = .ok shift) :
    shift.raw = ((a.quoteReserve.raw * (a.spreadOf direction).raw).tdiv (10 ^ 6)).tdiv 2 := by
  simp only [quoteShift, bind_eq_ok, Fixed.mul_eq_ok, Fixed.divInt_eq_ok,
    Product.rescale_eq_ok (n := 6) (p := .quoteReserve) (q := .spread) (r := .quoteReserve) rfl
      (by norm_num)] at h
  obtain ⟨product, hproduct, share, hshare, -, hshift⟩ := h
  rw [hshift, hshare, hproduct]

lemma quoteShift_nonneg {shift : QuoteReserve} (h : a.quoteShift direction = .ok shift)
    (hq : 0 ≤ a.quoteReserve.raw) (hspread : 0 ≤ (a.spreadOf direction).raw) : 0 ≤ shift.raw := by
  rw [quoteShift_eq_ok h]
  exact Int.tdiv_nonneg (Int.tdiv_nonneg (mul_nonneg hq hspread) (by norm_num)) (by norm_num)

def spreadRounding : Direction → Rounding
  | .long => .truncate
  | .short => .ceil

lemma spreadReserves_eq_ok (h : a.spreadReserves direction = .ok r) :
    (0 < a.baseReserve.raw ∧ 0 < a.quoteReserve.raw) ∧
      ∃ shift, a.quoteShift direction = .ok shift ∧
        r.quote.raw = a.quoteReserve.raw + direction.sign * shift.raw ∧
        (direction = .short → 0 < r.quote.raw) ∧
        r.base.raw = (spreadRounding direction).quotient
          (a.baseReserve.raw * a.quoteReserve.raw) r.quote.raw := by
  cases direction with
  | long =>
    simp only [spreadReserves, bind_eq_ok, invariant_eq_ok, Fixed.add_eq_ok, pure_eq_ok,
      Product.divTo_eq_ok (p := .base) (q := .quoteReserve) (d := .quoteReserve) (r := .base) rfl]
      at h
    obtain ⟨k, ⟨hpos, hk⟩, shift, hshift, quote, hquote, base, ⟨-, hbase⟩, rfl⟩ := h
    exact ⟨hpos, shift, hshift, by rw [hquote, Direction.sign, one_mul], by simp,
      by rw [hbase, hk]; rfl⟩
  | short =>
    simp only [spreadReserves, bind_eq_ok, invariant_eq_ok, Fixed.sub_eq_ok, pure_eq_ok,
      Violation.guard_eq_ok,
      Product.divToCeil_eq_ok (p := .base) (q := .quoteReserve) (d := .quoteReserve) (r := .base)
        rfl] at h
    obtain ⟨k, ⟨hpos, hk⟩, shift, hshift, quote, hquote, -, hquote_pos, base, ⟨-, hbase⟩, rfl⟩ := h
    exact ⟨hpos, shift, hshift, by rw [hquote, Direction.sign]; ring, fun _ => hquote_pos,
      by rw [hbase, hk]; rfl⟩

/-- Reserves on the far side of the pool's own for a taker of this direction: for a long, more quote
and less base. -/
structure Behind (a : Amm) (direction : Direction) (r : Reserves) : Prop where
  quote : 0 ≤ direction.sign * (r.quote.raw - a.quoteReserve.raw)
  base : 0 ≤ direction.sign * (a.baseReserve.raw - r.base.raw)

/-- Spreads that are not negative quote takers from behind the pool. -/
lemma behind_of_spreadReserves (h : a.spreadReserves direction = .ok r)
    (hspread : 0 ≤ (a.spreadOf direction).raw) : a.Behind direction r := by
  obtain ⟨⟨hb, hq⟩, shift, hshift, hquote, hpos, hbase⟩ := spreadReserves_eq_ok h
  have hs := quoteShift_nonneg hshift hq.le hspread
  cases direction with
  | long =>
    simp only [Direction.sign, spreadRounding, Rounding.quotient] at hquote hbase
    have hle : r.base.raw ≤ a.baseReserve.raw := by
      rw [hbase, Int.tdiv_eq_ediv_of_nonneg (mul_pos hb hq).le]
      refine Int.ediv_le_of_le_mul (by omega) ?_
      exact mul_le_mul_of_nonneg_left (by omega) hb.le
    constructor
    · simp only [Direction.sign]; omega
    · simp only [Direction.sign]; omega
  | short =>
    have hquote_pos := hpos rfl
    simp only [Direction.sign, spreadRounding] at hquote hbase
    have hceil := (Rounding.ceil_quotient_bounds (a.baseReserve.raw * a.quoteReserve.raw)
      hquote_pos).1
    rw [← hbase] at hceil
    have hle : a.baseReserve.raw ≤ r.base.raw := by
      by_contra hc
      have h1 : r.base.raw * r.quote.raw ≤ (a.baseReserve.raw - 1) * r.quote.raw :=
        mul_le_mul_of_nonneg_right (by omega) hquote_pos.le
      nlinarith
    constructor
    · simp only [Direction.sign]; omega
    · simp only [Direction.sign]; omega

/-! ### The same trade on two sets of reserves -/

section Behind

variable {amount : BaseAmount} {quoted real : Swap}

/-- From behind the pool, the quote reserve moves further for a long and less far for a short. -/
lemma Behind.quote_move_le (hr : a.Behind direction r)
    (hquoted : (a.withReserves r).Swapped amount direction.swap quoted)
    (hreal : a.Swapped amount direction.swap real) :
    0 ≤ direction.sign * (direction.swap.sign * (r.quote.raw - quoted.reserves.quote.raw)
      - direction.swap.sign * (a.quoteReserve.raw - real.reserves.quote.raw)) := by
  have hamount := hreal.amount_pos
  have hmove := hreal.quote_move_nonneg
  obtain ⟨hcurve, -⟩ := hreal.invariant_bounds
  have hreal_base := hreal.newBase
  have hbase := hquoted.newBase
  have hpos := hquoted.newBase_pos
  have hnew := hquoted.newQuote
  have hq := hr.quote
  have hb := hr.base
  simp only [baseReserve_withReserves, quoteReserve_withReserves] at hbase hnew
  cases direction with
  | long =>
    simp only [Direction.sign, Direction.swap, SwapDirection.sign] at *
    -- the pool's own move `d`, held against the smaller base reserve that quotes the taker
    obtain ⟨d, hd⟩ : ∃ d, d = real.reserves.quote.raw - a.quoteReserve.raw := ⟨_, rfl⟩
    have hbehind : d * quoted.reserves.base.raw ≤ d * real.reserves.base.raw :=
      mul_le_mul_of_nonneg_left (by omega) (by omega)
    have hown : d * real.reserves.base.raw ≤ a.quoteReserve.raw * amount.raw := by
      rw [show real.reserves.quote.raw = a.quoteReserve.raw + d by omega, hreal_base] at hcurve
      rw [hreal_base]
      linarith
    have hmore : a.quoteReserve.raw * amount.raw ≤ r.quote.raw * amount.raw :=
      mul_le_mul_of_nonneg_right (by omega) hamount.le
    have hle : r.quote.raw + d ≤ quoted.reserves.quote.raw := by
      rw [hnew]
      refine Int.le_ediv_of_mul_le hpos ?_
      rw [show r.base.raw = quoted.reserves.base.raw + amount.raw by omega]
      linarith
    omega
  | short =>
    simp only [Direction.sign, Direction.swap, SwapDirection.sign] at *
    obtain ⟨d, hd⟩ : ∃ d, d = a.quoteReserve.raw - real.reserves.quote.raw := ⟨_, rfl⟩
    have hbehind : d * real.reserves.base.raw ≤ d * quoted.reserves.base.raw :=
      mul_le_mul_of_nonneg_left (by omega) (by omega)
    have hown : a.quoteReserve.raw * amount.raw ≤ d * real.reserves.base.raw := by
      rw [show real.reserves.quote.raw = a.quoteReserve.raw - d by omega, hreal_base] at hcurve
      rw [hreal_base]
      linarith
    have hless : r.quote.raw * amount.raw ≤ a.quoteReserve.raw * amount.raw :=
      mul_le_mul_of_nonneg_right (by omega) hamount.le
    have hle : r.quote.raw - d ≤ quoted.reserves.quote.raw := by
      rw [hnew]
      refine Int.le_ediv_of_mul_le hpos ?_
      rw [show r.base.raw = quoted.reserves.base.raw - amount.raw by omega]
      linarith
    omega

/-- **A taker is never quoted better than the pool moves.** A long pays at least the real swap's
quote from behind the pool, and a short receives at most that. -/
theorem Behind.quote_le (hr : a.Behind direction r)
    (hquoted : (a.withReserves r).Swapped amount direction.swap quoted)
    (hreal : a.Swapped amount direction.swap real) (hpeg : 0 ≤ a.peg.raw) :
    0 ≤ direction.sign * (quoted.quote.raw - real.quote.raw) := by
  have hmove := mul_le_mul_of_nonneg_right (hr.quote_move_le hquoted hreal) hpeg
  have hq := hquoted.quote_eq
  have hp := hreal.quote_eq
  cases direction with
  | long =>
    have hle : a.moved .remove real ≤ (a.withReserves r).moved .remove quoted := by
      simp only [moved, Direction.sign, Direction.swap, quoteReserve_withReserves,
        peg_withReserves] at hmove ⊢
      linarith
    have := Int.tdiv_le_tdiv quoteUnit_pos hle
    simp only [Direction.sign, Direction.swap] at hq hp ⊢
    omega
  | short =>
    have hle : (a.withReserves r).moved .add quoted ≤ a.moved .add real := by
      simp only [moved, Direction.sign, Direction.swap, quoteReserve_withReserves,
        peg_withReserves] at hmove ⊢
      linarith
    have := Int.tdiv_le_tdiv quoteUnit_pos hle
    simp only [Direction.sign, Direction.swap] at hq hp ⊢
    omega

end Behind

/-! ### Sizes up to a limit -/

/-- `base` is the floor of the base reserve at which the price of the pool is `limit`. -/
structure FloorAt (a : Amm) (limit : Price) (base : ℤ) : Prop where
  base_nonneg : 0 ≤ base
  square_le : base * base * limit.raw ≤ a.baseReserve.raw * a.quoteReserve.raw * |a.peg.raw|
  lt_square : a.baseReserve.raw * a.quoteReserve.raw * |a.peg.raw|
    < (base + 1) * (base + 1) * limit.raw

lemma floorAt_of_baseAtPrice {limit : Price} {base : BaseAmount}
    (h : a.baseAtPrice limit = .ok base) (hlimit : 0 < limit.raw) : a.FloorAt limit base.raw := by
  simp only [baseAtPrice, bind_eq_ok, invariant_eq_ok, Int128.check_eq_ok, Int128.divide_eq_ok,
    Rounding.quotient, Product.sqrt_eq_ok (p := .base) (q := .base) rfl] at h
  obtain ⟨k, ⟨⟨hb, hq⟩, hk⟩, pegged, hpegged, squared, ⟨-, hsquared⟩, hnonneg, hbase⟩ := h
  have habs : squared.raw = a.baseReserve.raw * a.quoteReserve.raw * |a.peg.raw| / limit.raw := by
    rw [← abs_of_nonneg hnonneg, hsquared, Rounding.abs_tdiv _ hlimit, hpegged, hk, abs_mul,
      abs_of_pos (mul_pos hb hq)]
  have hroot := floorRoot_floorSqrt (mul_nonneg (mul_pos hb hq).le (abs_nonneg a.peg.raw)) hlimit
  rw [← habs, ← hbase] at hroot
  exact ⟨hroot.nonneg, hroot.square_le, hroot.lt_square⟩

lemma baseReserve_pos_of_baseAtPrice {limit : Price} {base : BaseAmount}
    (h : a.baseAtPrice limit = .ok base) : 0 < a.baseReserve.raw := by
  simp only [baseAtPrice, bind_eq_ok, invariant_eq_ok] at h
  obtain ⟨-, ⟨⟨hb, -⟩, -⟩, -⟩ := h
  exact hb

/-- The trade goes from the base reserve to the one at the limit, on the side that this lies on. -/
lemma sizeToPrice_cases {limit : Price} {trade : Option (BaseAmount × Direction)}
    (h : a.sizeToPrice limit = .ok trade) :
    ∃ base, a.baseAtPrice limit = .ok base ∧
      ((a.baseReserve.raw < base.raw ∧ ∃ size, trade = some (size, .short) ∧
          size.raw = base.raw - a.baseReserve.raw) ∨
        (base.raw < a.baseReserve.raw ∧ ∃ size, trade = some (size, .long) ∧
          size.raw = a.baseReserve.raw - base.raw) ∨
        (base.raw = a.baseReserve.raw ∧ trade = none)) := by
  simp only [sizeToPrice, bind_eq_ok, Fixed.lt_def] at h
  obtain ⟨base, hbase, h⟩ := h
  refine ⟨base, hbase, ?_⟩
  split_ifs at h with habove hbelow
  · simp only [bind_eq_ok, Fixed.sub_eq_ok, pure_eq_ok] at h
    obtain ⟨size, hsize, rfl⟩ := h
    exact .inl ⟨habove, size, rfl, hsize⟩
  · simp only [bind_eq_ok, Fixed.sub_eq_ok, pure_eq_ok] at h
    obtain ⟨size, hsize, rfl⟩ := h
    exact .inr (.inl ⟨hbelow, size, rfl, hsize⟩)
  · cases h
    exact .inr (.inr ⟨by omega, rfl⟩)

lemma sizeToPrice_eq_ok {limit : Price} {size : BaseAmount}
    (h : a.sizeToPrice limit = .ok (some (size, direction))) :
    0 < size.raw ∧ ∃ base, a.baseAtPrice limit = .ok base ∧
      size.raw = direction.sign * (a.baseReserve.raw - base.raw) := by
  obtain ⟨base, hbase, hcases⟩ := sizeToPrice_cases h
  rcases hcases with ⟨habove, _, heq, hsize⟩ | ⟨hbelow, _, heq, hsize⟩ | ⟨-, heq⟩
  · cases heq
    exact ⟨by omega, base, hbase, by rw [hsize, Direction.sign]; ring⟩
  · cases heq
    exact ⟨by omega, base, hbase, by rw [hsize, Direction.sign]; ring⟩
  · cases heq

end Amm

lemma standardize_of_step_one {amount step : BaseAmount} (h : step.raw = 1) :
    standardize amount step = .ok amount := by
  simp only [standardize, bind_eq_ok, Violation.guard_eq_ok, Fixed.check_eq_ok]
  exact ⟨(), by omega, by rw [h, Int.tmod_one, sub_zero]⟩

lemma standardize_dvd {amount step size : BaseAmount} (h : standardize amount step = .ok size) :
    step.raw ∣ size.raw := by
  simp only [standardize, bind_eq_ok, Violation.guard_eq_ok, Fixed.check_eq_ok] at h
  obtain ⟨-, -, h⟩ := h
  have := Int.mul_tdiv_add_tmod amount.raw step.raw
  exact ⟨amount.raw.tdiv step.raw, by omega⟩

lemma standardize_le {amount step size : BaseAmount} (h : standardize amount step = .ok size)
    (hsize : 0 < size.raw) : size.raw ≤ amount.raw := by
  simp only [standardize, bind_eq_ok, Violation.guard_eq_ok, Fixed.check_eq_ok] at h
  obtain ⟨-, -, h⟩ := h
  have hamount : 0 ≤ amount.raw := by
    by_contra hc
    have hrem : amount.raw.tmod step.raw = -(-amount.raw).tmod step.raw := by
      rw [Int.neg_tmod, neg_neg]
    have hle : ((-amount.raw).tmod step.raw).natAbs ≤ (-amount.raw).natAbs := by
      rw [Int.natAbs_tmod]
      exact Nat.mod_le _ _
    omega
  have := Int.tmod_nonneg step.raw hamount
  omega

/-- A size that is not negative is brought down to the step. -/
lemma raw_standardize {amount step size : BaseAmount} (h : standardize amount step = .ok size)
    (hamount : 0 ≤ amount.raw) : size.raw = amount.raw / step.raw * step.raw := by
  simp only [standardize, bind_eq_ok, Violation.guard_eq_ok, Fixed.check_eq_ok] at h
  obtain ⟨-, -, h⟩ := h
  have := Int.tdiv_mul_add_tmod amount.raw step.raw
  rw [h, ← Int.tdiv_eq_ediv_of_nonneg hamount]
  omega

end PerpExchange
