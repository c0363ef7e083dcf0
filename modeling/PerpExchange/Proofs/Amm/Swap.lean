import Mathlib.Algebra.Order.Ring.Abs
import PerpExchange.Amm.Swap
import PerpExchange.Proofs.Number.Fixed

/-!
What a swap does to a pool, as facts about the stored integers.

The base reserve moves by exactly the amount and the quote reserve is the floor of the invariant
over the new base reserve, so it moves the other way. The quote is the value of that move at the
peg, truncated, and one unit more for whoever takes base out.
-/

namespace PerpExchange

namespace SwapDirection

/-- What adding does to the base reserve, per unit of base. -/
def sign : SwapDirection → ℤ
  | .add => 1
  | .remove => -1

/-- The units of quote that are charged on top of the truncated value. -/
def charge : SwapDirection → ℤ
  | .add => 0
  | .remove => 1

end SwapDirection

/-- Quote reserve units at a peg make up one unit of quote when their product is this. -/
def quoteUnit : ℤ := 10 ^ 9

lemma quoteUnit_pos : 0 < quoteUnit := by norm_num [quoteUnit]

@[simp] lemma Reserves.check_eq_ok {r : Reserves} {u : Unit} :
    r.check = .ok u ↔ 0 < r.base.raw ∧ 0 < r.quote.raw := by
  simp [Reserves.check]

lemma Reserves.price_eq_ok {r : Reserves} {peg : Peg} {price : Price}
    (h : r.price peg = .ok price) :
    (0 < r.base.raw ∧ 0 < r.quote.raw) ∧ price.raw = (r.quote.raw * peg.raw).tdiv r.base.raw := by
  simp only [Reserves.price, bind_eq_ok, Reserves.check_eq_ok, Fixed.mulDiv, Fixed.mul_eq_ok,
    Product.divTo_eq_ok (p := .quoteReserve) (q := .peg) (d := .base) (r := .price) rfl] at h
  obtain ⟨-, hpos, product, hproduct, -, hprice⟩ := h
  exact ⟨hpos, by rw [hprice, hproduct]⟩

/-- Prices compare as the exact ratios of the reserves do. -/
lemma Reserves.price_le {r s : Reserves} {peg : Peg} {p q : Price} (hp : r.price peg = .ok p)
    (hq : s.price peg = .ok q) (hpeg : 0 ≤ peg.raw)
    (h : r.quote.raw * s.base.raw ≤ s.quote.raw * r.base.raw) : p.raw ≤ q.raw := by
  obtain ⟨⟨hrb, hrq⟩, hp⟩ := Reserves.price_eq_ok hp
  obtain ⟨⟨hsb, hsq⟩, hq⟩ := Reserves.price_eq_ok hq
  rw [hp, hq, Int.tdiv_eq_ediv_of_nonneg (mul_nonneg hrq.le hpeg),
    Int.tdiv_eq_ediv_of_nonneg (mul_nonneg hsq.le hpeg)]
  refine Rounding.ediv_le_ediv_of_mul_le hrb hsb ?_
  calc r.quote.raw * peg.raw * s.base.raw = r.quote.raw * s.base.raw * peg.raw := by ring
    _ ≤ s.quote.raw * r.base.raw * peg.raw := mul_le_mul_of_nonneg_right h hpeg
    _ = s.quote.raw * peg.raw * r.base.raw := by ring

lemma reserveToQuote_eq_ok {reserve : QuoteReserve} {peg : Peg} {quote : QuoteAmount} :
    reserveToQuote reserve peg = .ok quote ↔
      Fits (reserve.raw * peg.raw) ∧ quote.raw = (reserve.raw * peg.raw).tdiv quoteUnit := by
  simp only [reserveToQuote, bind_eq_ok, Fixed.mul_eq_ok,
    Product.rescale_eq_ok (n := 9) (p := .quoteReserve) (q := .peg) (r := .quote) rfl (by norm_num)]
  constructor
  · rintro ⟨x, hx, h⟩
    exact ⟨hx ▸ x.fits, by rw [h, hx]; rfl⟩
  · rintro ⟨hfits, h⟩
    exact ⟨⟨_, hfits⟩, rfl, h⟩

namespace Amm

variable {a : Amm} {amount : BaseAmount} {direction : SwapDirection} {s : Swap}

@[simp] lemma invariant_eq_ok {k : Product .base .quoteReserve} :
    a.invariant = .ok k ↔ (0 < a.baseReserve.raw ∧ 0 < a.quoteReserve.raw) ∧
      k.raw = a.baseReserve.raw * a.quoteReserve.raw := by
  simp [invariant, reserves]

lemma baseAfter_eq_ok {base : BaseAmount} :
    a.baseAfter amount direction = .ok base ↔
      (direction = .remove → amount.raw < a.baseReserve.raw) ∧
        base.raw = a.baseReserve.raw + direction.sign * amount.raw := by
  cases direction with
  | add => simp [baseAfter, SwapDirection.sign]
  | remove =>
    simp [baseAfter, SwapDirection.sign, Fixed.lt_def]
    omega

lemma quoteFor_eq_ok {newQuote : QuoteReserve} {quote : QuoteAmount}
    (h : a.quoteFor newQuote direction = .ok quote) :
    quote.raw = (|newQuote.raw - a.quoteReserve.raw| * a.peg.raw).tdiv quoteUnit
      + direction.charge := by
  simp only [quoteFor, bind_eq_ok, Fixed.sub_eq_ok, Fixed.abs_eq_ok, reserveToQuote_eq_ok] at h
  obtain ⟨difference, hd, delta, hdelta, value, ⟨-, hvalue⟩, h⟩ := h
  rw [hdelta, hd, Int.natCast_natAbs] at hvalue
  cases direction with
  | add =>
    cases h
    rw [hvalue, SwapDirection.charge, add_zero]
  | remove =>
    rw [Fixed.add_eq_ok] at h
    rw [h, hvalue, SwapDirection.charge, Fixed.raw_least]

/-- The exact value of the move of the quote reserve, in parts of a quote unit. It is positive for a
pool with a positive peg, whichever way the swap goes. -/
def moved (a : Amm) (direction : SwapDirection) (s : Swap) : ℤ :=
  direction.sign * (a.quoteReserve.raw - s.reserves.quote.raw) * a.peg.raw

/-- What is known of a swap that was made. -/
structure Swapped (a : Amm) (amount : BaseAmount) (direction : SwapDirection) (s : Swap) :
    Prop where
  amount_pos : 0 < amount.raw
  base_pos : 0 < a.baseReserve.raw
  quote_pos : 0 < a.quoteReserve.raw
  newBase_pos : 0 < s.reserves.base.raw
  newQuote_pos : 0 < s.reserves.quote.raw
  newBase : s.reserves.base.raw = a.baseReserve.raw + direction.sign * amount.raw
  newQuote : s.reserves.quote.raw =
    a.baseReserve.raw * a.quoteReserve.raw / s.reserves.base.raw
  quote_abs : s.quote.raw =
    (|s.reserves.quote.raw - a.quoteReserve.raw| * a.peg.raw).tdiv quoteUnit + direction.charge

lemma swapped_of_swapBase (h : a.swapBase amount direction = .ok s) :
    a.Swapped amount direction s := by
  simp only [swapBase, bind_eq_ok, Failure.liftM_violation_eq_ok, Failure.liftM_refusal_eq_ok,
    Refusal.guard_eq_ok, Violation.guard_eq_ok, pure_eq_ok, invariant_eq_ok, baseAfter_eq_ok,
    Product.divTo_eq_ok (p := .base) (q := .quoteReserve) (d := .base) (r := .quoteReserve) rfl]
    at h
  obtain ⟨-, hamount, k, ⟨⟨hb, hq⟩, hk⟩, base, ⟨hlt, hbase⟩, newQuote, ⟨-, hnew⟩, -, hpos, quote,
    hquote, rfl⟩ := h
  have hbase_pos : 0 < base.raw := by
    cases direction with
    | add => simp only [SwapDirection.sign] at hbase; omega
    | remove => have := hlt rfl; simp only [SwapDirection.sign] at hbase; omega
  have hk_nonneg : 0 ≤ k.raw := hk ▸ (mul_pos hb hq).le
  exact {
    amount_pos := hamount
    base_pos := hb
    quote_pos := hq
    newBase_pos := hbase_pos
    newQuote_pos := hpos
    newBase := hbase
    newQuote := by rw [hnew, Int.tdiv_eq_ediv_of_nonneg hk_nonneg, hk]
    quote_abs := quoteFor_eq_ok hquote }

lemma invariant_of_swapBase (h : a.swapBase amount direction = .ok s) :
    ∃ k, a.invariant = .ok k := by
  simp only [swapBase, bind_eq_ok, Failure.liftM_violation_eq_ok] at h
  obtain ⟨-, -, k, hk, -⟩ := h
  exact ⟨k, hk⟩

namespace Swapped

/-- The pool keeps to its curve from below, by less than one unit of the quote reserve. -/
lemma invariant_bounds (h : a.Swapped amount direction s) :
    s.reserves.base.raw * s.reserves.quote.raw ≤ a.baseReserve.raw * a.quoteReserve.raw ∧
      a.baseReserve.raw * a.quoteReserve.raw
        < s.reserves.base.raw * s.reserves.quote.raw + s.reserves.base.raw := by
  have h1 := Int.mul_ediv_self_le (x := a.baseReserve.raw * a.quoteReserve.raw)
    h.newBase_pos.ne'
  have h2 := Int.lt_mul_ediv_self_add (x := a.baseReserve.raw * a.quoteReserve.raw) h.newBase_pos
  rw [← h.newQuote] at h1 h2
  exact ⟨h1, h2⟩

/-- The quote reserve grows when base is taken out and shrinks when base is put in. -/
lemma quote_move_nonneg (h : a.Swapped amount direction s) :
    0 ≤ direction.sign * (a.quoteReserve.raw - s.reserves.quote.raw) := by
  have hb := h.newBase
  have hs := h.amount_pos
  have hq := h.quote_pos
  obtain ⟨h1, h2⟩ := h.invariant_bounds
  cases direction with
  | add =>
    simp only [SwapDirection.sign] at hb ⊢
    have : s.reserves.quote.raw ≤ a.quoteReserve.raw := by
      by_contra hc
      have h3 := mul_le_mul_of_nonneg_left (show a.quoteReserve.raw + 1 ≤ s.reserves.quote.raw by
        omega) h.newBase_pos.le
      nlinarith
    omega
  | remove =>
    simp only [SwapDirection.sign] at hb ⊢
    have : a.quoteReserve.raw ≤ s.reserves.quote.raw := by
      by_contra hc
      have h3 := mul_le_mul_of_nonneg_left (show s.reserves.quote.raw + 1 ≤ a.quoteReserve.raw by
        omega) h.newBase_pos.le
      nlinarith
    omega

/-- The ratio of the reserves rises when base is taken out and falls when base is put in. -/
lemma ratio_move_nonneg (h : a.Swapped amount direction s) :
    0 ≤ direction.sign * (a.quoteReserve.raw * s.reserves.base.raw
      - s.reserves.quote.raw * a.baseReserve.raw) := by
  have hb := h.newBase
  have hamount := h.amount_pos
  have hmove := h.quote_move_nonneg
  cases direction with
  | add =>
    simp only [SwapDirection.sign] at hb hmove ⊢
    have := mul_le_mul (show s.reserves.quote.raw ≤ a.quoteReserve.raw by omega)
      (show a.baseReserve.raw ≤ s.reserves.base.raw by omega) h.base_pos.le h.quote_pos.le
    omega
  | remove =>
    simp only [SwapDirection.sign] at hb hmove ⊢
    have := mul_le_mul (show a.quoteReserve.raw ≤ s.reserves.quote.raw by omega)
      (show s.reserves.base.raw ≤ a.baseReserve.raw by omega) h.newBase_pos.le h.newQuote_pos.le
    omega

lemma quote_eq (h : a.Swapped amount direction s) :
    s.quote.raw = (a.moved direction s).tdiv quoteUnit + direction.charge := by
  have habs : |s.reserves.quote.raw - a.quoteReserve.raw| =
      direction.sign * (a.quoteReserve.raw - s.reserves.quote.raw) := by
    have hmove := h.quote_move_nonneg
    cases direction with
    | add =>
      simp only [SwapDirection.sign] at hmove ⊢
      rw [abs_of_nonpos (by omega)]
      ring
    | remove =>
      simp only [SwapDirection.sign] at hmove ⊢
      rw [abs_of_nonneg (by omega)]
      ring
  rw [h.quote_abs, habs, moved]

lemma abs_moved (h : a.Swapped amount direction s) :
    |a.moved direction s| =
      direction.sign * (a.quoteReserve.raw - s.reserves.quote.raw) * |a.peg.raw| := by
  rw [moved, abs_mul, abs_of_nonneg h.quote_move_nonneg]

lemma moved_nonneg (h : a.Swapped amount direction s) (hpeg : 0 ≤ a.peg.raw) :
    0 ≤ a.moved direction s :=
  mul_nonneg h.quote_move_nonneg hpeg

/-- What the taker receives, or pays if it is negative, is the value of the quote reserve that left
the pool, rounded down to a unit of quote. -/
lemma value_bounds (h : a.Swapped amount direction s) (hpeg : 0 ≤ a.peg.raw) :
    (a.quoteReserve.raw - s.reserves.quote.raw) * a.peg.raw - quoteUnit ≤
        quoteUnit * (direction.sign * s.quote.raw) ∧
      quoteUnit * (direction.sign * s.quote.raw) ≤
        (a.quoteReserve.raw - s.reserves.quote.raw) * a.peg.raw := by
  have hquote := h.quote_eq
  rw [Int.tdiv_eq_ediv_of_nonneg (h.moved_nonneg hpeg)] at hquote
  have hle := Int.mul_ediv_self_le (x := a.moved direction s) quoteUnit_pos.ne'
  have hlt := Int.lt_mul_ediv_self_add (x := a.moved direction s) quoteUnit_pos
  have hmoved : a.moved direction s =
      direction.sign * ((a.quoteReserve.raw - s.reserves.quote.raw) * a.peg.raw) := by
    unfold moved; ring
  rw [hquote]
  cases direction with
  | add =>
    simp only [SwapDirection.sign, SwapDirection.charge] at hmoved ⊢
    constructor <;> linarith
  | remove =>
    simp only [SwapDirection.sign, SwapDirection.charge] at hmoved ⊢
    constructor <;> linarith

end Swapped

end Amm

end PerpExchange
