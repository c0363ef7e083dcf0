import PerpExchange.Proofs.Amm.Swap

/-!
Swaps that are denominated in quote, and the swap of their base back.

The quote is turned into units of the quote reserve at the peg, rounded down, and the base reserve
follows the curve. Whoever puts quote in loses by both roundings, so what they got sells for no more
than they put in. Whoever takes quote out gains by both: the pool gives the quote in full and takes
base for the rounded reserve only. The base then costs less than was paid out as soon as what was
rounded is worth more than the one unit that is charged for taking base out.
-/

namespace PerpExchange

def SwapDirection.baseRounding : SwapDirection → Rounding
  | .add => .ceil
  | .remove => .truncate

namespace Amm

variable {a : Amm} {amount : QuoteAmount} {direction : SwapDirection} {s t : Swap}

/-- The units of the quote reserve that a quote amount is turned into. -/
def reserveFor (a : Amm) (amount : QuoteAmount) : ℤ := amount.raw * quoteUnit / a.peg.raw

def reserveRest (a : Amm) (amount : QuoteAmount) : ℤ := amount.raw * quoteUnit % a.peg.raw

lemma quoteAfter_eq_ok {delta quote : QuoteReserve} :
    a.quoteAfter delta direction = .ok quote ↔
      (direction = .remove → delta.raw < a.quoteReserve.raw) ∧
        quote.raw = a.quoteReserve.raw + direction.sign * delta.raw := by
  cases direction with
  | add => simp [quoteAfter, SwapDirection.sign]
  | remove =>
    simp [quoteAfter, SwapDirection.sign, Fixed.lt_def]
    omega

lemma baseFor_eq_ok {k : Product .base .quoteReserve} {quote : QuoteReserve} {base : BaseAmount} :
    baseFor k quote direction = .ok base ↔
      quote.raw ≠ 0 ∧ base.raw = direction.baseRounding.quotient k.raw quote.raw := by
  cases direction with
  | add => exact Product.divToCeil_eq_ok rfl
  | remove => exact Product.divTo_eq_ok rfl

/-- What is known of a swap that was made for an amount of quote. -/
structure QuoteSwapped (a : Amm) (amount : QuoteAmount) (direction : SwapDirection) (s : Swap) :
    Prop where
  amount_pos : 0 < amount.raw
  base_pos : 0 < a.baseReserve.raw
  quote_pos : 0 < a.quoteReserve.raw
  newBase_pos : 0 < s.reserves.base.raw
  newQuote_pos : 0 < s.reserves.quote.raw
  reserve_nonneg : 0 ≤ a.reserveFor amount
  newQuote : s.reserves.quote.raw = a.quoteReserve.raw + direction.sign * a.reserveFor amount
  newBase : s.reserves.base.raw =
    direction.baseRounding.quotient (a.baseReserve.raw * a.quoteReserve.raw) s.reserves.quote.raw
  base_abs : s.base.raw = |s.reserves.base.raw - a.baseReserve.raw|

lemma quoteSwapped_of_swapQuote (h : a.swapQuote amount direction = .ok s)
    (hpeg : 0 < a.peg.raw) : a.QuoteSwapped amount direction s := by
  simp only [swapQuote, bind_eq_ok, Failure.liftM_violation_eq_ok, Failure.liftM_refusal_eq_ok,
    Refusal.guard_eq_ok, Violation.guard_eq_ok, pure_eq_ok, invariant_eq_ok, quoteAfter_eq_ok,
    baseFor_eq_ok, Fixed.sub_eq_ok, Fixed.abs_eq_ok,
    Fixed.divTo_eq_ok (p := .quote) (q := .peg) (r := .quoteReserve) (n := 9) rfl (by norm_num)] at h
  obtain ⟨-, hamount, k, ⟨⟨hb, hq⟩, hk⟩, delta, ⟨-, -, hdelta⟩, quote, ⟨hlt, hquote⟩, base,
    ⟨-, hbase⟩, -, hpos, moved, hmoved, size, hsize, rfl⟩ := h
  have hunits : 0 ≤ amount.raw * 10 ^ 9 := mul_nonneg hamount.le (by norm_num)
  rw [Int.tdiv_eq_ediv_of_nonneg hunits] at hdelta
  have hdelta_nonneg : 0 ≤ a.reserveFor amount := Int.ediv_nonneg hunits hpeg.le
  change delta.raw = a.reserveFor amount at hdelta
  have hquote_pos : 0 < quote.raw := by
    cases direction with
    | add => simp only [SwapDirection.sign] at hquote; omega
    | remove => have := hlt rfl; simp only [SwapDirection.sign] at hquote; omega
  exact {
    amount_pos := hamount
    base_pos := hb
    quote_pos := hq
    newBase_pos := hpos
    newQuote_pos := hquote_pos
    reserve_nonneg := hdelta_nonneg
    newQuote := by rw [hquote, hdelta]
    newBase := by rw [hbase, hk]
    base_abs := by rw [hsize, hmoved, Int.natCast_natAbs] }

namespace QuoteSwapped

/-- The curve is kept from above when base is handed out and from below when it is taken in, by less
than one unit of base. -/
lemma invariant_bounds (h : a.QuoteSwapped amount direction s) :
    0 ≤ direction.sign * (s.reserves.base.raw * s.reserves.quote.raw
        - a.baseReserve.raw * a.quoteReserve.raw) ∧
      direction.sign * (s.reserves.base.raw * s.reserves.quote.raw
        - a.baseReserve.raw * a.quoteReserve.raw) < s.reserves.quote.raw := by
  have hnew := h.newBase
  cases direction with
  | add =>
    obtain ⟨hle, hlt⟩ := Rounding.ceil_quotient_bounds (a.baseReserve.raw * a.quoteReserve.raw)
      h.newQuote_pos
    simp only [SwapDirection.baseRounding] at hnew
    rw [← hnew] at hle hlt
    simp only [SwapDirection.sign]
    constructor <;> linarith
  | remove =>
    have hk := mul_nonneg h.base_pos.le h.quote_pos.le
    simp only [SwapDirection.baseRounding, Rounding.quotient, Int.tdiv_eq_ediv_of_nonneg hk] at hnew
    have hle := Int.ediv_mul_le (a.baseReserve.raw * a.quoteReserve.raw) h.newQuote_pos.ne'
    have hlt := Int.lt_ediv_add_one_mul_self (a.baseReserve.raw * a.quoteReserve.raw) h.newQuote_pos
    rw [← hnew] at hle hlt
    simp only [SwapDirection.sign]
    constructor <;> linarith

/-- The base reserve shrinks when quote is put in and grows when quote is taken out. -/
lemma base_move_nonneg (h : a.QuoteSwapped amount direction s) :
    0 ≤ direction.sign * (a.baseReserve.raw - s.reserves.base.raw) := by
  have hquote := h.newQuote
  have hreserve := h.reserve_nonneg
  obtain ⟨hle, hlt⟩ := h.invariant_bounds
  cases direction with
  | add =>
    simp only [SwapDirection.sign] at hquote hlt ⊢
    have hkept := mul_le_mul_of_nonneg_left
      (show a.quoteReserve.raw ≤ s.reserves.quote.raw by omega) h.base_pos.le
    have hnext : s.reserves.base.raw * s.reserves.quote.raw <
        (a.baseReserve.raw + 1) * s.reserves.quote.raw := by linarith
    have := lt_of_mul_lt_mul_right hnext h.newQuote_pos.le
    omega
  | remove =>
    simp only [SwapDirection.sign] at hquote hlt ⊢
    have hkept := mul_le_mul_of_nonneg_left
      (show s.reserves.quote.raw ≤ a.quoteReserve.raw by omega) h.base_pos.le
    have hnext : a.baseReserve.raw * s.reserves.quote.raw <
        (s.reserves.base.raw + 1) * s.reserves.quote.raw := by linarith
    have := lt_of_mul_lt_mul_right hnext h.newQuote_pos.le
    omega

lemma base_eq (h : a.QuoteSwapped amount direction s) :
    s.base.raw = direction.sign * (a.baseReserve.raw - s.reserves.base.raw) := by
  have hmove := h.base_move_nonneg
  rw [h.base_abs]
  cases direction with
  | add =>
    simp only [SwapDirection.sign] at hmove ⊢
    rw [abs_of_nonpos (by omega)]
    ring
  | remove =>
    simp only [SwapDirection.sign] at hmove ⊢
    rw [abs_of_nonneg (by omega)]
    ring

/-- Taking quote out takes some base in once the reserve given for it is the share that one more unit
of base has in the quote reserve. -/
lemma base_pos_iff (h : a.QuoteSwapped amount .remove s) :
    0 < s.base.raw ↔ a.quoteReserve.raw ≤ (a.baseReserve.raw + 1) * a.reserveFor amount := by
  have hquote := h.newQuote
  have hbase := h.base_eq
  obtain ⟨hle, hlt⟩ := h.invariant_bounds
  simp only [SwapDirection.sign] at hquote hbase hle hlt
  -- both say that one more unit of base fits under the curve at the new quote reserve
  have hfits : a.quoteReserve.raw ≤ (a.baseReserve.raw + 1) * a.reserveFor amount ↔
      (a.baseReserve.raw + 1) * s.reserves.quote.raw ≤ a.baseReserve.raw * a.quoteReserve.raw := by
    rw [hquote]
    constructor <;> intro hfits <;> linarith
  rw [hfits]
  constructor
  · intro hpos
    have := mul_le_mul_of_nonneg_right
      (show a.baseReserve.raw + 1 ≤ s.reserves.base.raw by omega) h.newQuote_pos.le
    linarith
  · intro hunder
    have hnext : (a.baseReserve.raw + 1) * s.reserves.quote.raw <
        (s.reserves.base.raw + 1) * s.reserves.quote.raw := by linarith
    have := lt_of_mul_lt_mul_right hnext h.newQuote_pos.le
    omega

/-! ### Swapping the base back -/

/-- Swapping the base back brings the base reserve back to where it was. -/
lemma back_base (h : a.QuoteSwapped amount direction s)
    (ht : (a.withReserves s.reserves).Swapped s.base direction t) :
    t.reserves.base.raw = a.baseReserve.raw := by
  have hnew := ht.newBase
  rw [baseReserve_withReserves, h.base_eq] at hnew
  cases direction with
  | add => simp only [SwapDirection.sign] at hnew; omega
  | remove => simp only [SwapDirection.sign] at hnew; omega

/-- The quote of the swap back is the amount, less the value of what was rounded in units of the
quote reserve, and the charge. -/
lemma back_quote (h : a.QuoteSwapped amount direction s)
    (ht : (a.withReserves s.reserves).Swapped s.base direction t) (hpeg : 0 < a.peg.raw) :
    t.quote.raw = amount.raw + direction.charge - Rounding.ceil.quotient
      (a.reserveRest amount
        - direction.sign * (a.quoteReserve.raw - t.reserves.quote.raw) * a.peg.raw) quoteUnit := by
  have hturned := Int.mul_ediv_add_emod (amount.raw * quoteUnit) a.peg.raw
  have hmoved : (a.withReserves s.reserves).moved direction t =
      -(a.reserveRest amount
        - direction.sign * (a.quoteReserve.raw - t.reserves.quote.raw) * a.peg.raw)
      + amount.raw * quoteUnit := by
    have hquote := h.newQuote
    rw [moved, quoteReserve_withReserves, peg_withReserves, hquote, ← hturned, reserveRest,
      reserveFor]
    cases direction <;> simp only [SwapDirection.sign] <;> ring
  rw [ht.quote_eq, Int.tdiv_eq_ediv_of_nonneg (ht.moved_nonneg hpeg.le), hmoved,
    Int.add_mul_ediv_right _ _ quoteUnit_pos.ne', ← Rounding.neg_ceil_quotient _ quoteUnit_pos]
  ring

/-- Base that was handed out for quote, and is sold back, leaves the pool no less quote. -/
lemma back_gains (h : a.QuoteSwapped amount .add s)
    (ht : (a.withReserves s.reserves).Swapped s.base .add t) :
    a.quoteReserve.raw ≤ t.reserves.quote.raw := by
  obtain ⟨hle, -⟩ := h.invariant_bounds
  obtain ⟨-, hlt⟩ := ht.invariant_bounds
  rw [baseReserve_withReserves, quoteReserve_withReserves, h.back_base ht] at hlt
  simp only [SwapDirection.sign] at hle
  have hnext : a.baseReserve.raw * a.quoteReserve.raw <
      a.baseReserve.raw * (t.reserves.quote.raw + 1) := by linarith
  have := lt_of_mul_lt_mul_left hnext h.base_pos.le
  omega

/-- Base that was taken in for quote, and is bought back, leaves the pool short of the remainder of
the first swap over the base reserve, rounded up. -/
lemma back_lost_bounds (h : a.QuoteSwapped amount .remove s)
    (ht : (a.withReserves s.reserves).Swapped s.base .remove t) :
    a.baseReserve.raw * a.quoteReserve.raw % s.reserves.quote.raw
        ≤ (a.quoteReserve.raw - t.reserves.quote.raw) * a.baseReserve.raw ∧
      (a.quoteReserve.raw - t.reserves.quote.raw) * a.baseReserve.raw
        < a.baseReserve.raw * a.quoteReserve.raw % s.reserves.quote.raw + a.baseReserve.raw := by
  obtain ⟨hle, hlt⟩ := ht.invariant_bounds
  have hrest := Int.mul_ediv_add_emod (a.baseReserve.raw * a.quoteReserve.raw) s.reserves.quote.raw
  have hnew := h.newBase
  simp only [SwapDirection.baseRounding, Rounding.quotient,
    Int.tdiv_eq_ediv_of_nonneg (mul_nonneg h.base_pos.le h.quote_pos.le)] at hnew
  rw [baseReserve_withReserves, quoteReserve_withReserves, h.back_base ht] at hle hlt
  rw [← hnew] at hrest
  constructor <;> linarith

/-- The pool is short of one unit at most unless it holds more quote reserve than base. -/
lemma back_lost_le_one (h : a.QuoteSwapped amount .remove s)
    (ht : (a.withReserves s.reserves).Swapped s.base .remove t)
    (hreserves : a.quoteReserve.raw ≤ a.baseReserve.raw) :
    a.quoteReserve.raw - t.reserves.quote.raw ≤ 1 := by
  obtain ⟨-, hlt⟩ := h.back_lost_bounds ht
  have hrest := Int.emod_lt_of_pos (a.baseReserve.raw * a.quoteReserve.raw) h.newQuote_pos
  have hquote := h.newQuote
  have hreserve := h.reserve_nonneg
  simp only [SwapDirection.sign] at hquote
  by_contra hc
  have := mul_le_mul_of_nonneg_right
    (show 2 ≤ a.quoteReserve.raw - t.reserves.quote.raw by omega) h.base_pos.le
  linarith

end QuoteSwapped

/-- **What it takes to undo a swap for quote.** Base that was bought for quote sells for no more than
was paid. Base that was sold for quote costs the amount and one unit more, less the value of what
was rounded: the rest that the peg leaves of the amount, and the quote reserve that the pool is short
of afterwards. So it costs no less than the amount exactly as long as that value is one quote unit at
most. And a sale takes some base exactly if the reserve that is given reaches the share of one more
unit of base. -/
theorem swapQuote_undone_iff (hpeg : 0 < a.peg.raw) :
    (∀ amount s t, a.swapQuote amount .add = .ok s →
      (a.withReserves s.reserves).swapBase s.base .add = .ok t → t.quote.raw ≤ amount.raw) ∧
    ∀ amount s, a.swapQuote amount .remove = .ok s →
      (0 < s.base.raw ↔ a.quoteReserve.raw ≤
        (a.baseReserve.raw + 1) * (amount.raw * 10 ^ 9 / a.peg.raw)) ∧
      ∀ t, (a.withReserves s.reserves).swapBase s.base .remove = .ok t →
        let lost := a.quoteReserve.raw - t.reserves.quote.raw
        let rounded := amount.raw * 10 ^ 9 % a.peg.raw + lost * a.peg.raw
        let remainder := a.baseReserve.raw * a.quoteReserve.raw % s.reserves.quote.raw
        t.quote.raw = amount.raw + 1 - Rounding.ceil.quotient rounded (10 ^ 9) ∧
        (amount.raw ≤ t.quote.raw ↔ rounded ≤ 10 ^ 9) ∧
        (remainder ≤ lost * a.baseReserve.raw ∧
          lost * a.baseReserve.raw < remainder + a.baseReserve.raw) ∧
        ((lost + 1) * a.peg.raw ≤ 10 ^ 9 → amount.raw ≤ t.quote.raw) ∧
        (a.quoteReserve.raw ≤ a.baseReserve.raw → lost ≤ 1) := by
  constructor
  · intro amount s t hs ht
    have h := quoteSwapped_of_swapQuote hs hpeg
    have hback := swapped_of_swapBase ht
    have hgains := h.back_gains hback
    have hrest := Int.emod_nonneg (amount.raw * quoteUnit) hpeg.ne'
    have hgained := mul_nonneg (sub_nonneg.mpr hgains) hpeg.le
    have hrounded : 0 ≤ a.reserveRest amount -
        (SwapDirection.add).sign * (a.quoteReserve.raw - t.reserves.quote.raw) * a.peg.raw := by
      simp only [SwapDirection.sign, reserveRest]
      linarith
    have hcut := Rounding.ceil.quotient_nonneg hrounded quoteUnit_pos
    rw [h.back_quote hback hpeg, SwapDirection.charge]
    omega
  · intro amount s hs
    have h := quoteSwapped_of_swapQuote hs hpeg
    refine ⟨h.base_pos_iff, fun t ht => ?_⟩
    have hback := swapped_of_swapBase ht
    intro lost rounded remainder
    have hcost : t.quote.raw = amount.raw + 1 - Rounding.ceil.quotient rounded (10 ^ 9) := by
      rw [h.back_quote hback hpeg, SwapDirection.charge]
      congr 2
      simp only [SwapDirection.sign, reserveRest, rounded, lost, quoteUnit]
      ring
    have hcovers : amount.raw ≤ t.quote.raw ↔ rounded ≤ 10 ^ 9 := by
      have hceil := Rounding.ceil_quotient_le_iff rounded (c := 1) (b := 10 ^ 9) (by norm_num)
      rw [one_mul] at hceil
      rw [← hceil, hcost]
      omega
    refine ⟨hcost, hcovers, h.back_lost_bounds hback, fun hworth => ?_, h.back_lost_le_one hback⟩
    have hrest := Int.emod_lt_of_pos (amount.raw * 10 ^ 9) hpeg
    rw [hcovers]
    linarith

/-- A pool at a peg where a unit of the quote reserve is worth next to nothing. -/
def fine : Amm := balanced (.ofInt 300000000000000) (.ofRaw 2000003)

theorem swapQuote_undone_iff_fine : 0 < fine.peg.raw ∧ ∃ bought resold sold rebought,
    fine.swapQuote (.ofRaw 7000001) .add = .ok bought ∧
    (fine.withReserves bought.reserves).swapBase bought.base .add = .ok resold ∧
    resold.quote.raw ≤ 7000001 ∧
    fine.swapQuote (.ofRaw 7000001) .remove = .ok sold ∧ 0 < sold.base.raw ∧
    (fine.withReserves sold.reserves).swapBase sold.base .remove = .ok rebought ∧
    7000001 ≤ rebought.quote.raw := by
  have hpeg : 0 < fine.peg.raw := by decide
  obtain ⟨bought, resold, hbought, hresold⟩ : ∃ bought resold,
      fine.swapQuote (.ofRaw 7000001) .add = .ok bought ∧
      (fine.withReserves bought.reserves).swapBase bought.base .add = .ok resold :=
    ⟨_, _, rfl, rfl⟩
  obtain ⟨sold, rebought, hsold, hrebought⟩ : ∃ sold rebought,
      fine.swapQuote (.ofRaw 7000001) .remove = .ok sold ∧
      (fine.withReserves sold.reserves).swapBase sold.base .remove = .ok rebought :=
    ⟨_, _, rfl, rfl⟩
  obtain ⟨hadd, hremove⟩ := swapQuote_undone_iff hpeg
  obtain ⟨htaken, hback⟩ := hremove _ sold hsold
  obtain ⟨-, -, -, hcovers, hlost⟩ := hback rebought hrebought
  have hpeg_eq : fine.peg.raw = 2000003 := rfl
  refine ⟨hpeg, bought, resold, sold, rebought, hbought, hresold, hadd _ bought resold hbought
    hresold, hsold, htaken.mpr (by decide), hrebought, hcovers ?_⟩
  have := hlost (by decide)
  rw [hpeg_eq]
  omega

def coarse : Amm := balanced (.ofInt 700000000000000) (.ofRaw 47000000000)

/-- A single quote unit is paid out for nothing there, and what is sold for a hundred million can be
bought back for seventy-three less. -/
theorem swapQuote_overpays_at_large_peg : 0 < coarse.peg.raw ∧
    (∃ s, coarse.swapQuote Fixed.least .remove = .ok s ∧ ¬0 < s.base.raw) ∧
    ∃ s t, coarse.swapQuote (.ofRaw 100000000) .remove = .ok s ∧ 0 < s.base.raw ∧
      (coarse.withReserves s.reserves).swapBase s.base .remove = .ok t ∧
      t.quote.raw = 99999927 ∧ ¬100000000 ≤ t.quote.raw := by
  refine ⟨by decide, ⟨_, rfl, by decide⟩, _, _, rfl, by decide, rfl, by decide, by decide⟩

end Amm

end PerpExchange
