import Mathlib.Algebra.Order.Field.Basic
import Mathlib.Algebra.Order.Field.Rat
import Mathlib.Tactic.Positivity
import PerpExchange.Market.Prices
import PerpExchange.Oracle.Rails
import PerpExchange.Proofs.Number.Fixed

/-!
When the mark price counts as too far from the oracle.

The spread and the allowed fraction are both cut to millionths, the spread toward zero. So the guard
compares the floors of two exact ratios: it reports every spread that reaches the fraction, and none
that misses it by a millionth.
-/

namespace PerpExchange

variable {oracle : OracleReading} {price : Price} {rails : DivergenceRails} {spread : Percentage}
  {verdict : Bool}

lemma OracleReading.spreadFraction_eq_ok (h : oracle.spreadFraction price = .ok spread) :
    0 < oracle.price.raw ∧
      |spread.raw| = |price.raw - oracle.price.raw| * 10 ^ 6 / oracle.price.raw := by
  simp only [spreadFraction, spreadOf, bind_eq_ok, Failure.liftM_refusal_eq_ok,
    Failure.liftM_violation_eq_ok, Refusal.guard_eq_ok, Fixed.sub_eq_ok,
    Fixed.divTo_eq_ok (p := .price) (q := .price) (r := .percentage) (n := 6) rfl (by norm_num)]
    at h
  obtain ⟨-, hpos, gap, hgap, -, -, hspread⟩ := h
  refine ⟨hpos, ?_⟩
  rw [hspread, Rounding.abs_tdiv _ hpos, hgap, abs_mul, Int.abs_eq_natAbs (10 ^ 6)]
  rfl

namespace DivergenceRails

/-- The guard holds the size of the spread against the allowed fraction, cut to millionths. -/
lemma isTooDivergent_eq_ok (h : rails.isTooDivergent spread = .ok verdict) :
    0 < rails.denominator.toNat ∧
      (verdict = true ↔ 10 ^ 6 * rails.numerator.toNat / rails.denominator.toNat ≤ |spread.raw|) := by
  have hone : (Fixed.one : Percentage).raw = 10 ^ 6 := rfl
  simp only [isTooDivergent, bind_eq_ok, Fixed.mulInt_eq_ok, Fixed.divInt_eq_ok, Fixed.abs_eq_ok,
    pure_eq_ok, hone] at h
  obtain ⟨scaled, hscaled, limit, ⟨hden, hlimit⟩, size, hsize, rfl⟩ := h
  refine ⟨by omega, ?_⟩
  rw [decide_eq_true_iff, Fixed.le_def, hlimit, hscaled, hsize, Int.abs_eq_natAbs,
    Int.tdiv_eq_ediv_of_nonneg (by positivity)]

lemma isTooDivergent_succeeds (hden : 0 < rails.denominator.toNat)
    (hspread : -2 ^ 127 < spread.raw) : ∃ verdict, rails.isTooDivergent spread = .ok verdict := by
  have hone : (Fixed.one : Percentage).raw = 10 ^ 6 := rfl
  have hnum := rails.numerator.toNat_lt
  refine bind_succeeds (Fixed.check_succeeds (Int128.fits_of_bounds ?_ ?_)) fun scaled hscaled => ?_
  · rw [hone]; omega
  · rw [hone]; omega
  have hnonneg : 0 ≤ scaled.raw := by
    rw [Fixed.mulInt_eq_ok.mp hscaled, hone]
    positivity
  refine bind_succeeds (Fixed.divInt_succeeds hnonneg (by exact_mod_cast hden)) fun _ _ => ?_
  refine bind_succeeds (Fixed.check_succeeds ⟨by omega, ?_⟩) fun _ _ => ⟨_, rfl⟩
  have := spread.fits.2
  omega

/-- A spread of zero reaches the allowed fraction exactly if that is less than a millionth. -/
lemma isTooDivergent_zero_iff (h : rails.isTooDivergent 0 = .ok verdict) :
    verdict = true ↔ 10 ^ 6 * rails.numerator.toNat < rails.denominator.toNat := by
  obtain ⟨hden, hverdict⟩ := isTooDivergent_eq_ok h
  have hden' : (0 : ℤ) < rails.denominator.toNat := by exact_mod_cast hden
  rw [hverdict, Fixed.raw_zero, abs_zero, ← Int.lt_add_one_iff, zero_add,
    Int.ediv_lt_iff_lt_mul hden', one_mul]
  norm_cast

end DivergenceRails

lemma sub_one_lt_of_ediv_le {x y b c : ℤ} (hb : 0 < b) (hc : 0 < c) (h : x / b ≤ y / c) :
    (x : ℚ) / b - 1 < y / c := by
  have hb' : (0 : ℚ) < b := by exact_mod_cast hb
  have hc' : (0 : ℚ) < c := by exact_mod_cast hc
  have hbelow : (x : ℚ) / b < (x / b : ℤ) + 1 := by
    rw [div_lt_iff₀ hb']
    exact_mod_cast Int.lt_ediv_add_one_mul_self x hb
  have habove : ((y / c : ℤ) : ℚ) ≤ y / c := by
    rw [le_div_iff₀ hc']
    exact_mod_cast Int.ediv_mul_le y hc.ne'
  have hfloors : ((x / b : ℤ) : ℚ) ≤ (y / c : ℤ) := by exact_mod_cast h
  linarith

/-- **The divergence guard is exact to a millionth.** It never misses a price whose distance from
the oracle reaches the allowed fraction, and reports no price that falls short of it by a millionth
of the oracle price or more. -/
theorem DivergenceRails.isTooDivergent_exact (hspread : oracle.spreadFraction price = .ok spread)
    (h : rails.isTooDivergent spread = .ok verdict) :
    (rails.numerator.toNat * oracle.price.raw ≤
        |price.raw - oracle.price.raw| * rails.denominator.toNat → verdict = true) ∧
      (verdict = true →
        (rails.numerator.toNat / rails.denominator.toNat : ℚ) - 1 / 10 ^ 6 <
          |price.raw - oracle.price.raw| / oracle.price.raw) := by
  obtain ⟨hpos, hsize⟩ := OracleReading.spreadFraction_eq_ok hspread
  obtain ⟨hden, hverdict⟩ := isTooDivergent_eq_ok h
  rw [hverdict, hsize]
  constructor
  · intro hreached
    exact Rounding.ediv_le_ediv_of_mul_le (by exact_mod_cast hden) hpos (by linarith)
  · intro hfloors
    have hlt := sub_one_lt_of_ediv_le (by exact_mod_cast hden) hpos hfloors
    push_cast at hlt ⊢
    rw [mul_div_assoc, mul_div_right_comm] at hlt
    linarith

/-- A price a third below the oracle, which no number of millionths is. -/
theorem DivergenceRails.isTooDivergent_exact_third :
    ∃ spread, (OracleReading.of (.ofRaw 3000000)).spreadFraction (.ofRaw 2000000) = .ok spread ∧
      spread.raw = -333333 ∧ (⟨1, 3⟩ : DivergenceRails).isTooDivergent spread = .ok true := by
  obtain ⟨spread, hspread, hraw, verdict, h⟩ : ∃ spread,
      (OracleReading.of (.ofRaw 3000000)).spreadFraction (.ofRaw 2000000) = .ok spread ∧
        spread.raw = -333333 ∧
        ∃ verdict, (⟨1, 3⟩ : DivergenceRails).isTooDivergent spread = .ok verdict :=
    ⟨_, rfl, rfl, _, rfl⟩
  obtain ⟨hreached, -⟩ := isTooDivergent_exact hspread h
  exact ⟨spread, hspread, hraw, hreached (by decide) ▸ h⟩

end PerpExchange
