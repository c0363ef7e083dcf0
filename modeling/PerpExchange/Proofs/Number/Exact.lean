import Mathlib.Data.Rat.Floor
import Mathlib.Tactic.FieldSimp
import Mathlib.Tactic.Positivity
import PerpExchange.Number.Fixed
import PerpExchange.Proofs.Number.Quotient

/-!
Fixed-point results against the exact rational value.

A quotient rounds the exact ratio, whatever the signs. A power of ten moves to the numerator or to
the denominator before it, so a result is the exact value of the whole expression, brought to the
decimals of the result and rounded once.
-/

namespace PerpExchange

namespace Rounding

variable {a b : ℤ} {x : ℚ}

def round : Rounding → ℚ → ℤ
  | .truncate, x => if 0 ≤ x then ⌊x⌋ else ⌈x⌉
  | .ceil, x => ⌈x⌉

@[simp] lemma round_intCast (rounding : Rounding) (n : ℤ) : rounding.round n = n := by
  cases rounding <;> simp [round]

/-- Rounding up gives the truncated integer or the next one. -/
lemma round_gap (x : ℚ) : truncate.round x ≤ ceil.round x ∧ ceil.round x ≤ truncate.round x + 1 := by
  simp only [round]
  split_ifs with hx
  · exact ⟨Int.floor_le_ceil x, Int.ceil_le_floor_add_one x⟩
  · exact ⟨le_rfl, by omega⟩

lemma quotient_neg_neg (rounding : Rounding) (a : ℤ) (hb : b ≠ 0) :
    rounding.quotient (-a) (-b) = rounding.quotient a b := by
  cases rounding with
  | truncate => simp [quotient]
  | ceil =>
    simp only [quotient, Int.neg_tmod, Int.tmod_neg, Int.neg_tdiv, Int.tdiv_neg, neg_neg]
    congr 1
    rw [eq_iff_iff]
    omega

lemma quotient_eq_round_of_pos (rounding : Rounding) (a : ℤ) (hb : 0 < b) :
    rounding.quotient a b = rounding.round (a / b) := by
  have hpos : (0 : ℚ) < b := by exact_mod_cast hb
  obtain ⟨n, rfl⟩ := Int.eq_ofNat_of_zero_le hb.le
  cases rounding with
  | truncate =>
    have hsign : (0 : ℚ) ≤ a / (n : ℤ) ↔ 0 ≤ a := by
      rw [le_div_iff₀ hpos, zero_mul, Int.cast_nonneg_iff]
    simp only [quotient, round, hsign]
    split_ifs with ha
    · rw [Int.tdiv_eq_ediv_of_nonneg ha, Int.cast_natCast, Rat.floor_intCast_div_natCast]
    · rw [Int.cast_natCast, Rat.ceil_intCast_div_natCast, ← Int.tdiv_eq_ediv_of_nonneg (by omega),
        Int.neg_tdiv, neg_neg]
  | ceil =>
    rw [round, Int.cast_natCast, Rat.ceil_intCast_div_natCast, ← neg_ceil_quotient a hb, neg_neg]

/-- A quotient is the exact ratio, rounded. -/
lemma quotient_eq_round (rounding : Rounding) (a : ℤ) (hb : b ≠ 0) :
    rounding.quotient a b = rounding.round (a / b) := by
  rcases hb.lt_or_gt with hneg | hpos
  · rw [← quotient_neg_neg rounding a hb, quotient_eq_round_of_pos rounding _ (neg_pos.mpr hneg)]
    push_cast
    rw [neg_div_neg_eq]
  · exact quotient_eq_round_of_pos rounding a hpos

lemma quotient_mul_self (rounding : Rounding) (a : ℤ) (hb : b ≠ 0) :
    rounding.quotient (a * b) b = a := by
  have hb' : (b : ℚ) ≠ 0 := by exact_mod_cast hb
  rw [quotient_eq_round rounding _ hb, Int.cast_mul, mul_div_cancel_right₀ _ hb', round_intCast]

/-- Either rounding of a number is in range if the other is: only a quotient that is not whole
differs, and that one is at most half as large as the number. -/
lemma fits_quotient_of_fits (rounding other : Rounding) (ha : Fits a) (hb : b ≠ 0)
    (h : Fits (rounding.quotient a b)) : Fits (other.quotient a b) := by
  by_cases hwhole : a.tmod b = 0
  · have heq : ∀ rounding : Rounding, rounding.quotient a b = a.tdiv b := by
      intro rounding
      cases rounding <;> simp [quotient, hwhole]
    rwa [heq] at h ⊢
  · have hdivisor : 2 ≤ b.natAbs := by
      by_contra hsmall
      have hunit : b = 1 ∨ b = -1 := by omega
      rcases hunit with rfl | rfl
      · exact hwhole (Int.tmod_one a)
      · exact hwhole (by rw [Int.tmod_neg, Int.tmod_one])
    have hhalf : (a.tdiv b).natAbs ≤ a.natAbs / 2 := by
      rw [Int.natAbs_tdiv]
      exact Nat.div_le_div_left hdivisor (by norm_num)
    have hnear : a.tdiv b ≤ other.quotient a b ∧ other.quotient a b ≤ a.tdiv b + 1 := by
      cases other with
      | truncate => exact ⟨le_rfl, by simp [quotient]⟩
      | ceil =>
        simp only [quotient]
        split_ifs <;> omega
    unfold Fits at ha ⊢
    omega

end Rounding

namespace Int128

variable {site site' : String} {rounding other : Rounding} {a b shift : ℤ} {x : Int128}

lemma raw_divideShifted (h : divideShifted site rounding a b shift = .ok x) :
    b ≠ 0 ∧ x.raw = rounding.round (a / b * 10 ^ shift) := by
  unfold divideShifted at h
  split_ifs at h with hshift
  · -- the power of ten is in the numerator
    obtain ⟨n, rfl⟩ := Int.eq_ofNat_of_zero_le hshift
    simp only [Int.toNat_natCast, bind_eq_ok, pow10_eq_ok, check_eq_ok, divide_eq_ok] at h
    obtain ⟨factor, ⟨-, hfactor⟩, numerator, hnumerator, hb, hx⟩ := h
    refine ⟨hb, ?_⟩
    rw [hx, Rounding.quotient_eq_round _ _ hb, hnumerator, hfactor, zpow_natCast]
    push_cast
    rw [mul_div_right_comm]
  · -- the power of ten is in the denominator
    obtain ⟨n, rfl⟩ : ∃ n : ℕ, shift = -n := ⟨(-shift).toNat, by omega⟩
    simp only [neg_neg, Int.toNat_natCast, bind_eq_ok, pow10_eq_ok, check_eq_ok,
      divide_eq_ok] at h
    obtain ⟨factor, ⟨-, hfactor⟩, denominator, hdenominator, hne, hx⟩ := h
    rw [hdenominator, hfactor] at hne
    refine ⟨left_ne_zero_of_mul hne, ?_⟩
    rw [hx, hdenominator, hfactor, Rounding.quotient_eq_round _ _ hne, zpow_neg, zpow_natCast]
    push_cast
    rw [← div_eq_mul_inv, div_div]

/-- A quotient is computed rounded either way or not at all. -/
lemma divideShifted_succeeds_of (ha : Fits a)
    (h : ∃ x, divideShifted site rounding a b shift = .ok x) :
    ∃ x, divideShifted site' other a b shift = .ok x := by
  obtain ⟨x, h⟩ := h
  unfold divideShifted at h ⊢
  split_ifs at h ⊢ with hshift
  · simp only [bind_eq_ok, pow10_eq_ok, check_eq_ok, divide_eq_ok] at h ⊢
    obtain ⟨factor, hfactor, numerator, hnumerator, hb, hx⟩ := h
    have hfits := Rounding.fits_quotient_of_fits rounding other numerator.fits hb (hx ▸ x.fits)
    exact ⟨⟨_, hfits⟩, factor, hfactor, numerator, hnumerator, hb, rfl⟩
  · simp only [bind_eq_ok, pow10_eq_ok, check_eq_ok, divide_eq_ok] at h ⊢
    obtain ⟨factor, hfactor, denominator, hdenominator, hb, hx⟩ := h
    have hfits := Rounding.fits_quotient_of_fits rounding other ha hb (hx ▸ x.fits)
    exact ⟨⟨_, hfits⟩, factor, hfactor, denominator, hdenominator, hb, rfl⟩

/-- Moving decimals is a shifted quotient by one. -/
lemma moveDecimals_eq_ok_iff {source target : ℕ} :
    moveDecimals site rounding a source target = .ok x ↔
      divideShifted site rounding a 1 (target - source) = .ok x := by
  unfold moveDecimals divideShifted
  rcases Nat.lt_or_ge target source with hnarrow | hwide
  · have hshift : (-((target : ℤ) - source)).toNat = source - target := by omega
    rw [if_neg (by omega), if_neg (by omega), hshift]
    simp only [bind_eq_ok, pow10_eq_ok, check_eq_ok, divide_eq_ok, one_mul]
    constructor
    · rintro ⟨factor, hfactor, h⟩
      exact ⟨factor, hfactor, factor, rfl, h⟩
    · rintro ⟨factor, hfactor, denominator, hdenominator, h⟩
      exact ⟨factor, hfactor, hdenominator ▸ h⟩
  · have hshift : ((target : ℤ) - source).toNat = target - source := by omega
    rw [if_pos hwide, if_pos (by omega), hshift]
    simp only [bind_eq_ok, pow10_eq_ok, check_eq_ok, divide_eq_ok, Rounding.quotient_one]
    constructor
    · rintro ⟨factor, hfactor, h⟩
      exact ⟨factor, hfactor, x, h, one_ne_zero, rfl⟩
    · rintro ⟨factor, hfactor, numerator, hnumerator, -, h⟩
      exact ⟨factor, hfactor, h.trans hnumerator⟩

end Int128

/-! ### Values -/

def Fixed.value {p : Precision} (x : Fixed p) : ℚ := x.raw / 10 ^ p.decimals

def Product.value {p q : Precision} (x : Product p q) : ℚ := x.raw / 10 ^ (p.decimals + q.decimals)

/-- `down` and `up` are the ratio of `a` and `b` at precision `r`, rounded once toward zero and once
upward. Both are given or neither is. -/
structure RoundedRatio {r : Precision} (down up : Except Violation (Fixed r)) (a b : ℚ) : Prop where
  down_eq : ∀ z, down = .ok z → b ≠ 0 ∧ z.raw = Rounding.truncate.round (a / b * 10 ^ r.decimals)
  up_eq : ∀ z, up = .ok z → b ≠ 0 ∧ z.raw = Rounding.ceil.round (a / b * 10 ^ r.decimals)
  given_iff : (∃ z, down = .ok z) ↔ ∃ z, up = .ok z
  gap : ∀ z z', down = .ok z → up = .ok z' → z'.raw = z.raw ∨ z'.raw = z.raw + 1

variable {p q d r : Precision}

/-- Where neither is given there is nothing to round. -/
lemma RoundedRatio.of_error {e e' : Violation} (a b : ℚ) :
    RoundedRatio (.error e : Except Violation (Fixed r)) (.error e') a b where
  down_eq _ h := nomatch h
  up_eq _ h := nomatch h
  given_iff := by simp
  gap _ _ h := nomatch h

lemma Product.value_of_mul {x : Fixed p} {y : Fixed q} {w : Product p q} (h : x.mul y = .ok w) :
    w.value = x.value * y.value := by
  rw [Product.value, Fixed.value, Fixed.value, Fixed.mul_eq_ok.mp h, div_mul_div_comm, pow_add]
  push_cast
  rfl

lemma shifted_ratio (a b : ℚ) (n k r : ℕ) :
    a / b * 10 ^ (r + k - n : ℤ) = a / 10 ^ n / (b / 10 ^ k) * 10 ^ r := by
  rw [zpow_sub₀ (by norm_num), zpow_add₀ (by norm_num)]
  simp only [zpow_natCast]
  field_simp

section Shifted

variable {site site' : String} {a b : ℤ} {n k : ℕ}

lemma raw_of_shifted {rounding : Rounding} {z : Fixed r}
    (h : Int128.divideShifted site rounding a b (r.decimals + k - n) = .ok z.toInt128) :
    (b / 10 ^ k : ℚ) ≠ 0 ∧
      z.raw = rounding.round (a / 10 ^ n / (b / 10 ^ k) * 10 ^ r.decimals) := by
  obtain ⟨hb, hz⟩ := Int128.raw_divideShifted h
  rw [hz, shifted_ratio]
  exact ⟨div_ne_zero (by exact_mod_cast hb) (by positivity), rfl⟩

lemma given_of_shifted {rounding other : Rounding} {shift : ℤ} (ha : Fits a)
    (h : ∃ z : Fixed r, Int128.divideShifted site rounding a b shift = .ok z.toInt128) :
    ∃ z : Fixed r, Int128.divideShifted site' other a b shift = .ok z.toInt128 := by
  obtain ⟨z, hz⟩ := h
  obtain ⟨x, hx⟩ := Int128.divideShifted_succeeds_of ha ⟨_, hz⟩
  exact ⟨⟨x⟩, hx⟩

/-- A shifted quotient is the ratio of the numbers that its integers stand for. -/
lemma roundedRatio_of_shifted {down up : Except Violation (Fixed r)} (ha : Fits a)
    (hdown : ∀ z, down = .ok z ↔
      Int128.divideShifted site .truncate a b (r.decimals + k - n) = .ok z.toInt128)
    (hup : ∀ z, up = .ok z ↔
      Int128.divideShifted site' .ceil a b (r.decimals + k - n) = .ok z.toInt128) :
    RoundedRatio down up (a / 10 ^ n) (b / 10 ^ k) where
  down_eq z hz := raw_of_shifted ((hdown z).mp hz)
  up_eq z hz := raw_of_shifted ((hup z).mp hz)
  given_iff := by
    simp only [hdown, hup]
    exact ⟨given_of_shifted ha, given_of_shifted ha⟩
  gap z z' hz hz' := by
    have hgap := Rounding.round_gap (a / 10 ^ n / (b / 10 ^ k) * 10 ^ r.decimals : ℚ)
    rw [← (raw_of_shifted ((hdown z).mp hz)).2, ← (raw_of_shifted ((hup z').mp hz')).2] at hgap
    omega

/-- Moved decimals keep the number. -/
lemma roundedRatio_of_moved {down up : Except Violation (Fixed r)} (ha : Fits a)
    (hdown : ∀ z, down = .ok z ↔
      Int128.moveDecimals site .truncate a n r.decimals = .ok z.toInt128)
    (hup : ∀ z, up = .ok z ↔ Int128.moveDecimals site' .ceil a n r.decimals = .ok z.toInt128) :
    RoundedRatio down up (a / 10 ^ n) 1 := by
  have hone : (((1 : ℤ) : ℚ) / 10 ^ 0) = 1 := by norm_num
  have hshift : (r.decimals - n : ℤ) = r.decimals + (0 : ℕ) - n := by omega
  simp only [Int128.moveDecimals_eq_ok_iff, hshift] at hdown hup
  exact hone ▸ roundedRatio_of_shifted ha hdown hup

end Shifted

/-! ### The operations -/

namespace Fixed

lemma roundedRatio_divTo (x : Fixed p) (z : Fixed d) :
    RoundedRatio (x.divTo z : Except Violation (Fixed r)) (x.divToCeil z) x.value z.value :=
  roundedRatio_of_shifted x.fits (fun _ => ofChecked_eq_ok) fun _ => ofChecked_eq_ok

lemma roundedRatio_rescale (x : Fixed p) :
    RoundedRatio (x.rescale : Except Violation (Fixed r)) x.rescaleCeil x.value 1 :=
  roundedRatio_of_moved x.fits (fun _ => ofChecked_eq_ok) fun _ => ofChecked_eq_ok

end Fixed

namespace Product

lemma roundedRatio_divTo (w : Product p q) (z : Fixed d) :
    RoundedRatio (w.divTo z : Except Violation (Fixed r)) (w.divToCeil z) w.value z.value := by
  unfold divTo divToCeil
  rw [← Nat.cast_add]
  exact roundedRatio_of_shifted w.fits (fun _ => Fixed.ofChecked_eq_ok) fun _ =>
    Fixed.ofChecked_eq_ok

lemma roundedRatio_rescale (w : Product p q) :
    RoundedRatio (w.rescale : Except Violation (Fixed r)) w.rescaleCeil w.value 1 :=
  roundedRatio_of_moved w.fits (fun _ => Fixed.ofChecked_eq_ok) fun _ => Fixed.ofChecked_eq_ok

end Product

namespace Fixed

/-- The product is exact, so that dividing it rounds once. -/
lemma roundedRatio_mulDiv (x : Fixed p) (y : Fixed q) (z : Fixed d) :
    RoundedRatio (x.mulDiv y z : Except Violation (Fixed r)) (x.mulDivCeil y z)
      (x.value * y.value) z.value := by
  unfold mulDiv mulDivCeil
  cases hmul : x.mul y with
  | error e => exact .of_error _ _
  | ok w =>
    rw [← Product.value_of_mul hmul]
    exact w.roundedRatio_divTo z

/-- Decimals that were added come off again without a remainder. -/
lemma rescale_back {s : Precision} {x : Fixed p} {v : Fixed s} (hle : p.decimals ≤ s.decimals)
    (h : x.rescale = .ok v ∨ x.rescaleCeil = .ok v) :
    v.rescale = .ok x ∧ v.rescaleCeil = .ok x := by
  obtain ⟨n, hn⟩ := Nat.exists_eq_add_of_le hle
  have hraw : v.raw = x.raw * 10 ^ n := by
    rcases h with h | h
    · exact Int128.raw_of_widened hn (ofChecked_eq_ok.mp h)
    · exact Int128.raw_of_widened hn (ofChecked_eq_ok.mp h)
  have hshort : n ≤ 38 := by
    have : s.decimals ≤ 10 := by cases s <;> decide
    omega
  have hback : ∀ rounding : Rounding, x.raw = rounding.quotient v.raw (10 ^ n) := fun rounding => by
    rw [hraw, rounding.quotient_mul_self x.raw (by positivity)]
  rw [rescale, rescaleCeil, ofChecked_eq_ok, ofChecked_eq_ok, Int128.moveDecimals_eq_ok hn hshort,
    Int128.moveDecimals_eq_ok hn hshort]
  exact ⟨hback _, hback _⟩

end Fixed

/-- **Fixed-point results are exact, rounded once.** A quotient, a product over a divisor and a
change of precision give the exact rational value at the decimals of the result, rounded toward zero
or upward, whatever the signs. The two are given together, and the one rounded up is the other or
the next integer. A number that gets more decimals and loses them again is unchanged. -/
theorem results_rounded_once {p q d r : Precision} (x : Fixed p) (y : Fixed q) (z : Fixed d)
    (w : Product p q) :
    RoundedRatio (x.mulDiv y z : Except Violation (Fixed r)) (x.mulDivCeil y z)
      (x.value * y.value) z.value ∧
    RoundedRatio (x.divTo z : Except Violation (Fixed r)) (x.divToCeil z) x.value z.value ∧
    RoundedRatio (x.rescale : Except Violation (Fixed r)) x.rescaleCeil x.value 1 ∧
    RoundedRatio (w.divTo z : Except Violation (Fixed r)) (w.divToCeil z) w.value z.value ∧
    RoundedRatio (w.rescale : Except Violation (Fixed r)) w.rescaleCeil w.value 1 ∧
    ∀ v : Fixed r, p.decimals ≤ r.decimals → x.rescale = .ok v ∨ x.rescaleCeil = .ok v →
      v.rescale = .ok x ∧ v.rescaleCeil = .ok x :=
  ⟨x.roundedRatio_mulDiv y z, x.roundedRatio_divTo z, x.roundedRatio_rescale,
    w.roundedRatio_divTo z, w.roundedRatio_rescale, fun _ => Fixed.rescale_back⟩

namespace Fixed

/-- A loss of a little over ten, and a short of three. -/
def loss : QuoteAmount := ofRaw (-10000007)

def shortOfThree : BaseAmount := ofRaw (-3000000000)

end Fixed

open Fixed in
theorem results_rounded_once_negative :
    (∃ down up : Price, loss.divTo shortOfThree = .ok down ∧
      loss.divToCeil shortOfThree = .ok up ∧
      down.raw = Rounding.truncate.round (loss.value / shortOfThree.value * 10 ^ 6) ∧
      up.raw = Rounding.ceil.round (loss.value / shortOfThree.value * 10 ^ 6) ∧
      up.raw = down.raw + 1) ∧
    ∃ v : BaseAmount, loss.rescale = .ok v ∧ v.rescale = .ok loss := by
  obtain ⟨-, hprice, -, -, -, -⟩ :=
    results_rounded_once (r := .price) loss (0 : Price) shortOfThree (⟨0⟩ : Product .quote .price)
  obtain ⟨-, -, -, -, -, hback⟩ :=
    results_rounded_once (r := .base) loss (0 : Price) shortOfThree (⟨0⟩ : Product .quote .price)
  obtain ⟨-, hdown⟩ := hprice.down_eq _ rfl
  obtain ⟨-, hup⟩ := hprice.up_eq _ rfl
  exact ⟨⟨_, _, rfl, rfl, hdown, hup, by decide⟩, _, rfl, (hback _ (by decide) (.inl rfl)).1⟩

end PerpExchange
