import PerpExchange.Margin.SizeCurve
import PerpExchange.Proofs.Number.Fixed

/-!
How the size curves run.

The premium curve never falls below the weight it starts from and the discount curve never rises
above it, whatever the size and the factor are. Both follow the root of the size: with a factor that
is not negative, the premium only grows with the size and the discounted weight only shrinks, down
to zero at the least.
-/

namespace PerpExchange.SizeCurve

variable {p : Precision} {size size' : BaseAmount} {imf : ImfFactor} {weight w w' : Fixed p}

lemma le_premium (h : premium size imf weight = .ok w) : weight.raw ≤ w.raw := by
  unfold premium at h
  split_ifs at h
  · cases h
    exact le_rfl
  · simp only [bind_eq_ok, pure_eq_ok] at h
    obtain ⟨_, -, _, -, _, -, _, -, _, -, _, -, grown, -, rfl⟩ := h
    rw [Fixed.raw_max]
    exact le_max_right _ _

lemma discount_le (h : discount size imf weight = .ok w) : w.raw ≤ weight.raw := by
  unfold discount at h
  split_ifs at h
  · cases h
    exact le_rfl
  · simp only [bind_eq_ok, pure_eq_ok] at h
    obtain ⟨_, -, _, -, _, -, falling, -, rfl⟩ := h
    rw [Fixed.raw_min]
    exact min_le_right _ _

/-! ### The root of a size -/

def rootOf (size : ℤ) : ℤ := floorSqrt (size.natAbs * 10 + 1)

lemma raw_root {n : Int128} (h : root size = .ok n) : n.raw = rootOf size.raw := by
  simp only [root, bind_eq_ok, Fixed.abs_eq_ok, Int128.check_eq_ok] at h
  obtain ⟨magnitude, hmagnitude, radicand, hradicand, h⟩ := h
  rw [h, hradicand, hmagnitude]
  rfl

lemma rootOf_nonneg (size : ℤ) : 0 ≤ rootOf size := Int.natCast_nonneg _

lemma rootOf_bounds (size : ℤ) : rootOf size * rootOf size ≤ |size| * 10 + 1 ∧
    |size| * 10 + 1 < (rootOf size + 1) * (rootOf size + 1) := by
  obtain ⟨hle, hlt⟩ := floorSqrt_bounds (size.natAbs * 10 + 1)
  rw [Int.abs_eq_natAbs, rootOf]
  exact ⟨by exact_mod_cast hle, by exact_mod_cast hlt⟩

lemma rootOf_mono {s t : ℤ} (h : |s| ≤ |t|) : rootOf s ≤ rootOf t := by
  rw [Int.abs_eq_natAbs, Int.abs_eq_natAbs] at h
  exact Int.ofNat_le.mpr (floorSqrt_mono (by omega))

/-! ### The premium curve -/

lemma premium_of_flat (h : premium size imf weight = .ok w) (himf : imf.raw = 0) : w = weight := by
  rw [premium, if_pos himf] at h
  cases h
  rfl

/-- What the product of root and factor is divided by before it counts against a weight at `p`. -/
def growthDivisor (p : Precision) : ℤ := (rootDivisor * Precision.imf.scale).tdiv p.scale

lemma growthDivisor_pos (p : Precision) : 0 < growthDivisor p := by cases p <;> decide

lemma raw_premium (h : premium size imf weight = .ok w) (himf : imf.raw ≠ 0) :
    w.raw = max ((weight.raw * shareNumerator).tdiv shareDenominator +
      (rootOf size.raw * imf.raw).tdiv (growthDivisor p)) weight.raw := by
  rw [premium, if_neg himf] at h
  simp only [bind_eq_ok, Fixed.mulInt_eq_ok, Fixed.divInt_eq_ok, Int128.divide_eq_ok,
    Int128.check_eq_ok, Fixed.add_eq_ok, pure_eq_ok, Rounding.quotient] at h
  obtain ⟨n, hroot, product, hproduct, reduced, ⟨-, hreduced⟩, divisor, ⟨-, hdivisor⟩, scaled,
    hscaled, growth, ⟨-, hgrowth⟩, grown, hgrown, rfl⟩ := h
  rw [Fixed.raw_max, hgrown, hreduced, hproduct, hgrowth, hscaled, hdivisor, raw_root hroot]
  rfl

/-- A larger size has no smaller premium. -/
lemma premium_mono (h : premium size imf weight = .ok w) (h' : premium size' imf weight = .ok w')
    (himf : 0 ≤ imf.raw) (hsize : |size.raw| ≤ |size'.raw|) : w.raw ≤ w'.raw := by
  by_cases hflat : imf.raw = 0
  · rw [premium_of_flat h hflat, premium_of_flat h' hflat]
  · rw [raw_premium h hflat, raw_premium h' hflat]
    have hgrowth : (rootOf size.raw * imf.raw).tdiv (growthDivisor p) ≤
        (rootOf size'.raw * imf.raw).tdiv (growthDivisor p) :=
      Int.tdiv_le_tdiv (growthDivisor_pos p) (mul_le_mul_of_nonneg_right (rootOf_mono hsize) himf)
    exact max_le_max_right _ (add_le_add_right hgrowth _)

/-! ### The discount curve -/

lemma discount_of_flat (h : discount size imf weight = .ok w) (himf : imf.raw = 0) :
    w = weight := by
  rw [discount, if_pos himf] at h
  cases h
  rfl

/-- What a weight falls with: one, and a term that grows with the root of the size. -/
def fallDivisor (imf : ImfFactor) (size : ℤ) : ℤ := 10 ^ 6 + rootOf size * imf.raw / 10 ^ 5

lemma fallDivisor_pos (himf : 0 ≤ imf.raw) (size : ℤ) : 0 < fallDivisor imf size := by
  have := Int.ediv_nonneg (mul_nonneg (rootOf_nonneg size) himf) (by norm_num : (0 : ℤ) ≤ 10 ^ 5)
  unfold fallDivisor
  omega

lemma fallDivisor_mono {s t : ℤ} (himf : 0 ≤ imf.raw) (h : |s| ≤ |t|) :
    fallDivisor imf s ≤ fallDivisor imf t := by
  have := Int.ediv_le_ediv (by norm_num : (0 : ℤ) < 10 ^ 5)
    (mul_le_mul_of_nonneg_right (rootOf_mono h) himf)
  unfold fallDivisor
  omega

def fallDividend (p : Precision) : ℤ := 1100000 * p.scale

lemma fallDividend_nonneg (p : Precision) : 0 ≤ fallDividend p := by cases p <;> decide

lemma raw_discount (h : discount size imf weight = .ok w) (himf : 0 < imf.raw) :
    w.raw = min (fallDividend p / fallDivisor imf size.raw) weight.raw := by
  rw [discount, if_neg himf.ne'] at h
  simp only [bind_eq_ok, Int128.divide_eq_ok, Int128.check_eq_ok, pure_eq_ok,
    Rounding.quotient] at h
  obtain ⟨n, hroot, scaled, hscaled, divisor, hdivisor, falling, ⟨-, hfalling⟩, rfl⟩ := h
  rw [hscaled, raw_root hroot,
    Int.tdiv_eq_ediv_of_nonneg (mul_nonneg (rootOf_nonneg size.raw) himf.le)] at hdivisor
  rw [← fallDividend, Int.tdiv_eq_ediv_of_nonneg (fallDividend_nonneg p), hdivisor] at hfalling
  rw [Fixed.raw_min, hfalling]
  rfl

lemma discount_antitone (h : discount size imf weight = .ok w)
    (h' : discount size' imf weight = .ok w') (himf : 0 ≤ imf.raw)
    (hsize : |size.raw| ≤ |size'.raw|) : w'.raw ≤ w.raw := by
  rcases himf.eq_or_lt with hflat | hcurved
  · rw [discount_of_flat h hflat.symm, discount_of_flat h' hflat.symm]
  · rw [raw_discount h hcurved, raw_discount h' hcurved]
    refine min_le_min_right _ (Rounding.ediv_le_ediv_of_mul_le (fallDivisor_pos himf _)
      (fallDivisor_pos himf _) ?_)
    exact mul_le_mul_of_nonneg_left (fallDivisor_mono himf hsize) (fallDividend_nonneg p)

lemma discount_nonneg (h : discount size imf weight = .ok w) (himf : 0 ≤ imf.raw)
    (hweight : 0 ≤ weight.raw) : 0 ≤ w.raw := by
  rcases himf.eq_or_lt with hflat | hcurved
  · rwa [discount_of_flat h hflat.symm]
  · rw [raw_discount h hcurved]
    exact le_min (Int.ediv_nonneg (fallDividend_nonneg p) (fallDivisor_pos himf _).le) hweight

lemma discount_of_nonpos (h : discount size imf weight = .ok w) (himf : 0 ≤ imf.raw)
    (hweight : weight.raw ≤ 0) : w.raw = weight.raw := by
  rcases himf.eq_or_lt with hflat | hcurved
  · rw [discount_of_flat h hflat.symm]
  · rw [raw_discount h hcurved]
    exact min_eq_right (hweight.trans
      (Int.ediv_nonneg (fallDividend_nonneg p) (fallDivisor_pos himf _).le))

end PerpExchange.SizeCurve
