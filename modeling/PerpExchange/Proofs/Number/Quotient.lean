import Mathlib.Algebra.Order.Ring.Int
import Mathlib.Tactic.Linarith
import Mathlib.Tactic.Ring
import PerpExchange.Number.Rounding
import PerpExchange.Proofs.Checked

/-!
Quotients against the exact ratio.

Truncation acts on the absolute value as the floor. A quotient rounded up is the ceiling, whatever
the sign of the numerator.
-/

namespace PerpExchange

namespace Rounding

variable {a b : ℤ}

@[simp] lemma quotient_one (rounding : Rounding) (a : ℤ) : rounding.quotient a 1 = a := by
  cases rounding <;> simp [quotient]

lemma abs_tdiv (a : ℤ) (hb : 0 < b) : |a.tdiv b| = |a| / b := by
  obtain ⟨n, rfl⟩ := Int.eq_ofNat_of_zero_le hb.le
  rw [Int.abs_eq_natAbs, Int.abs_eq_natAbs, Int.natAbs_tdiv]
  rfl

lemma pos_of_tdiv_pos (hb : 0 ≤ b) (h : 0 < a.tdiv b) : 0 < a := by
  by_contra hnonpos
  have hneg := Int.tdiv_nonneg (neg_nonneg.mpr (not_lt.mp hnonpos)) hb
  rw [Int.neg_tdiv] at hneg
  omega

/-- A larger ratio has a larger quotient. -/
lemma ediv_le_ediv_of_mul_le {x y c : ℤ} (hb : 0 < b) (hc : 0 < c) (h : x * c ≤ y * b) :
    x / b ≤ y / c := by
  rw [Int.le_ediv_iff_mul_le hc]
  refine le_of_mul_le_mul_right ?_ hb
  calc x / b * c * b = x / b * b * c := by ring
    _ ≤ x * c := mul_le_mul_of_nonneg_right (Int.ediv_mul_le x hb.ne') hc.le
    _ ≤ y * b := h

lemma ceil_quotient_bounds (a : ℤ) (hb : 0 < b) :
    a ≤ ceil.quotient a b * b ∧ ceil.quotient a b * b < a + b := by
  have h := Int.mul_tdiv_add_tmod a b
  have hlt := Int.tmod_lt_of_pos a hb
  have hgt : -b < a.tmod b := by
    have := Int.lt_tmod_of_pos a hb
    omega
  simp only [quotient]
  split_ifs with hup
  · have hr : 0 < a.tmod b := hup.2.mpr hb
    have e : (a.tdiv b + 1) * b = b * a.tdiv b + b := by ring
    omega
  · have hr : a.tmod b ≤ 0 := by
      by_contra hc
      exact hup ⟨by omega, by constructor <;> intro <;> omega⟩
    have e : a.tdiv b * b = b * a.tdiv b := mul_comm _ _
    omega

lemma ceil_quotient_le_iff (a : ℤ) {c : ℤ} (hb : 0 < b) : ceil.quotient a b ≤ c ↔ a ≤ c * b := by
  obtain ⟨hle, hlt⟩ := ceil_quotient_bounds a hb
  constructor
  · intro h
    exact hle.trans (mul_le_mul_of_nonneg_right h hb.le)
  · intro h
    have hnext : ceil.quotient a b * b < (c + 1) * b := by linarith
    exact Int.lt_add_one_iff.mp (lt_of_mul_lt_mul_right hnext hb.le)

lemma ceil_quotient_mono {x y : ℤ} (hb : 0 < b) (h : x ≤ y) :
    ceil.quotient x b ≤ ceil.quotient y b :=
  (ceil_quotient_le_iff x hb).mpr (h.trans (ceil_quotient_bounds y hb).1)

lemma quotient_mono (rounding : Rounding) {x y : ℤ} (hb : 0 < b) (h : x ≤ y) :
    rounding.quotient x b ≤ rounding.quotient y b := by
  cases rounding with
  | truncate => exact Int.tdiv_le_tdiv hb h
  | ceil => exact ceil_quotient_mono hb h

lemma quotient_bounds (rounding : Rounding) (ha : 0 ≤ a) (hb : 0 < b) :
    a < rounding.quotient a b * b + b ∧ rounding.quotient a b * b < a + b := by
  cases rounding with
  | truncate =>
    have hle := Int.ediv_mul_le a hb.ne'
    have hlt := Int.lt_ediv_add_one_mul_self a hb
    rw [quotient, Int.tdiv_eq_ediv_of_nonneg ha]
    constructor <;> linarith
  | ceil =>
    obtain ⟨hle, hlt⟩ := ceil_quotient_bounds a hb
    exact ⟨by linarith, hlt⟩

lemma quotient_nonneg (rounding : Rounding) (ha : 0 ≤ a) (hb : 0 < b) :
    0 ≤ rounding.quotient a b := by
  cases rounding with
  | truncate => exact Int.tdiv_nonneg ha hb.le
  | ceil =>
    obtain ⟨hle, -⟩ := ceil_quotient_bounds a hb
    exact nonneg_of_mul_nonneg_left (ha.trans hle) hb

lemma quotient_le_self (rounding : Rounding) (ha : 0 ≤ a) (hb : 0 < b) :
    rounding.quotient a b ≤ a := by
  cases rounding with
  | truncate =>
    rw [quotient, Int.tdiv_eq_ediv_of_nonneg ha]
    exact Int.ediv_le_self b ha
  | ceil => exact (ceil_quotient_le_iff a hb).mpr (le_mul_of_one_le_right ha hb)

lemma neg_ceil_quotient (a : ℤ) (hb : 0 < b) : -ceil.quotient a b = -a / b := by
  obtain ⟨hle, hlt⟩ := ceil_quotient_bounds a hb
  symm
  rw [Int.ediv_eq_iff_of_pos hb, neg_mul]
  constructor
  · exact neg_le_neg hle
  · linarith

lemma ceil_quotient_add_mul (a c : ℤ) (hb : 0 < b) :
    ceil.quotient (a + c * b) b = ceil.quotient a b + c := by
  have hsum := neg_ceil_quotient (a + c * b) hb
  have hpart := neg_ceil_quotient a hb
  rw [neg_add, ← neg_mul, Int.add_mul_ediv_right _ _ hb.ne'] at hsum
  omega

end Rounding

/-- What checked arithmetic fails with: a result out of range or a divisor of zero. -/
def Violation.IsArithmetic : Violation → Prop
  | .overflow _ | .divisionByZero _ => True
  | _ => False

namespace Int128

variable {site name : String} {rounding : Rounding} {a b : ℤ} {x : Int128}

@[simp] lemma divide_eq_ok :
    divide site rounding a b = .ok x ↔ b ≠ 0 ∧ x.raw = rounding.quotient a b := by
  unfold divide
  split_ifs with hb
  · simp [hb]
  · simp [hb]

lemma check_ne_error {n : ℤ} {e : Violation} (he : ¬e.IsArithmetic) : check site n ≠ .error e := by
  unfold check
  split_ifs
  · intro h
    cases h
  · intro h
    cases h
    exact he trivial

lemma divide_ne_error {e : Violation} (he : ¬e.IsArithmetic) :
    divide site rounding a b ≠ .error e := by
  unfold divide
  split_ifs
  · intro h
    cases h
    exact he trivial
  · exact check_ne_error he

lemma pow10_ne_error {n : ℕ} {e : Violation} (he : ¬e.IsArithmetic) :
    pow10 site n ≠ .error e := by
  unfold pow10
  split_ifs
  · exact check_ne_error he
  · intro h
    cases h
    exact he trivial

lemma moveDecimals_ne_error {source target : ℕ} {e : Violation} (he : ¬e.IsArithmetic) :
    moveDecimals site rounding a source target ≠ .error e := by
  unfold moveDecimals
  split_ifs
  · exact bind_ne_error (pow10_ne_error he) fun _ _ => check_ne_error he
  · exact bind_ne_error (pow10_ne_error he) fun _ _ => divide_ne_error he

lemma divideShifted_ne_error {shift : ℤ} {e : Violation} (he : ¬e.IsArithmetic) :
    divideShifted site rounding a b shift ≠ .error e := by
  unfold divideShifted
  split_ifs
  · refine bind_ne_error (pow10_ne_error he) fun _ _ => ?_
    exact bind_ne_error (check_ne_error he) fun _ _ => divide_ne_error he
  · refine bind_ne_error (pow10_ne_error he) fun _ _ => ?_
    exact bind_ne_error (check_ne_error he) fun _ _ => divide_ne_error he

lemma check_ne_negative {n : ℤ} : check site n ≠ .error (.balanceNegative name) :=
  check_ne_error id

lemma divide_ne_negative : divide site rounding a b ≠ .error (.balanceNegative name) :=
  divide_ne_error id

lemma fits_of_le {x y z : ℤ} (hx : Fits x) (hz : Fits z) (hxy : x ≤ y) (hyz : y ≤ z) : Fits y :=
  ⟨hx.1.trans hxy, hyz.trans hz.2⟩

lemma fits_of_nonneg_of_le {x y : ℤ} (hy : Fits y) (hx : 0 ≤ x) (hxy : x ≤ y) : Fits x :=
  fits_of_le (0 : Int128).fits hy hx hxy

/-- The quotient of less is in range if that of more is. -/
lemma fits_tdiv_of_le {x y : ℤ} (hb : 0 < b) (hy : Fits (y.tdiv b)) (hx : 0 ≤ x) (hxy : x ≤ y) :
    Fits (x.tdiv b) := by
  rw [Int.tdiv_eq_ediv_of_nonneg (hx.trans hxy)] at hy
  rw [Int.tdiv_eq_ediv_of_nonneg hx]
  exact fits_of_nonneg_of_le hy (Int.ediv_nonneg hx hb.le) (Int.ediv_le_ediv hb hxy)

lemma fits_quotient (rounding : Rounding) (ha : 0 ≤ a) (hfits : Fits a) (hb : 0 < b) :
    Fits (rounding.quotient a b) :=
  fits_of_nonneg_of_le hfits (rounding.quotient_nonneg ha hb) (rounding.quotient_le_self ha hb)

/-- Numbers of up to 38 digits are in range. -/
lemma fits_of_bounds {n : ℤ} (h : -10 ^ 38 ≤ n) (h' : n ≤ 10 ^ 38) : Fits n :=
  ⟨by omega, by omega⟩

lemma fits_iff_of_nonneg {n : ℤ} (h : 0 ≤ n) : Fits n ↔ n < 2 ^ 127 := by
  unfold Fits
  omega

lemma fits_neg {x : ℤ} (hx : Fits x) (hx' : 0 ≤ x) : Fits (-x) :=
  ⟨by have := hx.2; omega, by have := hx.2; omega⟩

lemma fits_sub {x y : ℤ} (hx : Fits x) (hy : Fits y) (hx' : 0 ≤ x) (hy' : 0 ≤ y) :
    Fits (x - y) :=
  ⟨by have := hy.2; omega, by have := hx.2; omega⟩

lemma fits_pow_ten {n : ℕ} (h : n ≤ 38) : Fits (10 ^ n : ℤ) := by
  have h1 : (1 : ℤ) ≤ 10 ^ n := one_le_pow₀ (by norm_num)
  have h2 : (10 : ℤ) ^ n ≤ 10 ^ 38 := pow_le_pow_right₀ (by norm_num) h
  constructor
  · omega
  · refine h2.trans ?_
    norm_num

@[simp] lemma pow10_eq_ok {n : ℕ} : pow10 site n = .ok x ↔ n ≤ 38 ∧ x.raw = 10 ^ n := by
  unfold pow10
  split_ifs with h
  · simp [h]
  · simp [h]

lemma moveDecimals_eq_ok {source target n : ℕ} (h : source = target + n) (hn : n ≤ 38) :
    moveDecimals site rounding a source target = .ok x ↔
      x.raw = rounding.quotient a (10 ^ n) := by
  subst h
  have hpow : (10 : ℤ) ^ n ≠ 0 := by positivity
  obtain ⟨p, hp⟩ : ∃ p : Int128, p.raw = 10 ^ n := ⟨⟨_, fits_pow_ten hn⟩, rfl⟩
  unfold moveDecimals
  split_ifs with hle
  · obtain rfl : n = 0 := by omega
    simp
    constructor
    · rintro ⟨f, hf, h⟩
      simpa [hf] using h
    · intro h
      exact ⟨p, by simpa using hp, by simpa [hp] using h⟩
  · have e : target + n - target = n := by omega
    simp only [e, bind_eq_ok, pow10_eq_ok, divide_eq_ok]
    constructor
    · rintro ⟨f, ⟨-, hf⟩, -, h⟩
      rwa [hf] at h
    · intro h
      exact ⟨p, ⟨hn, hp⟩, by rwa [hp], by rwa [hp]⟩

lemma raw_of_narrowed {source target n : ℕ} (h : source = target + n)
    (hx : moveDecimals site rounding a source target = .ok x) :
    x.raw = rounding.quotient a (10 ^ n) := by
  by_cases hn : n ≤ 38
  · exact (moveDecimals_eq_ok h hn).mp hx
  · have hnarrow : ¬source ≤ target := by omega
    unfold moveDecimals at hx
    simp only [hnarrow, if_false, bind_eq_ok, pow10_eq_ok] at hx
    obtain ⟨_, ⟨hexponent, -⟩, -⟩ := hx
    omega

lemma raw_of_widened {source target n : ℕ} (h : target = source + n)
    (hx : moveDecimals site rounding a source target = .ok x) : x.raw = a * 10 ^ n := by
  subst h
  have e : source + n - source = n := by omega
  unfold moveDecimals at hx
  simp only [Nat.le_add_right, if_true, e, bind_eq_ok, pow10_eq_ok, check_eq_ok] at hx
  obtain ⟨factor, ⟨-, hfactor⟩, hx⟩ := hx
  rw [hx, hfactor]

/-- A quotient with `n` more decimals divides the numerator after it was multiplied by a power of
ten. -/
lemma divideShifted_eq_ok {shift : ℤ} {n : ℕ} (h : shift = n) (hn : n ≤ 38) :
    divideShifted site rounding a b shift = .ok x ↔
      Fits (a * 10 ^ n) ∧ b ≠ 0 ∧ x.raw = rounding.quotient (a * 10 ^ n) b := by
  subst h
  obtain ⟨p, hp⟩ : ∃ p : Int128, p.raw = 10 ^ n := ⟨⟨_, fits_pow_ten hn⟩, rfl⟩
  unfold divideShifted
  simp only [Int.natCast_nonneg, if_true, Int.toNat_natCast, bind_eq_ok, pow10_eq_ok, check_eq_ok,
    divide_eq_ok]
  constructor
  · rintro ⟨f, ⟨-, hf⟩, y, hy, hb, h⟩
    rw [hf] at hy
    exact ⟨hy ▸ y.fits, hb, by rwa [hy] at h⟩
  · rintro ⟨hfits, hb, h⟩
    exact ⟨p, ⟨hn, hp⟩, ⟨_, hfits⟩, by rw [hp], hb, h⟩

lemma divideShifted_neg_eq_ok {n : ℕ} (ha : Fits a) :
    divideShifted site rounding a 1 (-n) = .ok x ↔
      n ≤ 38 ∧ x.raw = rounding.quotient a (10 ^ n) := by
  have hpow : (10 : ℤ) ^ n ≠ 0 := by positivity
  cases n with
  | zero =>
    have hshift : -((0 : ℕ) : ℤ) = (0 : ℕ) := rfl
    rw [divideShifted_eq_ok hshift (Nat.zero_le _)]
    simp [ha]
  | succ k =>
    have hneg : ¬(0 : ℤ) ≤ -((k + 1 : ℕ) : ℤ) := by omega
    unfold divideShifted
    simp only [hneg, if_false, neg_neg, Int.toNat_natCast, one_mul, bind_eq_ok, pow10_eq_ok,
      check_eq_ok, divide_eq_ok]
    constructor
    · rintro ⟨f, ⟨hk, hf⟩, d, hd, -, h⟩
      exact ⟨hk, by rwa [hd, hf] at h⟩
    · rintro ⟨hk, h⟩
      obtain ⟨p, hp⟩ : ∃ p : Int128, p.raw = 10 ^ (k + 1) := ⟨⟨_, fits_pow_ten hk⟩, rfl⟩
      exact ⟨p, ⟨hk, hp⟩, p, rfl, by rwa [hp], by rwa [hp]⟩

/-! ### Unchecked sizes -/

lemma wrappingAbs_cases (n : Int128) :
    n.raw = -2 ^ 127 ∧ n.wrappingAbs = -2 ^ 127 ∨
      n.raw ≠ -2 ^ 127 ∧ n.wrappingAbs = n.raw.natAbs := by
  unfold wrappingAbs
  split_ifs with hleast
  · exact .inl ⟨hleast, hleast⟩
  · exact .inr ⟨hleast, rfl⟩

lemma wrappingAbs_of_add_eq_zero {m n : Int128} (h : m.raw + n.raw = 0) :
    m.wrappingAbs = m.raw.natAbs ∧ n.wrappingAbs = m.raw.natAbs := by
  obtain ⟨hm, hm'⟩ := m.fits
  obtain ⟨hn, hn'⟩ := n.fits
  rcases m.wrappingAbs_cases with hcase | ⟨-, hsize⟩ <;>
    rcases n.wrappingAbs_cases with hcase' | ⟨-, hsize'⟩ <;> omega

end Int128

end PerpExchange
