import Mathlib.Algebra.Order.Floor.Ring
import Mathlib.Data.Rat.Floor
import Mathlib.Tactic.FieldSimp
import Mathlib.Tactic.Linarith
import Mathlib.Tactic.Positivity
import PerpExchange.Number.Decimal96
import PerpExchange.Proofs.Number.SquareRoot

/-!
What is relied on of a library of decimal numbers, and an arithmetic that keeps it.

Each law is what such a library says of one of its operations: results are the exact ones, rounded
to twenty-eight digits, for as long as they fit in 96 bits. Nothing is said about when a power
exists, only that there is one for the exponent zero and that powers of one half are at most one.
-/

namespace PerpExchange

/-- `y` is `x` to twenty-eight decimals or digits, whichever are fewer, and not on the other side of
zero. -/
structure RoundedTo (x y : ℚ) : Prop where
  near : |y - x| ≤ (1 + |x|) / 10 ^ 28
  nonneg : 0 ≤ x → 0 ≤ y
  nonpos : x ≤ 0 → y ≤ 0

namespace DecimalArithmetic

/-- The laws of an arithmetic whose numbers stand for these values. -/
structure Documented (d : DecimalArithmetic) (value : d.Number → ℚ) : Prop where
  value_zero : value d.zero = 0
  value_half : value d.half = 1 / 2
  value_ofUInt64 : ∀ n, value (d.ofUInt64 n) = n.toNat
  isZero_iff : ∀ a, d.isZero a = true ↔ value a = 0
  add : ∀ a b, |value a + value b| ≤ DecimalText.limit →
    ∃ c, d.add a b = some c ∧ RoundedTo (value a + value b) (value c)
  mul : ∀ a b, |value a * value b| ≤ DecimalText.limit →
    ∃ c, d.mul a b = some c ∧ RoundedTo (value a * value b) (value c)
  div : ∀ a b, value b ≠ 0 → |value a / value b| ≤ DecimalText.limit →
    ∃ c, d.div a b = some c ∧ RoundedTo (value a / value b) (value c)
  pow_zero : ∀ a, value a = 0 → ∃ c, d.pow d.half a = some c ∧ value c = 1
  pow_half_mem : ∀ a c, 0 ≤ value a → d.pow d.half a = some c → 0 ≤ value c ∧ value c ≤ 1
  value_round : ∀ a, 0 ≤ value a → value (d.round a) = ⌊value a + 1 / 2⌋
  toUInt64?_eq_some : ∀ a (n : UInt64), value a = n.toNat → d.toUInt64? a = some n

end DecimalArithmetic

/-! ### Numbers of 96 bits -/

namespace Decimal96

variable {a b scale : ℕ} {x y : Decimal96}

def value (x : Decimal96) : ℚ := x.coefficient / 10 ^ x.scale

lemma unit_pos (x : Decimal96) : 0 < x.unit := Nat.pow_pos (by norm_num)

lemma value_eq (x : Decimal96) : x.value = x.coefficient / x.unit := by
  simp [value, unit, Nat.pow_eq]

lemma value_nonneg (x : Decimal96) : 0 ≤ x.value := by
  unfold value
  positivity

lemma nearestQuotient_bounds (a : ℕ) (hb : 0 < b) :
    2 * (Double.nearestQuotient a b * b) ≤ 2 * a + b ∧
      2 * a ≤ 2 * (Double.nearestQuotient a b * b) + b := by
  have hdiv := Nat.div_add_mod a b
  have hmod := Nat.mod_lt a hb
  rw [mul_comm] at hdiv
  unfold Double.nearestQuotient
  dsimp only
  split_ifs with hup
  · rw [add_mul, one_mul]
    omega
  · omega

lemma abs_nearestQuotient_sub_le (a : ℕ) (hb : 0 < b) :
    |(Double.nearestQuotient a b : ℚ) - a / b| ≤ 1 / 2 := by
  obtain ⟨hlow, hhigh⟩ := nearestQuotient_bounds a hb
  have hb' : (0 : ℚ) < b := by exact_mod_cast hb
  have hlow' : 2 * ((Double.nearestQuotient a b : ℚ) * b) ≤ 2 * a + b := by exact_mod_cast hlow
  have hhigh' : 2 * (a : ℚ) ≤ 2 * (Double.nearestQuotient a b * b) + b := by exact_mod_cast hhigh
  have hcancel : (a : ℚ) / b * b = a := div_mul_cancel₀ _ hb'.ne'
  rw [abs_le]
  constructor
  · by_contra hlt
    have := mul_lt_mul_of_pos_right (not_le.mp hlt) hb'
    linarith
  · by_contra hlt
    have := mul_lt_mul_of_pos_right (not_le.mp hlt) hb'
    linarith

/-- What is kept of a ratio with this many decimals. -/
lemma roundedTo_of_scale (hb : 0 < b)
    (hfine : (1 : ℚ) / (2 * 10 ^ scale) ≤ (1 + a / b) / 10 ^ 28) :
    RoundedTo (a / b) (Double.nearestQuotient (a * Nat.pow 10 scale) b / 10 ^ scale) := by
  have hratio : (0 : ℚ) ≤ a / b := by positivity
  have hoff := abs_nearestQuotient_sub_le (a * Nat.pow 10 scale) hb
  have hunit : (0 : ℚ) < 10 ^ scale := by positivity
  have hscaled : ((a * Nat.pow 10 scale : ℕ) : ℚ) / b = a / b * 10 ^ scale := by
    push_cast [Nat.pow_eq]
    ring
  rw [hscaled] at hoff
  refine ⟨?_, fun _ => by positivity, fun hle => ?_⟩
  · rw [abs_of_nonneg hratio]
    refine le_trans ?_ hfine
    have hlast : (1 : ℚ) / (2 * 10 ^ scale) = 1 / 2 / 10 ^ scale := by rw [div_div]
    rw [hlast, div_sub' hunit.ne', abs_div, abs_of_pos hunit, mul_comm (10 ^ scale)]
    exact div_le_div_of_nonneg_right hoff hunit.le
  · have hzero : (a : ℚ) / b = 0 := le_antisymm hle hratio
    have ha : a = 0 := by
      rw [div_eq_zero_iff] at hzero
      have hb' : (b : ℚ) ≠ 0 := by exact_mod_cast hb.ne'
      exact_mod_cast hzero.resolve_right hb'
    subst ha
    simp [Double.nearestQuotient]

/-- With one decimal more the ratio would have had no room, which bounds what was cut off. -/
lemma ofRatio?_rounded (hb : 0 < b) (hscale : scale ≤ 28) (hfits : a ≤ DecimalText.limit * b)
    (hfine : (1 : ℚ) / (2 * 10 ^ scale) ≤ (1 + a / b) / 10 ^ 28) :
    ∃ x, ofRatio? a b scale hscale = some x ∧ RoundedTo (a / b) x.value := by
  induction scale with
  | zero =>
    have hroom : Double.nearestQuotient a b ≤ DecimalText.limit := by
      obtain ⟨hlow, -⟩ := nearestQuotient_bounds a hb
      by_contra hlt
      have := Nat.mul_le_mul_right b (not_le.mp hlt)
      rw [Nat.succ_mul] at this
      omega
    refine ⟨⟨_, 0, hroom, hscale⟩, by rw [ofRatio?, dif_pos hroom], ?_⟩
    simpa [value] using roundedTo_of_scale hb hfine
  | succ scale ih =>
    by_cases hroom : Double.nearestQuotient (a * Nat.pow 10 (scale + 1)) b ≤ DecimalText.limit
    · exact ⟨⟨_, scale + 1, hroom, hscale⟩, by rw [ofRatio?, dif_pos hroom],
        roundedTo_of_scale hb hfine⟩
    · rw [ofRatio?, dif_neg hroom]
      refine ih (Nat.le_of_succ_le hscale) ?_
      have hoff := (abs_le.mp (abs_nearestQuotient_sub_le (a * Nat.pow 10 (scale + 1)) hb)).2
      have hlarge : (DecimalText.limit : ℚ) + 1 ≤
          Double.nearestQuotient (a * Nat.pow 10 (scale + 1)) b := by exact_mod_cast not_le.mp hroom
      have hscaled : ((a * Nat.pow 10 (scale + 1) : ℕ) : ℚ) / b = a / b * 10 ^ scale * 10 := by
        push_cast [Nat.pow_eq]
        ring
      rw [hscaled] at hoff
      have hunit : (0 : ℚ) < 10 ^ scale := by positivity
      have hratio : (0 : ℚ) ≤ a / b := by positivity
      have hlimit : (DecimalText.limit : ℚ) = 79228162514264337593543950335 := by
        norm_num [DecimalText.limit]
      rw [div_le_div_iff₀ (by positivity) (by positivity)]
      linarith

/-- A number that is a ratio and has room, from the two integers. -/
lemma ratio?_rounded {q : ℚ} (hq : q = a / b) (hb : 0 < b) (hfits : |q| ≤ DecimalText.limit) :
    ∃ x, ratio? a b = some x ∧ RoundedTo q x.value := by
  subst hq
  have hb' : (0 : ℚ) < b := by exact_mod_cast hb
  have hratio : (0 : ℚ) ≤ a / b := by positivity
  rw [abs_of_nonneg hratio] at hfits
  refine ofRatio?_rounded hb _ ?_ ?_
  · rw [div_le_iff₀ hb'] at hfits
    exact_mod_cast hfits
  · rw [div_le_div_iff₀ (by norm_num) (by norm_num)]
    linarith

lemma nearestQuotient_mul_self (a : ℕ) (hb : 0 < b) : Double.nearestQuotient (a * b) b = a := by
  simp [Double.nearestQuotient, Nat.mul_div_cancel _ hb]
  omega

/-- Twenty-eight decimals with room are kept as they are. -/
lemma ratio?_decimals (h : a ≤ DecimalText.limit) :
    ratio? a (Nat.pow 10 28) = some ⟨a, 28, h, le_rfl⟩ := by
  have hexact : Double.nearestQuotient (a * Nat.pow 10 28) (Nat.pow 10 28) = a :=
    nearestQuotient_mul_self a (by norm_num)
  simp only [ratio?, ofRatio?, hexact, dif_pos h]

lemma add_rounded (h : |x.value + y.value| ≤ DecimalText.limit) :
    ∃ z, add x y = some z ∧ RoundedTo (x.value + y.value) z.value := by
  have hx := x.unit_pos
  have hy := y.unit_pos
  refine ratio?_rounded ?_ (Nat.mul_pos hx hy) h
  rw [value_eq, value_eq]
  push_cast
  field_simp

lemma mul_rounded (h : |x.value * y.value| ≤ DecimalText.limit) :
    ∃ z, mul x y = some z ∧ RoundedTo (x.value * y.value) z.value := by
  refine ratio?_rounded ?_ (Nat.mul_pos x.unit_pos y.unit_pos) h
  rw [value_eq, value_eq, div_mul_div_comm]
  push_cast
  rfl

lemma value_eq_zero_iff : x.value = 0 ↔ x.coefficient = 0 := by simp [value]

lemma div_rounded (hne : y.value ≠ 0) (h : |x.value / y.value| ≤ DecimalText.limit) :
    ∃ z, div x y = some z ∧ RoundedTo (x.value / y.value) z.value := by
  have hcoefficient : y.coefficient ≠ 0 := value_eq_zero_iff.not.mp hne
  rw [div, if_neg hcoefficient]
  refine ratio?_rounded ?_ (Nat.mul_pos x.unit_pos (Nat.pos_of_ne_zero hcoefficient)) h
  rw [value_eq, value_eq, div_div_div_eq]
  push_cast
  rfl

lemma value_round (x : Decimal96) : x.round.value = ⌊x.value + 1 / 2⌋ := by
  have hunit : (x.unit : ℚ) ≠ 0 := by exact_mod_cast x.unit_pos.ne'
  have hsum : x.value + 1 / 2 = ((2 * x.coefficient + x.unit : ℕ) : ℚ) / (2 * x.unit : ℕ) := by
    rw [value_eq]
    push_cast
    field_simp
  rw [hsum, Rat.floor_natCast_div_natCast]
  simp only [value, round, roundHalfUp, pow_zero, div_one]
  norm_cast

lemma toUInt64?_of_value {n : UInt64} (h : x.value = n.toNat) : x.toUInt64? = some n := by
  have hwhole : x.coefficient / x.unit = n.toNat := by
    rw [value_eq, div_eq_iff (by exact_mod_cast x.unit_pos.ne')] at h
    rw [show x.coefficient = n.toNat * x.unit by exact_mod_cast h, Nat.mul_div_cancel _ x.unit_pos]
  rw [toUInt64?, hwhole, if_pos n.toNat_lt, UInt64.ofNat_toNat]

/-! ### Powers of one half -/

lemma floorSqrt_mul_one_le {factor : ℕ} (h : factor ≤ one) : floorSqrt (factor * one) ≤ one := by
  by_contra hlt
  have hroot := (floorSqrt_bounds (factor * one)).1
  have := Nat.mul_lt_mul'' (not_le.mp hlt) (not_le.mp hlt)
  have := Nat.mul_le_mul_right one h
  omega

/-- Every factor is at most one. -/
lemma powFraction_le (whole : ℕ) {digits rest factor product : ℕ} (h : factor ≤ one) :
    powFraction whole digits rest factor product ≤ product := by
  induction digits generalizing rest factor product with
  | zero => exact le_rfl
  | succ digits ih =>
    have hroot := floorSqrt_mul_one_le h
    rw [powFraction]
    split_ifs
    · refine (ih hroot).trans (Nat.div_le_of_le_mul ?_)
      rw [mul_comm]
      exact Nat.mul_le_mul_right product hroot
    · exact ih hroot

lemma powFraction_zero {whole : ℕ} (hwhole : 0 < whole) (digits factor product : ℕ) :
    powFraction whole digits 0 factor product = product := by
  induction digits generalizing factor with
  | zero => rfl
  | succ digits ih =>
    rw [powFraction, if_neg (by omega), Nat.mul_zero, ih]

lemma roundHalfUp_le_of_le {n : ℕ} (hb : 0 < b) (h : a ≤ n * b) : roundHalfUp a b ≤ n := by
  rw [roundHalfUp, ← Nat.lt_succ_iff, Nat.div_lt_iff_lt_mul (by omega), Nat.succ_eq_add_one]
  linarith

lemma value_ratio?_mem (h : a ≤ Nat.pow 10 28) (hx : ratio? a (Nat.pow 10 28) = some x) :
    0 ≤ x.value ∧ x.value ≤ 1 := by
  rw [ratio?_decimals (h.trans (by decide))] at hx
  cases hx
  refine ⟨value_nonneg _, ?_⟩
  have hle : (a : ℚ) ≤ 10 ^ 28 := by exact_mod_cast h
  exact div_le_one_of_le₀ hle (by positivity)

lemma halfPow_mem (h : x.halfPow = some y) : 0 ≤ y.value ∧ y.value ≤ 1 := by
  unfold halfPow at h
  split_ifs at h with hpower
  dsimp only at h
  split_ifs at h with hwhole
  · cases h
    simp [value, Double.nearestQuotient]
  · have hone : 0 < one := Nat.pow_pos (by norm_num)
    have hproduct : powFraction x.unit fractionDigits (x.coefficient % x.unit) (one / 2) one ≤ one :=
      powFraction_le _ (Nat.div_le_self one 2)
    have hpow : 0 < Nat.pow 2 (x.coefficient / x.unit) := Nat.pow_pos (by norm_num)
    refine value_ratio?_mem (roundHalfUp_le_of_le (Nat.mul_pos hone hpow) ?_) h
    rw [mul_comm]
    exact Nat.mul_le_mul_left _ (hproduct.trans (Nat.le_mul_of_pos_right one hpow))

lemma halfPow_zero (h : x.value = 0) : ∃ y, x.halfPow = some y ∧ y.value = 1 := by
  have hzero := value_eq_zero_iff.mp h
  have hpower : x.hasPower = true := by simp [hasPower, hzero, UInt32.size]
  have hone : roundHalfUp (one * Nat.pow 10 28) (one * Nat.pow 2 0) = Nat.pow 10 28 := by decide
  have hroom : Nat.pow 10 28 ≤ DecimalText.limit := by decide
  refine ⟨⟨Nat.pow 10 28, 28, hroom, le_rfl⟩, ?_, by norm_num [value]⟩
  simp only [halfPow, hpower, if_true, hzero, Nat.zero_div, Nat.zero_mod, powFraction_zero x.unit_pos]
  rw [if_neg (by norm_num), hone]
  exact ratio?_decimals hroom

lemma pow_half (x : Decimal96) : pow half x = x.halfPow := if_pos rfl

lemma value_ofUInt64 (n : UInt64) : (ofUInt64 n).value = n.toNat := by simp [ofUInt64, value]

lemma value_half : half.value = 1 / 2 := by norm_num [half, value]

lemma isZero_iff : (x.coefficient == 0) = true ↔ x.value = 0 := by
  rw [beq_iff_eq, value_eq_zero_iff]

/-- The arithmetic of ninety-six bits keeps to the laws. -/
theorem arithmetic_documented : arithmetic.Documented value where
  value_zero := value_ofUInt64 0
  value_half := value_half
  value_ofUInt64 := value_ofUInt64
  isZero_iff _ := isZero_iff
  add _ _ := add_rounded
  mul _ _ := mul_rounded
  div _ _ := div_rounded
  pow_zero x hx := by
    obtain ⟨y, hy, hone⟩ := halfPow_zero hx
    exact ⟨y, (pow_half x).trans hy, hone⟩
  pow_half_mem x _ _ h := halfPow_mem ((pow_half x).symm.trans h)
  value_round x _ := x.value_round
  toUInt64?_eq_some _ _ := toUInt64?_of_value

end Decimal96

end PerpExchange
