import Mathlib.Algebra.Order.Ring.Int
import Mathlib.Data.Nat.Sqrt
import Mathlib.Order.Bounds.Defs
import Mathlib.Tactic.Linarith
import Mathlib.Tactic.Ring
import PerpExchange.Number.SquareRoot

/-!
The iteration for the square root ends at its floor.

A step never goes below the floor of the root, and a step that does not decrease means that the
root is reached. Truncating a ratio before its root is taken loses nothing: the result is the floor
of the exact root.
-/

namespace PerpExchange

namespace SquareRoot

variable {n x : ℕ}

/-- A step does not fall below the root: the mean of two factors is at least their root. -/
lemma lt_step_succ_sq (hx : 0 < x) : n < (step n x + 1) * (step n x + 1) := by
  have hdiv : n < x * (n / x + 1) := Nat.lt_mul_div_succ n hx
  have hmean : x + n / x + 1 ≤ 2 * (step n x + 1) := by unfold step; omega
  generalize n / x = y at hdiv hmean
  have hsq : 4 * (x * (y + 1)) ≤ (x + y + 1) * (x + y + 1) := by
    rcases Nat.le_total x (y + 1) with h | h
    · obtain ⟨d, hd⟩ := Nat.exists_eq_add_of_le h
      nlinarith
    · obtain ⟨d, rfl⟩ := Nat.exists_eq_add_of_le h
      nlinarith
  have hle := Nat.mul_le_mul hmean hmean
  nlinarith

lemma sq_le_of_le_step (hx : 0 < x) (h : x ≤ step n x) : x * x ≤ n := by
  have hle : x ≤ n / x := by unfold step at h; omega
  exact (Nat.le_div_iff_mul_le hx).mp hle

lemma descend_bounds (hn : 0 < n) (hx : 0 < x) (h : n < (x + 1) * (x + 1)) :
    descend n x * descend n x ≤ n ∧ n < (descend n x + 1) * (descend n x + 1) := by
  fun_induction descend n x with
  | case1 x hlt ih =>
    have hstep := lt_step_succ_sq (n := n) hx
    refine ih (Nat.pos_of_ne_zero fun h0 => ?_) hstep
    rw [h0] at hstep
    omega
  | case2 x hlt => exact ⟨sq_le_of_le_step hx (by omega), h⟩

lemma lt_start_sq (n : ℕ) : n < start n * start n := by
  have hlog : n < 2 ^ (n.log2 + 1) := Nat.lt_log2_self
  have hexp : n.log2 + 1 ≤ (n.log2 + 2) / 2 + (n.log2 + 2) / 2 := by omega
  calc n < 2 ^ (n.log2 + 1) := hlog
    _ ≤ 2 ^ ((n.log2 + 2) / 2 + (n.log2 + 2) / 2) := Nat.pow_le_pow_right (by norm_num) hexp
    _ = start n * start n := by rw [pow_add]; rfl

lemma start_pos (n : ℕ) : 0 < start n := Nat.pow_pos (by norm_num)

end SquareRoot

open SquareRoot in
/-- The square of the root is at most the number, and that of the next number is above it. -/
theorem floorSqrt_bounds (n : ℕ) :
    floorSqrt n * floorSqrt n ≤ n ∧ n < (floorSqrt n + 1) * (floorSqrt n + 1) := by
  unfold floorSqrt
  split_ifs with h
  · obtain rfl | rfl : n = 0 ∨ n = 1 := by omega
    · simp
    · simp
  · have hstart := lt_start_sq n
    exact descend_bounds (by omega) (start_pos n) (by nlinarith)

lemma floorSqrt_le_self (n : ℕ) : floorSqrt n ≤ n :=
  (Nat.le_mul_self _).trans (floorSqrt_bounds n).1

lemma floorSqrt_eq_sqrt (n : ℕ) : floorSqrt n = Nat.sqrt n :=
  Nat.eq_sqrt.mpr (floorSqrt_bounds n)

lemma floorSqrt_mono {m n : ℕ} (h : m ≤ n) : floorSqrt m ≤ floorSqrt n := by
  rw [floorSqrt_eq_sqrt, floorSqrt_eq_sqrt]
  exact Nat.sqrt_le_sqrt h

/-- `r` is the floor of the root of `x / y`. -/
structure FloorRoot (x y r : ℤ) : Prop where
  nonneg : 0 ≤ r
  square_le : r * r * y ≤ x
  lt_square : x < (r + 1) * (r + 1) * y

/-- The root of a truncated ratio is the floor of the root of the ratio itself. -/
lemma floorRoot_floorSqrt {x y : ℤ} (hx : 0 ≤ x) (hy : 0 < y) :
    FloorRoot x y (floorSqrt (x / y).toNat) := by
  have hratio : 0 ≤ x / y := Int.ediv_nonneg hx hy.le
  obtain ⟨hroot, hnext⟩ := floorSqrt_bounds (x / y).toNat
  zify [hratio] at hroot hnext
  rw [Int.toNat_of_nonneg hratio] at hroot hnext
  exact {
    nonneg := Int.natCast_nonneg _
    square_le := (mul_le_mul_of_nonneg_right hroot hy.le).trans (Int.ediv_mul_le x hy.ne')
    lt_square := (Int.lt_ediv_add_one_mul_self x hy).trans_le
      (mul_le_mul_of_nonneg_right (by omega) hy.le) }

namespace FloorRoot

variable {k r x y : ℤ}

lemma le_of_square_le (h : FloorRoot x y r) (hy : 0 ≤ y) (hk : k * k * y ≤ x) : k ≤ r := by
  by_contra hc
  have hr := h.nonneg
  have hsq : (r + 1) * (r + 1) ≤ k * k := mul_self_le_mul_self (by omega) (by omega)
  exact absurd (mul_le_mul_of_nonneg_right hsq hy) (not_le.mpr (hk.trans_lt h.lt_square))

lemma le_iff (h : FloorRoot x y r) (hy : 0 ≤ y) (hk : 0 ≤ k) : k ≤ r ↔ k * k * y ≤ x :=
  ⟨fun hle => (mul_le_mul_of_nonneg_right (mul_self_le_mul_self hk hle) hy).trans h.square_le,
    h.le_of_square_le hy⟩

lemma isGreatest (h : FloorRoot x y r) (hy : 0 ≤ y) : IsGreatest {k : ℤ | k * k * y ≤ x} r :=
  ⟨h.square_le, fun _ hk => h.le_of_square_le hy hk⟩

end FloorRoot

end PerpExchange
