import PerpExchange.Proofs.Number.SquareRoot

/-!
The iteration for the square root, run in unsigned words of 128 bits.

A run is followed step by step and counted, and goes on only while everything that a step computes
stays in a word. There is one for every word: no sum is above twice the start and two, and each step
at least halves the distance to the root, so that the run is over after 64 steps.
-/

namespace PerpExchange.SquareRoot

variable {n x r k : ℕ}

/-- A step from `x` divides by no zero, and its sum fits in a word. -/
def InWord (n x : ℕ) : Prop := 0 < x ∧ x + n / x < 2 ^ 128

/-- The iteration for the root of `n`, begun at `x`, ends at `r` after `k` steps in words. -/
inductive Descent (n : ℕ) : ℕ → ℕ → ℕ → Prop
  | stop {x : ℕ} (word : InWord n x) (rises : x ≤ step n x) : Descent n x x 0
  | next {x r k : ℕ} (word : InWord n x) (falls : step n x < x)
      (rest : Descent n (step n x) r k) : Descent n x r (k + 1)

lemma Descent.eq_descend (h : Descent n x r k) : r = descend n x := by
  induction h with
  | stop word rises => rw [descend, if_neg (by omega)]
  | next word falls rest ih => rw [descend, if_pos falls, ih]

/-! ### The numbers on the way -/

/-- Above the root of `n`, the quotient is below it. -/
lemma div_le_floorSqrt (h : floorSqrt n < x) : n / x ≤ floorSqrt n := by
  have hx : 0 < x := by omega
  obtain ⟨-, hnext⟩ := floorSqrt_bounds n
  refine Nat.lt_succ_iff.mp ((Nat.div_lt_iff_lt_mul hx).mpr ?_)
  exact hnext.trans_le (Nat.mul_le_mul_left _ h)

/-- A step from above the root at least halves the distance to it. -/
lemma step_sub_le (h : floorSqrt n < x) : step n x - floorSqrt n ≤ (x - floorSqrt n) / 2 := by
  have hquotient := div_le_floorSqrt h
  unfold step
  omega

lemma floorSqrt_le_step (hx : 0 < x) : floorSqrt n ≤ step n x := by
  obtain ⟨hle, -⟩ := floorSqrt_bounds n
  have hlt : floorSqrt n * floorSqrt n < (step n x + 1) * (step n x + 1) :=
    hle.trans_lt (lt_step_succ_sq hx)
  exact Nat.lt_succ_iff.mp (Nat.mul_self_lt_mul_self_iff.mp hlt)

lemma inWord_of_le (hx : 0 < x) (hroot : floorSqrt n ≤ x) (hle : x ≤ 2 ^ 64) : InWord n x := by
  obtain ⟨-, hnext⟩ := floorSqrt_bounds n
  have hbelow : n < (x + 1) * (x + 1) :=
    hnext.trans_le (Nat.mul_self_le_mul_self (Nat.succ_le_succ hroot))
  have hquotient : n / x < x + 3 := by
    rw [Nat.div_lt_iff_lt_mul hx]
    nlinarith
  exact ⟨hx, by omega⟩

lemma start_eq_shift (n : ℕ) : start n = 1 <<< ((n.log2 + 2) / 2) := by
  rw [Nat.one_shiftLeft]
  rfl

lemma shift_le (hn : n < 2 ^ 128) : (n.log2 + 2) / 2 ≤ 64 := by
  rcases Nat.eq_zero_or_pos n with rfl | hpos
  · decide
  · have := (Nat.log2_lt hpos.ne').mpr hn
    omega

/-- The start is about half as wide as a word. -/
lemma start_le (hn : n < 2 ^ 128) : start n ≤ 2 ^ 64 :=
  Nat.pow_le_pow_right (by norm_num) (shift_le hn)

lemma floorSqrt_le_start (n : ℕ) : floorSqrt n ≤ start n := by
  obtain ⟨hle, -⟩ := floorSqrt_bounds n
  exact Nat.mul_self_le_mul_self_iff.mp (hle.trans (lt_start_sq n).le)

/-! ### The run -/

lemma floorSqrt_pos (hn : 0 < n) : 0 < floorSqrt n := by
  obtain ⟨-, hnext⟩ := floorSqrt_bounds n
  by_contra hzero
  rw [Nat.eq_zero_of_not_pos hzero] at hnext
  omega

lemma descent_of_rises (hword : InWord n x) (hrises : x ≤ step n x) :
    Descent n x (descend n x) 0 := by
  have hstop : Descent n x x 0 := .stop hword hrises
  exact hstop.eq_descend ▸ hstop

lemma descent_of_falls (hword : InWord n x) (hfalls : step n x < x)
    (hrest : Descent n (step n x) r k) : Descent n x (descend n x) (k + 1) := by
  have hrun : Descent n x r (k + 1) := .next hword hfalls hrest
  exact hrun.eq_descend ▸ hrun

/-- From less than `2 ^ k` above the root the run is over after `k` steps. -/
lemma exists_descent (hn : 0 < n) (hroot : floorSqrt n ≤ x) (hle : x ≤ 2 ^ 64)
    (hnear : x - floorSqrt n < 2 ^ k) : ∃ j ≤ k, Descent n x (descend n x) j := by
  induction k generalizing x with
  | zero =>
    have hx := (floorSqrt_pos hn).trans_le hroot
    have hstep := floorSqrt_le_step (n := n) hx
    -- at the root itself no step falls
    exact ⟨0, le_rfl, descent_of_rises (inWord_of_le hx hroot hle) (by omega)⟩
  | succ k ih =>
    have hx := (floorSqrt_pos hn).trans_le hroot
    have hstep := floorSqrt_le_step (n := n) hx
    have hword := inWord_of_le hx hroot hle
    by_cases hfalls : step n x < x
    · have hhalf := step_sub_le (hstep.trans_lt hfalls)
      obtain ⟨j, hj, hrest⟩ := ih hstep (hfalls.le.trans hle) (by omega)
      exact ⟨j + 1, by omega, descent_of_falls hword hfalls hrest⟩
    · exact ⟨0, Nat.zero_le _, descent_of_rises hword (not_lt.mp hfalls)⟩

lemma floorSqrt_of_two_le (h : 2 ≤ n) : floorSqrt n = descend n (start n) :=
  if_neg (not_lt.mpr h)

lemma exists_descent_from_start (h : 2 ≤ n) (hn : n < 2 ^ 128) :
    ∃ k ≤ 64, Descent n (start n) (floorSqrt n) k := by
  have hpos := floorSqrt_pos (n := n) (by omega)
  have hle := start_le hn
  rw [floorSqrt_of_two_le h]
  exact exists_descent (by omega) (floorSqrt_le_start n) hle (by omega)

/-- **The square root of a word is its floor, and is computed in words.** From two on it is what the
iteration ends at, begun at a power of two that fits in a word and run in words, after 64 steps at
most. It is monotone. -/
theorem floorSqrt_exact_in_words (n : ℕ) (hn : n < 2 ^ 128) :
    (n < 2 ∧ floorSqrt n = n ∨
      2 ≤ n ∧ (∃ shift < 128, start n = 1 <<< shift) ∧
        ∃ k ≤ 64, Descent n (start n) (floorSqrt n) k) ∧
    floorSqrt n ^ 2 ≤ n ∧ n < (floorSqrt n + 1) ^ 2 ∧
    ∀ m ≤ n, floorSqrt m ≤ floorSqrt n := by
  refine ⟨?_, ?_⟩
  · rcases Nat.lt_or_ge n 2 with hsmall | hlarge
    · exact .inl ⟨hsmall, if_pos hsmall⟩
    · have hshift : (n.log2 + 2) / 2 < 128 := (shift_le hn).trans_lt (by norm_num)
      exact .inr ⟨hlarge, ⟨_, hshift, start_eq_shift n⟩, exists_descent_from_start hlarge hn⟩
  · rw [sq, sq]
    exact ⟨(floorSqrt_bounds n).1, (floorSqrt_bounds n).2, fun m hm => floorSqrt_mono hm⟩

theorem floorSqrt_exact_in_words_largest :
    2 ^ 128 - 1 < 2 ^ 128 ∧ floorSqrt (2 ^ 128 - 1) = 2 ^ 64 - 1 ∧
      ∃ k ≤ 64, Descent (2 ^ 128 - 1) (start (2 ^ 128 - 1)) (2 ^ 64 - 1) k := by
  obtain ⟨hrun, hle, hnext, -⟩ := floorSqrt_exact_in_words (2 ^ 128 - 1) (by norm_num)
  have hbelow : floorSqrt (2 ^ 128 - 1) < 2 ^ 64 :=
    lt_of_pow_lt_pow_left₀ 2 (by norm_num) (hle.trans_lt (by norm_num))
  have habove : 2 ^ 64 - 1 < floorSqrt (2 ^ 128 - 1) + 1 :=
    lt_of_pow_lt_pow_left₀ 2 (by norm_num) (lt_trans (by norm_num) hnext)
  have hroot : floorSqrt (2 ^ 128 - 1) = 2 ^ 64 - 1 := by omega
  rw [hroot] at hrun
  rcases hrun with ⟨hsmall, -⟩ | ⟨-, -, hdescent⟩
  · omega
  · exact ⟨by norm_num, hroot, hdescent⟩

end PerpExchange.SquareRoot
