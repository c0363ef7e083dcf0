import PerpExchange.Amm.Repeg
import PerpExchange.Proofs.Amm.Swap

/-!
Where a rebalance puts the reserves of a pool.

The new quote reserve is the floor of the exact root, and the new base reserve what the curve then
leaves, rounded down. Only the first is checked. The second is empty when the root exceeds the whole
product of the reserves, which takes a target price beyond the peg times that product.
-/

namespace PerpExchange.Amm

variable {a b : Amm} {target : Price}

/-- The product of the reserves. -/
def depth (a : Amm) : ℤ := a.baseReserve.raw * a.quoteReserve.raw

lemma raw_of_invariant {k : Product .base .quoteReserve} (h : a.invariant = .ok k) :
    k.raw = a.depth := (invariant_eq_ok.mp h).2

lemma depth_pos_of_invariant {k : Product .base .quoteReserve} (h : a.invariant = .ok k) :
    0 < a.depth := by
  obtain ⟨⟨hb, hq⟩, -⟩ := invariant_eq_ok.mp h
  exact mul_pos hb hq

/-- What is known of a pool that was rebalanced. -/
structure Rebalanced (a : Amm) (target : Price) (b : Amm) : Prop where
  depth_pos : 0 < a.depth
  quote_pos : 0 < b.quoteReserve.raw
  root : FloorRoot (a.depth * target.raw) a.peg.raw b.quoteReserve.raw
  base : b.baseReserve.raw = a.depth / b.quoteReserve.raw
  frame : b = a.withReserves b.reserves

lemma rebalanced_of_rebalance (hpeg : 0 < a.peg.raw) (h : a.rebalance target = .ok b) :
    a.Rebalanced target b := by
  simp only [rebalance, bind_eq_ok, Failure.liftM_violation_eq_ok, Failure.liftM_refusal_eq_ok,
    Refusal.guard_eq_ok, Violation.guard_eq_ok, Int128.check_eq_ok, Int128.divide_eq_ok,
    Fixed.check_eq_ok, Rounding.quotient, pure_eq_ok,
    Product.divTo_eq_ok (p := .base) (q := .quoteReserve) (d := .quoteReserve) (r := .base) rfl]
    at h
  obtain ⟨-, htarget, k, hk, scaled, hscaled, squared, ⟨-, hsquared⟩, -, -, quote, hquote, -,
    hquote_pos, base, ⟨-, hbase⟩, rfl⟩ := h
  have hdepth := depth_pos_of_invariant hk
  have hnonneg : 0 ≤ a.depth * target.raw := (mul_pos hdepth htarget).le
  rw [raw_of_invariant hk] at hscaled hbase
  rw [hsquared, hscaled, Int.tdiv_eq_ediv_of_nonneg hnonneg] at hquote
  exact {
    depth_pos := hdepth
    quote_pos := hquote_pos
    root := hquote ▸ floorRoot_floorSqrt hnonneg hpeg
    base := by rw [baseReserve_withReserves, hbase, Int.tdiv_eq_ediv_of_nonneg hdepth.le]; rfl
    frame := rfl }

namespace Rebalanced

/-- Rounding the base reserve down takes less than the quote reserve off the depth. -/
lemma depth_bounds (h : a.Rebalanced target b) :
    b.depth ≤ a.depth ∧ a.depth - b.depth < b.quoteReserve.raw := by
  have hle := Int.ediv_mul_le a.depth h.quote_pos.ne'
  have hlt := Int.lt_ediv_add_one_mul_self a.depth h.quote_pos
  rw [← h.base] at hle hlt
  constructor
  · exact hle
  · change a.depth - b.baseReserve.raw * b.quoteReserve.raw < _
    linarith

lemma base_nonneg (h : a.Rebalanced target b) : 0 ≤ b.baseReserve.raw :=
  h.base ▸ Int.ediv_nonneg h.depth_pos.le h.quote_pos.le

lemma base_pos_iff (h : a.Rebalanced target b) (hpeg : 0 ≤ a.peg.raw) :
    0 < b.baseReserve.raw ↔
      a.depth * target.raw < (a.depth + 1) * (a.depth + 1) * a.peg.raw := by
  have hdepth := h.depth_pos
  have hbase : 0 < b.baseReserve.raw ↔ b.quoteReserve.raw ≤ a.depth := by
    rw [h.base, ← Int.add_one_le_iff, Int.le_ediv_iff_mul_le h.quote_pos, zero_add, one_mul]
  rw [hbase, ← not_lt, ← Int.add_one_le_iff,
    h.root.le_iff hpeg (by omega), not_le]

/-- A target up to the peg times the depth, and two pegs more, leaves base. -/
lemma base_pos_of_le (h : a.Rebalanced target b) (hpeg : 0 < a.peg.raw)
    (htarget : target.raw ≤ (a.depth + 2) * a.peg.raw) : 0 < b.baseReserve.raw := by
  rw [h.base_pos_iff hpeg.le]
  calc a.depth * target.raw ≤ a.depth * ((a.depth + 2) * a.peg.raw) :=
        mul_le_mul_of_nonneg_left htarget h.depth_pos.le
    _ < (a.depth + 1) * (a.depth + 1) * a.peg.raw := by linarith

end Rebalanced

/-- **A rebalance stays on the curve and empties the base reserve beyond one price.** The quote
reserve is the floor of the exact root, the depth loses less than one quote reserve, and nothing
but the reserves changes. The base reserve, which is not checked, stays positive exactly up to the
price at which that root passes the depth. -/
theorem rebalance_on_curve_iff (hpeg : 0 < a.peg.raw) (h : a.rebalance target = .ok b) :
    0 < b.quoteReserve.raw ∧
      IsGreatest {n : ℤ | n * n * a.peg.raw ≤ a.depth * target.raw} b.quoteReserve.raw ∧
      b.depth ≤ a.depth ∧
      a.depth - b.depth < b.quoteReserve.raw ∧
      b = a.withReserves b.reserves ∧
      0 ≤ b.baseReserve.raw ∧
      (0 < b.baseReserve.raw ↔
        a.depth * target.raw < (a.depth + 1) * (a.depth + 1) * a.peg.raw) ∧
      (target.raw ≤ (a.depth + 2) * a.peg.raw → 0 < b.baseReserve.raw) := by
  have hr := rebalanced_of_rebalance hpeg h
  obtain ⟨hle, hlt⟩ := hr.depth_bounds
  exact ⟨hr.quote_pos, hr.root.isGreatest hpeg.le, hle, hlt, hr.frame, hr.base_nonneg,
    hr.base_pos_iff hpeg.le, hr.base_pos_of_le hpeg⟩

/-- A pool at one that is moved to the price of four. -/
theorem rebalance_on_curve_iff_fourfold :
    ∃ b, (balanced (.ofInt 1000000001) Fixed.one).rebalance (.ofRaw 4000000) = .ok b ∧
      b.reserves = ⟨.ofRaw 500000000, .ofRaw 2000000002⟩ ∧ 0 < b.baseReserve.raw := by
  have h : (balanced (.ofInt 1000000001) Fixed.one).rebalance (.ofRaw 4000000) =
      .ok ((balanced (.ofInt 1000000001) Fixed.one).withReserves
        ⟨.ofRaw 500000000, .ofRaw 2000000002⟩) := by decide +kernel
  obtain ⟨-, -, -, -, -, -, -, hpos⟩ := rebalance_on_curve_iff (by decide) h
  exact ⟨_, h, rfl, hpos (by decide)⟩

/-- Fifty units on each side at one do not reach sixty thousand: no base is left, and the pool that
is returned has no price. -/
theorem rebalance_empties_base :
    ∃ b, (balanced (.ofInt 50) Fixed.one).rebalance (.ofRaw 60000000000) = .ok b ∧
      b.reserves = ⟨0, .ofRaw 12247⟩ ∧ b.price = .error (.reserveNotPositive .base) := by
  have h : (balanced (.ofInt 50) Fixed.one).rebalance (.ofRaw 60000000000) =
      .ok ((balanced (.ofInt 50) Fixed.one).withReserves ⟨0, .ofRaw 12247⟩) := by decide +kernel
  exact ⟨_, h, rfl, rfl⟩

end PerpExchange.Amm
