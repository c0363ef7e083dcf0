import Mathlib.Algebra.Order.Field.Basic
import Mathlib.Algebra.Order.Field.Rat
import Mathlib.Tactic.Positivity
import PerpExchange.Proofs.Amm.Quoting

/-!
The size that takes a pool to a limit price, against the exact prices of the curve.

With `b`, `q` and `p` for the reserves and the peg and `L` for the limit, the curve prices at `L`
where the base reserve is the root of `b * q * p / L`. The size is measured to the floor of that
root. The side is therefore that of the exact price `q * p / b`, and the rounding leaves a short
at a price that is still at the limit or above.
-/

namespace PerpExchange.Amm

variable {a : Amm} {limit : Price} {base : ℤ}

namespace FloorAt

lemma floorRoot (hf : a.FloorAt limit base) (hpeg : 0 ≤ a.peg.raw) :
    FloorRoot (a.baseReserve.raw * a.quoteReserve.raw * a.peg.raw) limit.raw base := by
  obtain ⟨hnonneg, hroot, hnext⟩ := hf
  rw [abs_of_nonneg hpeg] at hroot hnext
  exact ⟨hnonneg, hroot, hnext⟩

/-- The base reserve at the limit is the largest that the curve does not price below it. -/
lemma isGreatest (hf : a.FloorAt limit base) (hpeg : 0 ≤ a.peg.raw) (hlimit : 0 ≤ limit.raw) :
    IsGreatest {k : ℕ | k * k * limit.raw ≤ a.baseReserve.raw * a.quoteReserve.raw * a.peg.raw}
      base.toNat := by
  have hbase := Int.toNat_of_nonneg hf.base_nonneg
  have hroot := hf.floorRoot hpeg
  constructor
  · rw [Set.mem_ofPred_eq, hbase]
    exact hroot.square_le
  · intro k hk
    have hle := hroot.le_of_square_le hlimit hk
    omega

/-- The base reserve at the limit is below the pool's own exactly if the pool prices below the
limit. -/
lemma lt_reserve_iff (hf : a.FloorAt limit base) (hpeg : 0 ≤ a.peg.raw) (hlimit : 0 ≤ limit.raw)
    (hb : 0 < a.baseReserve.raw) :
    base < a.baseReserve.raw ↔
      (a.quoteReserve.raw * a.peg.raw / a.baseReserve.raw : ℚ) < limit.raw := by
  have hb' : (0 : ℚ) < a.baseReserve.raw := by exact_mod_cast hb
  rw [div_lt_iff₀ hb', ← not_le, (hf.floorRoot hpeg).le_iff hlimit hb.le, not_le, mul_assoc, mul_assoc,
    mul_lt_mul_iff_right₀ hb, mul_comm a.baseReserve.raw]
  exact_mod_cast Iff.rfl

/-- At the base reserve of the limit the curve prices at the limit or above. -/
lemma le_price (hf : a.FloorAt limit base) (hpeg : 0 ≤ a.peg.raw) (hpos : 0 < base) :
    (limit.raw : ℚ) ≤ a.baseReserve.raw * a.quoteReserve.raw * a.peg.raw / base ^ 2 := by
  have hpos' : (0 : ℚ) < base := by exact_mod_cast hpos
  rw [le_div_iff₀ (by positivity), mul_comm, sq]
  exact_mod_cast (hf.floorRoot hpeg).square_le

end FloorAt

/-- **The size to a limit is exact.** It leads to the largest base reserve `n` that the curve does
not price below the limit. The pool gives up base to longs exactly if its exact price is below the
limit, and takes base from shorts only down to an exact price that is not. -/
theorem sizeToPrice_exact {trade : Option (BaseAmount × Direction)} (hpeg : 0 < a.peg.raw)
    (hlimit : 0 < limit.raw) (h : a.sizeToPrice limit = .ok trade) :
    ∃ n : ℕ,
      IsGreatest {k : ℕ | k * k * limit.raw ≤ a.baseReserve.raw * a.quoteReserve.raw * a.peg.raw}
        n ∧
      (n < a.baseReserve.raw →
        ∃ size, trade = some (size, .long) ∧ size.raw = a.baseReserve.raw - n) ∧
      (a.baseReserve.raw < n →
        ∃ size, trade = some (size, .short) ∧ size.raw = n - a.baseReserve.raw) ∧
      (n = a.baseReserve.raw → trade = none) ∧
      ((∃ size, trade = some (size, .long)) ↔
        (a.quoteReserve.raw * a.peg.raw / a.baseReserve.raw : ℚ) < limit.raw) ∧
      (∀ size, trade = some (size, .short) →
        0 < n ∧
          (limit.raw : ℚ) ≤ a.baseReserve.raw * a.quoteReserve.raw * a.peg.raw / n ^ 2) := by
  obtain ⟨base, hbase, hcases⟩ := sizeToPrice_cases h
  have hb := baseReserve_pos_of_baseAtPrice hbase
  have hf := floorAt_of_baseAtPrice hbase hlimit
  have hside := hf.lt_reserve_iff hpeg.le hlimit.le hb
  have hprice := hf.le_price hpeg.le
  obtain ⟨n, hn⟩ := Int.eq_ofNat_of_zero_le hf.base_nonneg
  have hgreatest := hf.isGreatest hpeg.le hlimit.le
  rw [hn] at hcases hside hprice hgreatest
  refine ⟨n, hgreatest, ?_⟩
  rw [← hside]
  rcases hcases with ⟨habove, size, rfl, hsize⟩ | ⟨hbelow, size, rfl, hsize⟩ | ⟨hat, rfl⟩
  · refine ⟨by omega, fun _ => ⟨size, rfl, hsize⟩, by omega, ?_, fun _ _ => ⟨by omega, ?_⟩⟩
    · simp [habove.le]
    · exact_mod_cast hprice (by omega)
  · refine ⟨fun _ => ⟨size, rfl, hsize⟩, by omega, by omega, ?_, by simp⟩
    exact ⟨fun _ => hbelow, fun _ => ⟨size, rfl⟩⟩
  · refine ⟨by omega, by omega, fun _ => rfl, ?_, by simp⟩
    simp [hat]

/-- A pool at one and a half whose exact price is below one by less than a millionth. -/
def lopsided : Amm :=
  { balanced (.ofInt 2000000000000) (.ofRaw 1500000) with baseReserve := .ofRaw 3000000000001 }

theorem sizeToPrice_exact_least :
    lopsided.sizeToPrice Fixed.one = .ok (some (Fixed.least, .long)) ∧
      (lopsided.quoteReserve.raw * lopsided.peg.raw / lopsided.baseReserve.raw : ℚ)
        < (Fixed.one : Price).raw := by
  have h : lopsided.sizeToPrice Fixed.one = .ok (some (Fixed.least, .long)) := by decide +kernel
  obtain ⟨_, -, -, -, -, hside, -⟩ := sizeToPrice_exact (by decide) (by decide) h
  exact ⟨h, hside.mp ⟨_, rfl⟩⟩

end PerpExchange.Amm
