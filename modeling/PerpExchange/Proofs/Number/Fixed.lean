import PerpExchange.Number.Fixed
import PerpExchange.Proofs.Number.Quotient
import PerpExchange.Proofs.Number.SquareRoot

/-!
Quotients and changes of precision of fixed-point numbers, as facts about the stored integers.

Each operation on given precisions moves a fixed number of decimals; the lemmas take that number
`n` and say what the stored result is. A sum or product in range is computed, and so is a quotient
of a number that is not negative.
-/

namespace PerpExchange

variable {p q d r : Precision} {n : ℕ}

namespace Fixed

lemma ofChecked_ne_error {x : Except Violation Int128} {e : Violation} (hx : x ≠ .error e) :
    (ofChecked x : Except Violation (Fixed p)) ≠ .error e := by
  cases x with
  | error e' =>
    intro h
    cases h
    exact hx rfl
  | ok n => exact nofun

lemma check_succeeds {site : String} {k : ℤ} (h : Fits k) :
    ∃ x : Fixed p, check site k = .ok x := ⟨.ofRaw k h, check_eq_ok.mpr rfl⟩

lemma mul_succeeds {x : Fixed p} {y : Fixed q} (h : Fits (x.raw * y.raw)) :
    ∃ z, x.mul y = .ok z := ⟨⟨⟨_, h⟩⟩, mul_eq_ok.mpr rfl⟩

@[simp] lemma divInt_eq_ok {x y : Fixed p} {k : ℤ} :
    x.divInt k = .ok y ↔ k ≠ 0 ∧ y.raw = x.raw.tdiv k := by
  simp [divInt, Rounding.quotient]

lemma divInt_succeeds {x : Fixed p} {k : ℤ} (hx : 0 ≤ x.raw) (hk : 0 < k) :
    ∃ y, x.divInt k = .ok y :=
  ⟨.ofRaw _ (Int128.fits_quotient .truncate hx x.fits hk), divInt_eq_ok.mpr ⟨hk.ne', rfl⟩⟩

/-- The quotient of two numbers with `n` more decimals than the plain quotient has. -/
lemma divTo_eq_ok {x : Fixed p} {y : Fixed q} {z : Fixed r}
    (h : (r.decimals + q.decimals - p.decimals : ℤ) = n) (hn : n ≤ 38) :
    x.divTo y = .ok z ↔
      Fits (x.raw * 10 ^ n) ∧ y.raw ≠ 0 ∧ z.raw = (x.raw * 10 ^ n).tdiv y.raw := by
  rw [divTo, ofChecked_eq_ok, Int128.divideShifted_eq_ok h hn, Rounding.quotient]

lemma divTo_succeeds {x : Fixed p} {y : Fixed q}
    (h : (r.decimals + q.decimals - p.decimals : ℤ) = n) (hn : n ≤ 38) (hx : 0 ≤ x.raw)
    (hfits : Fits (x.raw * 10 ^ n)) (hy : 0 < y.raw) : ∃ z : Fixed r, x.divTo y = .ok z :=
  ⟨.ofRaw _ (Int128.fits_quotient .truncate (mul_nonneg hx (by positivity)) hfits hy),
    (divTo_eq_ok h hn).mpr ⟨hfits, hy.ne', rfl⟩⟩

lemma divToCeil_eq_ok {x : Fixed p} {y : Fixed q} {z : Fixed r}
    (h : (r.decimals + q.decimals - p.decimals : ℤ) = n) (hn : n ≤ 38) :
    x.divToCeil y = .ok z ↔ Fits (x.raw * 10 ^ n) ∧ y.raw ≠ 0 ∧
      z.raw = Rounding.ceil.quotient (x.raw * 10 ^ n) y.raw := by
  rw [divToCeil, ofChecked_eq_ok, Int128.divideShifted_eq_ok h hn]

end Fixed

namespace Product

lemma ofChecked_ne_error {x : Except Violation Int128} {e : Violation} (hx : x ≠ .error e) :
    (ofChecked x : Except Violation (Product p q)) ≠ .error e := by
  cases x with
  | error e' =>
    intro h
    cases h
    exact hx rfl
  | ok n => exact nofun

lemma rescale_eq_ok {x : Product p q} {z : Fixed r} (h : p.decimals + q.decimals = r.decimals + n)
    (hn : n ≤ 38) : x.rescale = .ok z ↔ z.raw = x.raw.tdiv (10 ^ n) := by
  rw [rescale, Fixed.ofChecked_eq_ok, Int128.moveDecimals_eq_ok h hn, Rounding.quotient]

lemma rescaleCeil_eq_ok {x : Product p q} {z : Fixed r}
    (h : p.decimals + q.decimals = r.decimals + n) (hn : n ≤ 38) :
    x.rescaleCeil = .ok z ↔ z.raw = Rounding.ceil.quotient x.raw (10 ^ n) := by
  rw [rescaleCeil, Fixed.ofChecked_eq_ok, Int128.moveDecimals_eq_ok h hn]

lemma divTo_eq_ok {x : Product p q} {y : Fixed d} {z : Fixed r}
    (h : (r.decimals + d.decimals - (p.decimals + q.decimals) : ℤ) = 0) :
    x.divTo y = .ok z ↔ y.raw ≠ 0 ∧ z.raw = x.raw.tdiv y.raw := by
  rw [divTo, Fixed.ofChecked_eq_ok, Int128.divideShifted_eq_ok h (Nat.zero_le _)]
  have e : x.raw * 10 ^ 0 = x.raw := by ring
  simp only [e, x.fits, Rounding.quotient, true_and]

lemma divToCeil_eq_ok {x : Product p q} {y : Fixed d} {z : Fixed r}
    (h : (r.decimals + d.decimals - (p.decimals + q.decimals) : ℤ) = 0) :
    x.divToCeil y = .ok z ↔ y.raw ≠ 0 ∧ z.raw = Rounding.ceil.quotient x.raw y.raw := by
  rw [divToCeil, Fixed.ofChecked_eq_ok, Int128.divideShifted_eq_ok h (Nat.zero_le _)]
  have e : x.raw * 10 ^ 0 = x.raw := by ring
  simp only [e, x.fits, true_and]

lemma rescale_succeeds {x : Product p q} (h : p.decimals + q.decimals = r.decimals + n)
    (hn : n ≤ 38) (hx : 0 ≤ x.raw) : ∃ z : Fixed r, x.rescale = .ok z :=
  ⟨.ofRaw _ (Int128.fits_quotient .truncate hx x.fits (by positivity)),
    (rescale_eq_ok h hn).mpr rfl⟩

lemma divTo_succeeds {x : Product p q} {y : Fixed d}
    (h : (r.decimals + d.decimals - (p.decimals + q.decimals) : ℤ) = 0) (hx : 0 ≤ x.raw)
    (hy : 0 < y.raw) : ∃ z : Fixed r, x.divTo y = .ok z :=
  ⟨.ofRaw _ (Int128.fits_quotient .truncate hx x.fits hy), (divTo_eq_ok h).mpr ⟨hy.ne', rfl⟩⟩

lemma divToCeil_succeeds {x : Product p q} {y : Fixed d}
    (h : (r.decimals + d.decimals - (p.decimals + q.decimals) : ℤ) = 0) (hx : 0 ≤ x.raw)
    (hy : 0 < y.raw) : ∃ z : Fixed r, x.divToCeil y = .ok z :=
  ⟨.ofRaw _ (Int128.fits_quotient .ceil hx x.fits hy), (divToCeil_eq_ok h).mpr ⟨hy.ne', rfl⟩⟩

lemma sqrt_eq_ok {x : Product p q} {z : Fixed p} (h : p.decimals = q.decimals) :
    x.sqrt = .ok z ↔ 0 ≤ x.raw ∧ z.raw = floorSqrt x.raw.toNat := by
  unfold sqrt
  split_ifs with hp hx
  · exact absurd h hp
  · simp only [false_iff, not_and]
    omega
  · rw [Fixed.check_eq_ok]
    exact ⟨fun hz => ⟨by omega, hz⟩, And.right⟩

lemma sqrt_succeeds {x : Product p q} (h : p.decimals = q.decimals) (hx : 0 ≤ x.raw) :
    ∃ z, x.sqrt = .ok z := by
  have hroot := floorSqrt_le_self x.raw.toNat
  exact ⟨.ofRaw _ (Int128.fits_of_nonneg_of_le x.fits (Int.natCast_nonneg _) (by omega)),
    (sqrt_eq_ok h).mpr ⟨hx, rfl⟩⟩

end Product

end PerpExchange
