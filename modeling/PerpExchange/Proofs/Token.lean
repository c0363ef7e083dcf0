import PerpExchange.Proofs.Number.Quotient
import PerpExchange.Token

/-!
Tokens against their quote value.

Tokens are worth a whole value, rounded down, exactly when the value does not exceed them. More
tokens have no smaller value and no smaller size at another precision, and a ratio of token amounts
is that of their sizes and of their values, up to one unit.
-/

namespace PerpExchange.TokenAmount

variable {a b c : TokenAmount} {price : Price} {value value' : QuoteAmount} {decimals : UInt32}
  {rounding : Rounding}

lemma quoteValue_eq_ok :
    a.quoteValue price rounding = .ok value ↔
      Fits (a.amount.raw * price.raw) ∧ a.decimals.toNat ≤ 38 ∧
        value.raw = rounding.quotient (a.amount.raw * price.raw) (10 ^ a.decimals.toNat) := by
  simp only [quoteValue, bind_eq_ok, Int128.check_eq_ok, Fixed.ofChecked_eq_ok]
  constructor
  · rintro ⟨product, hproduct, h⟩
    rw [Int128.divideShifted_neg_eq_ok product.fits, hproduct] at h
    exact ⟨hproduct ▸ product.fits, h⟩
  · rintro ⟨hfits, h⟩
    exact ⟨⟨_, hfits⟩, rfl, (Int128.divideShifted_neg_eq_ok hfits).mpr h⟩

lemma quoteValue_nonneg (h : a.quoteValue price rounding = .ok value) (ha : 0 ≤ a.amount.raw)
    (hprice : 0 ≤ price.raw) : 0 ≤ value.raw := by
  obtain ⟨-, -, hvalue⟩ := quoteValue_eq_ok.mp h
  rw [hvalue]
  exact Rounding.quotient_nonneg _ (mul_nonneg ha hprice) (by positivity)

lemma quoteValue_mono (h : a.quoteValue price rounding = .ok value)
    (h' : b.quoteValue price rounding = .ok value') (hprice : 0 ≤ price.raw)
    (hdecimals : a.decimals = b.decimals) (hle : a.amount.raw ≤ b.amount.raw) :
    value.raw ≤ value'.raw := by
  obtain ⟨-, -, hvalue⟩ := quoteValue_eq_ok.mp h
  obtain ⟨-, -, hvalue'⟩ := quoteValue_eq_ok.mp h'
  rw [hvalue, hvalue', hdecimals]
  exact rounding.quotient_mono (by positivity) (mul_le_mul_of_nonneg_right hle hprice)

/-- Values have the ratio of the tokens, up to one unit of the larger. -/
lemma quoteValue_mul_le (h : a.quoteValue price .truncate = .ok value)
    (h' : b.quoteValue price .truncate = .ok value') (hprice : 0 ≤ price.raw)
    (hdecimals : a.decimals = b.decimals) (ha : 0 ≤ a.amount.raw) (hb : 0 ≤ b.amount.raw)
    {x y : ℤ} (hx : 0 ≤ x) (hy : 0 ≤ y) (hle : a.amount.raw * x ≤ b.amount.raw * y) :
    value.raw * x ≤ (value'.raw + 1) * y := by
  obtain ⟨-, -, hvalue⟩ := quoteValue_eq_ok.mp h
  obtain ⟨-, -, hvalue'⟩ := quoteValue_eq_ok.mp h'
  have hunit : (0 : ℤ) < 10 ^ b.decimals.toNat := by positivity
  rw [Rounding.quotient, Int.tdiv_eq_ediv_of_nonneg (mul_nonneg ha hprice), hdecimals] at hvalue
  rw [Rounding.quotient, Int.tdiv_eq_ediv_of_nonneg (mul_nonneg hb hprice)] at hvalue'
  have hfloor := Int.ediv_mul_le (a.amount.raw * price.raw) hunit.ne'
  have hnext := Int.lt_ediv_add_one_mul_self (b.amount.raw * price.raw) hunit
  rw [← hvalue] at hfloor
  rw [← hvalue'] at hnext
  refine le_of_mul_le_mul_right ?_ hunit
  calc value.raw * x * 10 ^ b.decimals.toNat
      = value.raw * 10 ^ b.decimals.toNat * x := by ring
    _ ≤ a.amount.raw * price.raw * x := mul_le_mul_of_nonneg_right hfloor hx
    _ = a.amount.raw * x * price.raw := by ring
    _ ≤ b.amount.raw * y * price.raw := mul_le_mul_of_nonneg_right hle hprice
    _ = b.amount.raw * price.raw * y := by ring
    _ ≤ (value'.raw + 1) * 10 ^ b.decimals.toNat * y := mul_le_mul_of_nonneg_right hnext.le hy
    _ = (value'.raw + 1) * y * 10 ^ b.decimals.toNat := by ring

/-- Tokens are worth a whole value exactly when the value in tokens does not exceed them. -/
lemma le_quoteValue_iff (h : a.quoteValue price .truncate = .ok value)
    (hworth : 0 ≤ a.amount.raw * price.raw) {x : ℤ} :
    x ≤ value.raw ↔ x * 10 ^ a.decimals.toNat ≤ a.amount.raw * price.raw := by
  obtain ⟨-, -, hvalue⟩ := quoteValue_eq_ok.mp h
  rw [hvalue, Rounding.quotient, Int.tdiv_eq_ediv_of_nonneg hworth,
    Int.le_ediv_iff_mul_le (by positivity)]

lemma pos_of_quoteValue_pos (h : a.quoteValue price .truncate = .ok value) (hvalue : 0 < value.raw)
    (hprice : 0 < price.raw) : 0 < a.amount.raw := by
  obtain ⟨-, -, hquotient⟩ := quoteValue_eq_ok.mp h
  rw [hquotient, Rounding.quotient] at hvalue
  have hworth := Rounding.pos_of_tdiv_pos (by positivity) hvalue
  exact (pos_iff_pos_of_mul_pos hworth).mpr hprice

lemma quoteValue_of_le (h : a.quoteValue price .truncate = .ok value) (hprice : 0 ≤ price.raw)
    (hb : 0 ≤ b.amount.raw) (hle : b.amount.raw ≤ a.amount.raw)
    (hdecimals : b.decimals = a.decimals) :
    ∃ worth, b.quoteValue price .truncate = .ok worth := by
  obtain ⟨hfits, hmost, hvalue⟩ := quoteValue_eq_ok.mp h
  rw [Rounding.quotient] at hvalue
  have hworth : 0 ≤ b.amount.raw * price.raw := mul_nonneg hb hprice
  have hworth_le : b.amount.raw * price.raw ≤ a.amount.raw * price.raw :=
    mul_le_mul_of_nonneg_right hle hprice
  have hquotient : Fits ((b.amount.raw * price.raw).tdiv (10 ^ a.decimals.toNat)) :=
    Int128.fits_tdiv_of_le (by positivity) (hvalue ▸ value.fits) hworth hworth_le
  rw [← hdecimals] at hmost hquotient
  exact ⟨.ofRaw _ hquotient, quoteValue_eq_ok.mpr
    ⟨Int128.fits_of_nonneg_of_le hfits hworth hworth_le, hmost, rfl⟩⟩

/-! ### The size of tokens at another precision -/

section Size

variable {p : Precision} {size size' : Fixed p}

/-- An amount with these decimals, as an integer at `p`: more decimals multiply it and fewer cut
it. -/
def resized (p : Precision) (decimals : ℕ) (amount : ℤ) : ℤ :=
  if decimals ≤ p.decimals then amount * 10 ^ (p.decimals - decimals)
  else amount.tdiv (10 ^ (decimals - p.decimals))

lemma raw_rescale (h : a.rescale = .ok size) :
    size.raw = resized p a.decimals.toNat a.amount.raw := by
  rw [rescale, Fixed.ofChecked_eq_ok] at h
  unfold resized
  split_ifs with hle
  · exact Int128.raw_of_widened (by omega) h
  · exact Int128.raw_of_narrowed (by omega) h

lemma rescale_nonneg (h : a.rescale = .ok size) (ha : 0 ≤ a.amount.raw) : 0 ≤ size.raw := by
  rw [raw_rescale h, resized]
  split_ifs
  · positivity
  · exact Int.tdiv_nonneg ha (by positivity)

lemma rescale_mono (h : a.rescale = .ok size) (h' : b.rescale = .ok size')
    (hdecimals : a.decimals = b.decimals) (hle : a.amount.raw ≤ b.amount.raw) :
    size.raw ≤ size'.raw := by
  rw [raw_rescale h, raw_rescale h', hdecimals, resized, resized]
  split_ifs
  · exact mul_le_mul_of_nonneg_right hle (by positivity)
  · exact Int.tdiv_le_tdiv (by positivity) hle

lemma amount_mul_le (h : a.rescale = .ok size) (h' : b.rescale = .ok size')
    (hdecimals : a.decimals = b.decimals) (ha : 0 ≤ a.amount.raw) (hb : 0 ≤ b.amount.raw)
    {x y : ℤ} (hx : 0 ≤ x) (hy : 0 ≤ y) (hle : (size.raw + 1) * x ≤ size'.raw * y) :
    a.amount.raw * x ≤ b.amount.raw * y := by
  have hsize := raw_rescale h
  have hsize' := raw_rescale h'
  rw [hdecimals, resized] at hsize
  rw [resized] at hsize'
  split_ifs at hsize hsize'
  · obtain ⟨unit, hunit⟩ : ∃ unit : ℤ, unit = 10 ^ (p.decimals - b.decimals.toNat) := ⟨_, rfl⟩
    have hpos : 0 < unit := by rw [hunit]; positivity
    rw [← hunit] at hsize hsize'
    refine le_of_mul_le_mul_right ?_ hpos
    calc a.amount.raw * x * unit = size.raw * x := by rw [hsize]; ring
      _ ≤ (size.raw + 1) * x := mul_le_mul_of_nonneg_right (by omega) hx
      _ ≤ size'.raw * y := hle
      _ = b.amount.raw * y * unit := by rw [hsize']; ring
  · obtain ⟨unit, hunit⟩ : ∃ unit : ℤ, unit = 10 ^ (b.decimals.toNat - p.decimals) := ⟨_, rfl⟩
    have hpos : 0 < unit := by rw [hunit]; positivity
    rw [← hunit, Int.tdiv_eq_ediv_of_nonneg ha] at hsize
    rw [← hunit, Int.tdiv_eq_ediv_of_nonneg hb] at hsize'
    have hnext := Int.lt_ediv_add_one_mul_self a.amount.raw hpos
    have hfloor := Int.ediv_mul_le b.amount.raw hpos.ne'
    rw [← hsize] at hnext
    rw [← hsize'] at hfloor
    calc a.amount.raw * x ≤ (size.raw + 1) * unit * x := mul_le_mul_of_nonneg_right hnext.le hx
      _ = (size.raw + 1) * x * unit := by ring
      _ ≤ size'.raw * y * unit := mul_le_mul_of_nonneg_right hle hpos.le
      _ = size'.raw * unit * y := by ring
      _ ≤ b.amount.raw * y := mul_le_mul_of_nonneg_right hfloor hy

end Size

lemma ofQuoteValue_eq_ok (hdecimals : decimals.toNat ≤ 38) :
    ofQuoteValue value price decimals rounding = .ok a ↔
      a.decimals = decimals ∧ Fits (value.raw * 10 ^ decimals.toNat) ∧ price.raw ≠ 0 ∧
        a.amount.raw = rounding.quotient (value.raw * 10 ^ decimals.toNat) price.raw := by
  simp only [ofQuoteValue, bind_eq_ok, Int128.divideShifted_eq_ok rfl hdecimals, pure_eq_ok]
  constructor
  · rintro ⟨amount, h, rfl⟩
    exact ⟨rfl, h⟩
  · rintro ⟨hd, h⟩
    exact ⟨a.amount, h, by cases a; cases hd; rfl⟩

lemma min_eq_ok (h : a.min b = .ok c) :
    c.decimals = a.decimals ∧ a.decimals = b.decimals ∧
      c.amount.raw = Min.min a.amount.raw b.amount.raw := by
  simp only [TokenAmount.min, sameDecimals, bind_eq_ok, Violation.guard_eq_ok, pure_eq_ok] at h
  obtain ⟨-, hdecimals, rfl⟩ := h
  split_ifs with hless
  · exact ⟨hdecimals.symm, hdecimals, (min_eq_right hless.le).symm⟩
  · exact ⟨rfl, hdecimals, (min_eq_left (not_lt.mp hless)).symm⟩

end PerpExchange.TokenAmount
