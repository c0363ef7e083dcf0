import PerpExchange.Proofs.Amm.Quoting

/-!
Pools in the operating range.

The reserves that quote a taker of such a pool are a twentieth away from its own at most, and swaps
of up to two thirds of the base reserve are far from the limits of 128 bits on either of them. Only
the product of both reserves and the peg, which the size to a limit is computed from, can pass them.
-/

namespace PerpExchange

namespace Amm

variable {a : Amm} {direction : Direction} {r : Reserves}

/-! ### Swaps -/

/-- A pool on which a swap of `size` stays far from the limits of 128 bits. -/
structure Swappable (a : Amm) (size : ℤ) : Prop where
  base_le : a.baseReserve.raw ≤ 2 * 10 ^ 16
  quote_ge : 2 ≤ a.quoteReserve.raw
  quote_le : a.quoteReserve.raw ≤ 2 * 10 ^ 16
  peg_nonneg : 0 ≤ a.peg.raw
  peg_le : a.peg.raw ≤ 10 ^ 8
  size_pos : 0 < size
  size_le : 3 * size ≤ 2 * a.baseReserve.raw

namespace Swappable

variable {amount : BaseAmount} {swapDirection : SwapDirection}

/-- The quote reserve after the swap stays positive and at most triples. -/
lemma newQuote_bounds {size newBase : ℤ} (h : a.Swappable size)
    (hbase : newBase = a.baseReserve.raw + swapDirection.sign * size) :
    0 < newBase ∧ 0 < a.baseReserve.raw * a.quoteReserve.raw / newBase ∧
      a.baseReserve.raw * a.quoteReserve.raw / newBase ≤ 3 * a.quoteReserve.raw := by
  obtain ⟨-, hq, -, -, -, hsize, hle⟩ := h
  obtain ⟨hless, hmore⟩ : a.baseReserve.raw ≤ 3 * newBase ∧ newBase ≤ 2 * a.baseReserve.raw := by
    cases swapDirection with
    | add => simp only [SwapDirection.sign] at hbase; omega
    | remove => simp only [SwapDirection.sign] at hbase; omega
  have hpos : 0 < newBase := by omega
  have hone : 1 ≤ a.baseReserve.raw * a.quoteReserve.raw / newBase := by
    refine Int.le_ediv_of_mul_le hpos ?_
    calc 1 * newBase ≤ a.baseReserve.raw * 2 := by omega
      _ ≤ a.baseReserve.raw * a.quoteReserve.raw := mul_le_mul_of_nonneg_left hq (by omega)
  refine ⟨hpos, hone, Int.ediv_le_of_le_mul hpos ?_⟩
  calc a.baseReserve.raw * a.quoteReserve.raw
      ≤ 3 * newBase * a.quoteReserve.raw := mul_le_mul_of_nonneg_right hless (by omega)
    _ = 3 * a.quoteReserve.raw * newBase := by ring

/-- A move of the quote reserve is worth little, before and after it is brought to quote units. -/
lemma worth_bounds {size newQuote move : ℤ} (h : a.Swappable size) (hpos : 0 < newQuote)
    (hle : newQuote ≤ 3 * a.quoteReserve.raw) (hmove : move = |newQuote - a.quoteReserve.raw|) :
    (0 ≤ move ∧ move ≤ 10 ^ 17) ∧ (0 ≤ move * a.peg.raw ∧ move * a.peg.raw ≤ 10 ^ 25) ∧
      0 ≤ (move * a.peg.raw).tdiv quoteUnit ∧ (move * a.peg.raw).tdiv quoteUnit ≤ 10 ^ 16 := by
  have hquote := h.quote_le
  have hmove_nonneg : 0 ≤ move := hmove ▸ abs_nonneg _
  have hmove_le : move ≤ 10 ^ 17 := hmove ▸ abs_le.mpr ⟨by omega, by omega⟩
  have hworth : 0 ≤ move * a.peg.raw := mul_nonneg hmove_nonneg h.peg_nonneg
  have hmost := mul_le_mul hmove_le h.peg_le h.peg_nonneg (by norm_num)
  have hworth_le : move * a.peg.raw ≤ 10 ^ 25 := by omega
  rw [Int.tdiv_eq_ediv_of_nonneg hworth, quoteUnit]
  exact ⟨⟨hmove_nonneg, hmove_le⟩, ⟨hworth, hworth_le⟩, by omega, by omega⟩

-- What follows is the swap step by step: each step is in range by what the steps before it gave.

lemma invariant_succeeds {size : ℤ} (h : a.Swappable size) : ∃ k, a.invariant = .ok k := by
  obtain ⟨hb, hq, hq', -, -, hsize, hsize_le⟩ := h
  have hpos : 0 < a.baseReserve.raw * a.quoteReserve.raw := mul_pos (by omega) (by omega)
  have hle := mul_le_mul hb hq' (by omega) (by norm_num)
  have hfits : Fits (a.baseReserve.raw * a.quoteReserve.raw) :=
    Int128.fits_of_bounds (by omega) (by omega)
  exact ⟨⟨⟨_, hfits⟩⟩, invariant_eq_ok.mpr ⟨⟨by omega, by omega⟩, rfl⟩⟩

lemma baseAfter_succeeds (h : a.Swappable amount.raw) (direction : SwapDirection) :
    ∃ base, a.baseAfter amount direction = .ok base := by
  obtain ⟨hb, -, -, -, -, hsize, hsize_le⟩ := h
  obtain ⟨hge, hle⟩ : -10 ^ 38 ≤ a.baseReserve.raw + direction.sign * amount.raw ∧
      a.baseReserve.raw + direction.sign * amount.raw ≤ 10 ^ 38 := by
    cases direction with
    | add => simp only [SwapDirection.sign]; omega
    | remove => simp only [SwapDirection.sign]; omega
  exact ⟨.ofRaw _ (Int128.fits_of_bounds hge hle), baseAfter_eq_ok.mpr ⟨fun _ => by omega, rfl⟩⟩

lemma quoteFor_succeeds {size : ℤ} {newQuote : QuoteReserve} (h : a.Swappable size)
    (hpos : 0 < newQuote.raw) (hle : newQuote.raw ≤ 3 * a.quoteReserve.raw)
    (direction : SwapDirection) : ∃ quote, a.quoteFor newQuote direction = .ok quote := by
  have hquote := h.quote_le
  refine bind_succeeds (Fixed.check_succeeds (Int128.fits_of_bounds (by omega) (by omega)))
    fun difference hdifference => ?_
  rw [Fixed.sub_eq_ok] at hdifference
  obtain ⟨⟨hmove_nonneg, hmove_le⟩, -⟩ := h.worth_bounds hpos hle rfl
  refine bind_succeeds (Fixed.check_succeeds ?_) fun delta hdelta => ?_
  · rw [← Int.abs_eq_natAbs, hdifference]
    exact Int128.fits_of_bounds (by omega) (by omega)
  rw [Fixed.abs_eq_ok, ← Int.abs_eq_natAbs, hdifference] at hdelta
  obtain ⟨-, ⟨hworth, hworth_le⟩, hvalue_nonneg, hvalue_le⟩ := h.worth_bounds hpos hle hdelta
  have hfits : Fits (delta.raw * a.peg.raw) :=
    Int128.fits_of_bounds (by omega) (by omega)
  have hvalue_fits : Fits ((delta.raw * a.peg.raw).tdiv quoteUnit) :=
    Int128.fits_of_bounds (by omega) (by omega)
  refine bind_succeeds ⟨.ofRaw _ hvalue_fits, reserveToQuote_eq_ok.mpr ⟨hfits, rfl⟩⟩
    fun value hvalue => ?_
  obtain ⟨-, hvalue⟩ := reserveToQuote_eq_ok.mp hvalue
  cases direction with
  | add => exact ⟨_, rfl⟩
  | remove =>
    refine Fixed.check_succeeds ?_
    rw [hvalue, Fixed.raw_least]
    exact Int128.fits_of_bounds (by omega) (by omega)

lemma swapBase_succeeds (h : a.Swappable amount.raw) (direction : SwapDirection) :
    ∃ s, a.swapBase amount direction = .ok s := by
  refine Failure.guard_bind_succeeds h.size_pos ?_
  refine Failure.violation_bind_succeeds h.invariant_succeeds fun k hk => ?_
  refine bind_succeeds (h.baseAfter_succeeds direction) fun base hbase => ?_
  obtain ⟨⟨hb, hq⟩, hk⟩ := invariant_eq_ok.mp hk
  have hk_nonneg : 0 ≤ k.raw := hk ▸ (mul_pos hb hq).le
  obtain ⟨-, hbase⟩ := baseAfter_eq_ok.mp hbase
  obtain ⟨hpos, hquote_pos, hquote_le⟩ := h.newQuote_bounds hbase
  refine Failure.violation_bind_succeeds (Product.divTo_succeeds rfl hk_nonneg hpos)
    fun newQuote hnew => ?_
  obtain ⟨-, hnew⟩ := (Product.divTo_eq_ok rfl).mp hnew
  rw [← hk, ← Int.tdiv_eq_ediv_of_nonneg hk_nonneg, ← hnew] at hquote_pos hquote_le
  refine Failure.violation_bind_succeeds ⟨(), Violation.guard_eq_ok.mpr hquote_pos⟩ fun _ _ => ?_
  exact Failure.violation_bind_succeeds (h.quoteFor_succeeds hquote_pos hquote_le direction)
    fun _ _ => ⟨_, rfl⟩

lemma quote_bounds {s : Swap} (h : a.Swappable amount.raw)
    (hs : a.Swapped amount swapDirection s) : 0 ≤ s.quote.raw ∧ s.quote.raw ≤ 10 ^ 17 := by
  obtain ⟨-, hpos, hle⟩ := h.newQuote_bounds hs.newBase
  rw [← hs.newQuote] at hpos hle
  obtain ⟨-, -, hvalue, hvalue_le⟩ := h.worth_bounds hpos hle rfl
  rw [hs.quote_abs]
  cases swapDirection with
  | add => simp only [SwapDirection.charge]; omega
  | remove => simp only [SwapDirection.charge]; omega

end Swappable

/-! ### Spread reserves -/

/-- A pool of a thousand to ten million base and as much quote reserve, with a peg from 0.1 to 100,
spreads of up to 10%, and at most a million in its budget. It fills any size and never repegs. -/
structure Operating (a : Amm) : Prop where
  base : 10 ^ 12 ≤ a.baseReserve.raw ∧ a.baseReserve.raw ≤ 10 ^ 16
  quote : 10 ^ 12 ≤ a.quoteReserve.raw ∧ a.quoteReserve.raw ≤ 10 ^ 16
  peg : 10 ^ 5 ≤ a.peg.raw ∧ a.peg.raw ≤ 10 ^ 8
  spread : ∀ direction, 0 ≤ (a.spreadOf direction).raw ∧ (a.spreadOf direction).raw ≤ 10 ^ 5
  step : a.stepSize.raw = 1
  intensity : a.repegIntensity = 0
  budget : 0 ≤ a.budget.raw ∧ a.budget.raw ≤ 10 ^ 12

lemma operating_balanced {reserve : Int128} {peg : Peg}
    (hreserve : 10 ^ 12 ≤ reserve.raw ∧ reserve.raw ≤ 10 ^ 16)
    (hpeg : 10 ^ 5 ≤ peg.raw ∧ peg.raw ≤ 10 ^ 8) : (balanced reserve peg).Operating where
  base := hreserve
  quote := hreserve
  peg := hpeg
  spread direction := by cases direction <;> exact ⟨le_rfl, (by decide : (0 : ℤ) ≤ 10 ^ 5)⟩
  step := rfl
  intensity := rfl
  budget := ⟨le_rfl, (by decide : (0 : ℤ) ≤ 10 ^ 12)⟩

/-- Reserves on the curve of a pool, up to one unit of base, with a quote reserve that is a
twentieth away from the pool's at most. -/
structure Near (a : Amm) (r : Reserves) : Prop where
  quote_ge : 19 * a.quoteReserve.raw ≤ 20 * r.quote.raw
  quote_le : 20 * r.quote.raw ≤ 21 * a.quoteReserve.raw
  curve_gt : a.baseReserve.raw * a.quoteReserve.raw < r.base.raw * r.quote.raw + r.quote.raw
  curve_lt : r.base.raw * r.quote.raw < a.baseReserve.raw * a.quoteReserve.raw + r.quote.raw

lemma quoteShift_le {shift : QuoteReserve} (h : a.quoteShift direction = .ok shift)
    (hq : 0 ≤ a.quoteReserve.raw) (hspread : 0 ≤ (a.spreadOf direction).raw)
    (hspread' : (a.spreadOf direction).raw ≤ 10 ^ 5) : 20 * shift.raw ≤ a.quoteReserve.raw := by
  have hnonneg : 0 ≤ a.quoteReserve.raw * (a.spreadOf direction).raw := mul_nonneg hq hspread
  have hle : a.quoteReserve.raw * (a.spreadOf direction).raw ≤ a.quoteReserve.raw * 10 ^ 5 :=
    mul_le_mul_of_nonneg_left hspread' hq
  rw [quoteShift_eq_ok h, Int.tdiv_eq_ediv_of_nonneg hnonneg,
    Int.tdiv_eq_ediv_of_nonneg (Int.ediv_nonneg hnonneg (by norm_num))]
  omega

lemma near_of_spreadReserves (h : a.spreadReserves direction = .ok r)
    (hspread : 0 ≤ (a.spreadOf direction).raw) (hspread' : (a.spreadOf direction).raw ≤ 10 ^ 5) :
    a.Near r := by
  obtain ⟨⟨hb, hq⟩, shift, hshift, hquote, -, hbase⟩ := spreadReserves_eq_ok h
  have hnonneg := quoteShift_nonneg hshift hq.le hspread
  have hle := quoteShift_le hshift hq.le hspread hspread'
  obtain ⟨hge, hle⟩ : 19 * a.quoteReserve.raw ≤ 20 * r.quote.raw ∧
      20 * r.quote.raw ≤ 21 * a.quoteReserve.raw := by
    cases direction with
    | long => simp only [Direction.sign] at hquote; omega
    | short => simp only [Direction.sign] at hquote; omega
  have hpos : 0 < r.quote.raw := by omega
  obtain ⟨hgt, hlt⟩ := (spreadRounding direction).quotient_bounds (mul_pos hb hq).le hpos
  rw [← hbase] at hgt hlt
  exact ⟨hge, hle, by linarith, by linarith⟩

namespace Operating

lemma swappable (h : a.Operating) {size : ℤ} (hsize : 0 < size)
    (hle : 2 * size ≤ a.baseReserve.raw) : a.Swappable size := by
  obtain ⟨-, hb⟩ := h.base
  obtain ⟨hq, hq'⟩ := h.quote
  obtain ⟨hpeg, hpeg'⟩ := h.peg
  exact {
    base_le := by omega
    quote_ge := by omega
    quote_le := by omega
    peg_nonneg := by omega
    peg_le := hpeg'
    size_pos := hsize
    size_le := by omega }

lemma quoteShift_succeeds (h : a.Operating) (direction : Direction) :
    ∃ shift, a.quoteShift direction = .ok shift := by
  obtain ⟨hq, hq'⟩ := h.quote
  obtain ⟨hspread, hspread'⟩ := h.spread direction
  have hnonneg : 0 ≤ a.quoteReserve.raw * (a.spreadOf direction).raw :=
    mul_nonneg (by omega) hspread
  have hle := mul_le_mul hq' hspread' hspread (by norm_num)
  refine bind_succeeds (Fixed.mul_succeeds ?_) fun product hproduct => ?_
  · exact Int128.fits_of_bounds (by omega) (by omega)
  rw [Fixed.mul_eq_ok] at hproduct
  refine bind_succeeds (Product.rescale_succeeds (n := 6) rfl (by norm_num) (by omega))
    fun share hshare => ?_
  rw [Product.rescale_eq_ok (n := 6) rfl (by norm_num)] at hshare
  exact Fixed.divInt_succeeds (hshare ▸ Int.tdiv_nonneg (by omega) (by norm_num)) (by norm_num)

lemma spreadReserves_succeeds (h : a.Operating) (direction : Direction) :
    ∃ r, a.spreadReserves direction = .ok r := by
  obtain ⟨hb, -⟩ := h.base
  obtain ⟨-, hq'⟩ := h.quote
  obtain ⟨hspread, hspread'⟩ := h.spread direction
  have hone : a.Swappable 1 := h.swappable one_pos (by omega)
  refine bind_succeeds hone.invariant_succeeds fun k hk => ?_
  refine bind_succeeds (h.quoteShift_succeeds direction) fun shift hshift => ?_
  obtain ⟨⟨hb, hq⟩, hk⟩ := invariant_eq_ok.mp hk
  have hk_nonneg : 0 ≤ k.raw := hk ▸ (mul_pos hb hq).le
  have hnonneg := quoteShift_nonneg hshift hq.le hspread
  have hle := quoteShift_le hshift hq.le hspread hspread'
  cases direction with
  | long =>
    refine bind_succeeds (Fixed.check_succeeds ?_) fun quote hquote => ?_
    · exact Int128.fits_of_bounds (by omega) (by omega)
    rw [Fixed.add_eq_ok] at hquote
    exact bind_succeeds (Product.divTo_succeeds rfl hk_nonneg (by omega)) fun _ _ => ⟨_, rfl⟩
  | short =>
    refine bind_succeeds (Fixed.check_succeeds ?_) fun quote hquote => ?_
    · exact Int128.fits_of_bounds (by omega) (by omega)
    rw [Fixed.sub_eq_ok] at hquote
    have hpos : 0 < quote.raw := by omega
    refine bind_succeeds ⟨(), Violation.guard_eq_ok.mpr hpos⟩ fun _ _ => ?_
    exact bind_succeeds (Product.divToCeil_succeeds rfl hk_nonneg hpos) fun _ _ => ⟨_, rfl⟩

end Operating

namespace Near

lemma quote_pos (hr : a.Near r) (hq : 0 < a.quoteReserve.raw) : 0 < r.quote.raw := by
  have := hr.quote_ge
  omega

/-- Base reserves near the pool's are at most a nineteenth away from it, but for rounding. -/
lemma base_bounds (hr : a.Near r) (hb : 0 ≤ a.baseReserve.raw) (hq : 0 < a.quoteReserve.raw) :
    20 * a.baseReserve.raw < 21 * (r.base.raw + 1) ∧
      19 * (r.base.raw - 1) < 20 * a.baseReserve.raw := by
  have hpos := hr.quote_pos hq
  have hgt := hr.curve_gt
  have hlt := hr.curve_lt
  -- both sides times the quote reserve that quotes the taker, which the curve is about
  constructor
  · refine lt_of_mul_lt_mul_right ?_ hpos.le
    calc 20 * a.baseReserve.raw * r.quote.raw
        = a.baseReserve.raw * (20 * r.quote.raw) := by ring
      _ ≤ a.baseReserve.raw * (21 * a.quoteReserve.raw) :=
        mul_le_mul_of_nonneg_left hr.quote_le hb
      _ < 21 * (r.base.raw + 1) * r.quote.raw := by linarith
  · refine lt_of_mul_lt_mul_right ?_ hpos.le
    calc 19 * (r.base.raw - 1) * r.quote.raw
        < a.baseReserve.raw * (19 * a.quoteReserve.raw) := by linarith
      _ ≤ a.baseReserve.raw * (20 * r.quote.raw) := mul_le_mul_of_nonneg_left hr.quote_ge hb
      _ = 20 * a.baseReserve.raw * r.quote.raw := by ring

lemma curve_bounds (hr : a.Near r) :
    (a.baseReserve.raw - 2) * a.quoteReserve.raw < r.base.raw * r.quote.raw ∧
      r.base.raw * r.quote.raw < (a.baseReserve.raw + 2) * a.quoteReserve.raw := by
  have hge := hr.quote_ge
  have hle := hr.quote_le
  have hgt := hr.curve_gt
  have hlt := hr.curve_lt
  rw [sub_mul, add_mul]
  constructor <;> omega

lemma swappable (hr : a.Near r) (h : a.Operating) {size : ℤ} (hsize : 0 < size)
    (hle : 2 * size ≤ a.baseReserve.raw) : (a.withReserves r).Swappable size := by
  obtain ⟨hb, hb'⟩ := h.base
  obtain ⟨hq, hq'⟩ := h.quote
  obtain ⟨hpeg, hpeg'⟩ := h.peg
  obtain ⟨hless, hmore⟩ := hr.base_bounds (by omega) (by omega)
  have hquote_ge := hr.quote_ge
  have hquote_le := hr.quote_le
  exact {
    base_le := by rw [baseReserve_withReserves]; omega
    quote_ge := by rw [quoteReserve_withReserves]; omega
    quote_le := by rw [quoteReserve_withReserves]; omega
    peg_nonneg := by rw [peg_withReserves]; omega
    peg_le := hpeg'
    size_pos := hsize
    size_le := by rw [baseReserve_withReserves]; omega }

end Near

/-! ### The size to a limit -/

section Limit

variable {k : Product .base .quoteReserve} {limit : Price}

lemma sizeToPrice_overflows (hk : a.invariant = .ok k) (h : ¬Fits (k.raw * a.peg.raw))
    (limit : Price) :
    a.sizeToPrice limit = .error (.overflow "max_base_asset_amount_to_price") := by
  rw [sizeToPrice, baseAtPrice, hk, ok_bind, Int128.check, dif_neg h]
  rfl

lemma baseAtPrice_succeeds (hk : a.invariant = .ok k) (h : Fits (k.raw * a.peg.raw))
    (hpeg : 0 ≤ a.peg.raw) (hlimit : 0 < limit.raw) : ∃ base, a.baseAtPrice limit = .ok base := by
  obtain ⟨⟨hb, hq⟩, hproduct⟩ := invariant_eq_ok.mp hk
  have hpegged : 0 ≤ k.raw * a.peg.raw := mul_nonneg (hproduct ▸ (mul_pos hb hq).le) hpeg
  have hsquared := Int128.fits_quotient .truncate hpegged h hlimit
  refine bind_succeeds ⟨k, hk⟩ fun k' hk' => ?_
  cases hk.symm.trans hk'
  refine bind_succeeds ⟨⟨_, h⟩, Int128.check_eq_ok.mpr rfl⟩ fun pegged hraw => ?_
  rw [Int128.check_eq_ok] at hraw
  rw [← hraw] at hpegged hsquared
  refine bind_succeeds ⟨⟨_, hsquared⟩, Int128.divide_eq_ok.mpr ⟨hlimit.ne', rfl⟩⟩
    fun squared hquotient => ?_
  obtain ⟨-, hquotient⟩ := Int128.divide_eq_ok.mp hquotient
  exact Product.sqrt_succeeds rfl
    (hquotient ▸ Rounding.quotient_nonneg .truncate hpegged hlimit)

lemma sizeToPrice_succeeds (hk : a.invariant = .ok k) (h : Fits (k.raw * a.peg.raw))
    (hpeg : 0 ≤ a.peg.raw) (hlimit : 0 < limit.raw) : ∃ found, a.sizeToPrice limit = .ok found := by
  obtain ⟨⟨hb, -⟩, -⟩ := invariant_eq_ok.mp hk
  refine bind_succeeds (baseAtPrice_succeeds hk h hpeg hlimit) fun base hbase => ?_
  have hnonneg := (floorAt_of_baseAtPrice hbase hlimit).base_nonneg
  split_ifs
  · exact bind_succeeds
      (Fixed.check_succeeds (Int128.fits_sub base.fits a.baseReserve.fits hnonneg hb.le))
      fun _ _ => ⟨_, rfl⟩
  · exact bind_succeeds
      (Fixed.check_succeeds (Int128.fits_sub a.baseReserve.fits base.fits hb.le hnonneg))
      fun _ _ => ⟨_, rfl⟩
  · exact ⟨_, rfl⟩

end Limit

end Amm

end PerpExchange
