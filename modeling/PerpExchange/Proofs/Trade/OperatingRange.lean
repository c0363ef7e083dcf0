import PerpExchange.Proofs.Amm.Range
import PerpExchange.Proofs.Trade.Fill

/-!
Fills in the operating range.

Against a pool in range, an order of up to half of the base reserve is filled or passed over. The
one step that can fail is the size to a limit: it multiplies both reserves with the peg, which does
not always fit into 128 bits. The swaps never come near that bound, so an order without a limit is
always answered.
-/

namespace PerpExchange

lemma averagePrice_succeeds {quote : QuoteAmount} {base : BaseAmount} (hquote : 0 ≤ quote.raw)
    (hquote' : quote.raw ≤ 10 ^ 17) (hbase : 0 < base.raw) :
    ∃ price, averagePrice quote base = .ok price := by
  have hpaid : quote.abs = .ok quote := Fixed.abs_eq_ok.mpr (Int.natAbs_of_nonneg hquote).symm
  have hsize : base.abs = .ok base := Fixed.abs_eq_ok.mpr (Int.natAbs_of_nonneg hbase.le).symm
  have hfits : Fits (quote.raw * 10 ^ 9) := Int128.fits_of_bounds (by omega) (by omega)
  rw [averagePrice, hpaid, ok_bind, hsize, ok_bind]
  exact Fixed.divTo_succeeds (n := 9) rfl (by norm_num) hquote hfits hbase

namespace Order

variable {order : Order} {quoting : Amm} {k : Product .base .quoteReserve} {oracle limit : Price}
  {limit? : Option Price}

lemma sizeWithin_overflows (hlimit : order.price.limit? oracle = .ok (some limit))
    (hpos : 0 < limit.raw) (hk : quoting.invariant = .ok k)
    (h : ¬Fits (k.raw * quoting.peg.raw)) :
    order.sizeWithin quoting oracle =
      .error (.violation (.overflow "max_base_asset_amount_to_price")) := by
  rw [sizeWithin, Failure.liftM_violation_eq_ok.mpr hlimit, ok_bind]
  dsimp only
  rw [Failure.liftM_refusal_eq_ok.mpr (Refusal.guard_eq_ok (u := ()).mpr hpos), ok_bind,
    Failure.liftM_violation_of_error (Amm.sizeToPrice_overflows hk h limit), error_bind]

lemma sizeWithin_succeeds (hlimit : order.price.limit? oracle = .ok limit?)
    (hpos : ∀ limit ∈ limit?, 0 < limit.raw) (hk : quoting.invariant = .ok k)
    (hpeg : 0 ≤ quoting.peg.raw) (h : limit?.isSome → Fits (k.raw * quoting.peg.raw)) :
    ∃ most?, order.sizeWithin quoting oracle = .ok most? := by
  refine Failure.violation_bind_succeeds ⟨_, hlimit⟩ fun limit?' hlimit' => ?_
  cases hlimit.symm.trans hlimit'
  cases limit? with
  | none => exact ⟨_, rfl⟩
  | some limit =>
    have hlimit_pos := hpos limit rfl
    refine Failure.guard_bind_succeeds hlimit_pos ?_
    refine Failure.violation_bind_succeeds
      (Amm.sizeToPrice_succeeds hk (h rfl) hpeg hlimit_pos) fun found _ => ?_
    cases found <;> exact ⟨_, rfl⟩

lemma surplus_succeeds {quoted real : QuoteAmount} (hquoted : 0 ≤ quoted.raw)
    (hreal : 0 ≤ real.raw) (direction : Direction) :
    ∃ surplus, Order.surplus direction quoted real = .ok surplus := by
  cases direction with
  | long =>
    exact bind_succeeds
      (Fixed.check_succeeds (Int128.fits_sub quoted.fits real.fits hquoted hreal))
      fun _ _ => ⟨_, rfl⟩
  | short =>
    exact bind_succeeds
      (Fixed.check_succeeds (Int128.fits_sub real.fits quoted.fits hreal hquoted))
      fun _ _ => ⟨_, rfl⟩

lemma delta_succeeds {size : BaseAmount} {quote : QuoteAmount} (hsize : 0 ≤ size.raw)
    (hquote : 0 ≤ quote.raw) (direction : Direction) :
    ∃ change, Order.delta direction size quote = .ok change := by
  cases direction with
  | long =>
    exact bind_succeeds (Fixed.check_succeeds (Int128.fits_neg quote.fits hquote))
      fun _ _ => ⟨_, rfl⟩
  | short =>
    exact bind_succeeds (Fixed.check_succeeds (Int128.fits_neg size.fits hsize))
      fun _ _ => ⟨_, rfl⟩

end Order

namespace PerpMarket

variable {m : PerpMarket} {order : Order} {oracle : OracleReading} {amm quoting : Amm}
  {r : Reserves}

lemma fillSize_succeeds {size : BaseAmount} (hquoting : quoting.Swappable size.raw)
    (hamm : amm.Swappable size.raw) (hbudget : 0 ≤ amm.budget.raw)
    (hbudget' : amm.budget.raw ≤ 10 ^ 12) (direction : Direction) :
    ∃ f, m.fillSize amm quoting direction size = .ok f := by
  refine bind_succeeds (hquoting.swapBase_succeeds direction.swap) fun quoted hquoted => ?_
  refine bind_succeeds (hamm.swapBase_succeeds direction.swap) fun real hreal => ?_
  obtain ⟨hpaid, hpaid'⟩ := hquoting.quote_bounds (Amm.swapped_of_swapBase hquoted)
  obtain ⟨hmoved, hmoved'⟩ := hamm.quote_bounds (Amm.swapped_of_swapBase hreal)
  refine Failure.violation_bind_succeeds (Order.surplus_succeeds hpaid hmoved direction)
    fun surplus hsurplus => ?_
  have hsurplus_le : 0 ≤ surplus.raw ∧ surplus.raw ≤ 10 ^ 17 := by
    rw [Order.surplus_eq_ok hsurplus]
    cases direction with
    | long => simp only [Direction.sign]; omega
    | short => simp only [Direction.sign]; omega
  refine Failure.violation_bind_succeeds
    (Fixed.check_succeeds (Int128.fits_of_bounds (by omega) (by omega))) fun budget _ => ?_
  refine Failure.violation_bind_succeeds (Order.delta_succeeds hamm.size_pos.le hpaid direction)
    fun delta _ => ?_
  exact Failure.violation_bind_succeeds (averagePrice_succeeds hpaid hpaid' hamm.size_pos)
    fun price _ => ⟨_, rfl⟩

lemma fill_of_sizeWithin_error {e : Failure} (hsize : 0 < order.size.raw)
    (hactive : m.status = .active) (hamm : m.amm.repeg oracle = .ok amm)
    (hr : amm.spreadReserves order.direction = .ok r)
    (h : order.sizeWithin (amm.withReserves r) oracle.price = .error e) :
    m.fill order oracle = .error e := by
  rw [fill, Failure.liftM_refusal_eq_ok.mpr (Refusal.guard_eq_ok (u := ()).mpr hsize), ok_bind,
    if_neg (not_not.mpr hactive), Failure.liftM_violation_eq_ok.mpr hamm, ok_bind,
    Failure.liftM_violation_eq_ok.mpr hr, ok_bind]
  dsimp only
  rw [h, error_bind]

lemma fill_succeeds {most? : Option BaseAmount} (hm : m.amm.Operating)
    (hactive : m.status = .active) (hsize : 0 < order.size.raw)
    (hhalf : 2 * order.size.raw ≤ m.amm.baseReserve.raw)
    (hr : m.amm.spreadReserves order.direction = .ok r) (hnear : m.amm.Near r)
    (h : order.sizeWithin (m.amm.withReserves r) oracle.price = .ok most?) :
    ∃ outcome, m.fill order oracle = .ok outcome := by
  rw [fill, Failure.liftM_refusal_eq_ok.mpr (Refusal.guard_eq_ok (u := ()).mpr hsize), ok_bind,
    if_neg (not_not.mpr hactive),
    Failure.liftM_violation_eq_ok.mpr (Amm.repeg_of_intensity_zero hm.intensity), ok_bind,
    Failure.liftM_violation_eq_ok.mpr hr, ok_bind]
  dsimp only
  rw [h, ok_bind]
  cases most? with
  | none => exact ⟨_, rfl⟩
  | some most =>
    have hpos := Order.sizeWithin_pos h hsize
    have hle := Order.sizeWithin_le h
    obtain ⟨hbudget, hbudget'⟩ := hm.budget
    dsimp only
    rw [Failure.liftM_violation_eq_ok.mpr (standardize_of_step_one hm.step), ok_bind,
      if_neg hpos.not_ge]
    exact bind_succeeds
      (fillSize_succeeds (hnear.swappable hm hpos (by omega)) (hm.swappable hpos (by omega)) hbudget
        hbudget' order.direction)
      fun _ _ => ⟨_, rfl⟩

/-- **When a fill fails in the operating range.** Only the size to a limit can, and it does exactly
when the product of the reserves that quote the taker and the peg is out of range. Up to two units
of base, that is the product of the pool's own. -/
theorem fill_fails_in_range_iff {limit? : Option Price} (hm : m.amm.Operating)
    (hactive : m.status = .active) (hsize : 0 < order.size.raw)
    (hhalf : 2 * order.size.raw ≤ m.amm.baseReserve.raw)
    (hlimit : order.price.limit? oracle.price = .ok limit?)
    (hpos : ∀ limit ∈ limit?, 0 < limit.raw) :
    ∃ r, m.amm.spreadReserves order.direction = .ok r ∧
      (m.amm.baseReserve.raw - 2) * m.amm.quoteReserve.raw < r.base.raw * r.quote.raw ∧
      r.base.raw * r.quote.raw < (m.amm.baseReserve.raw + 2) * m.amm.quoteReserve.raw ∧
      ∀ e, m.fill order oracle = .error e ↔
        e = .violation (.overflow "max_base_asset_amount_to_price") ∧ limit?.isSome ∧
          2 ^ 127 ≤ r.base.raw * r.quote.raw * m.amm.peg.raw := by
  obtain ⟨r, hr⟩ := hm.spreadReserves_succeeds order.direction
  obtain ⟨hspread, hspread'⟩ := hm.spread order.direction
  have hnear := Amm.near_of_spreadReserves hr hspread hspread'
  obtain ⟨hgt, hlt⟩ := hnear.curve_bounds
  have hquoting := hnear.swappable hm hsize hhalf
  have hpeg := hquoting.peg_nonneg
  obtain ⟨k, hk⟩ := hquoting.invariant_succeeds
  obtain ⟨⟨hb, hq⟩, hproduct⟩ := Amm.invariant_eq_ok.mp hk
  have hnonneg : 0 ≤ k.raw * m.amm.peg.raw := mul_nonneg (hproduct ▸ (mul_pos hb hq).le) hpeg
  have hfits :
      Fits (k.raw * m.amm.peg.raw) ↔ r.base.raw * r.quote.raw * m.amm.peg.raw < 2 ^ 127 := by
    rw [Int128.fits_iff_of_nonneg hnonneg, hproduct]
    rfl
  refine ⟨r, hr, hgt, hlt, fun e => ?_⟩
  -- past the size to the limit nothing fails, so the product alone decides
  by_cases hover : limit?.isSome ∧ 2 ^ 127 ≤ r.base.raw * r.quote.raw * m.amm.peg.raw
  · obtain ⟨limit, rfl⟩ := Option.isSome_iff_exists.mp hover.1
    have hfails := Order.sizeWithin_overflows hlimit (hpos limit rfl) hk fun h =>
      (hfits.mp h).not_ge hover.2
    rw [fill_of_sizeWithin_error hsize hactive (Amm.repeg_of_intensity_zero hm.intensity) hr hfails]
    simp only [Except.error.injEq, hover, and_true]
    exact eq_comm
  · obtain ⟨most?, hmost⟩ := Order.sizeWithin_succeeds hlimit hpos hk hpeg
      fun hsome => hfits.mpr (not_le.mp fun h => hover ⟨hsome, h⟩)
    obtain ⟨outcome, houtcome⟩ := fill_succeeds hm hactive hsize hhalf hr hnear hmost
    rw [houtcome]
    simp only [reduceCtorEq, hover, and_false]

/-- A long of one base, at sixty or below. -/
def capped : Order := ⟨.long, Fixed.one, .limit (.ofRaw 60000000)⟩

theorem fill_fails_in_range_iff_even :
    ∃ outcome, (even (.ofRaw 50000000)).fill capped (.of (.ofRaw 50000000)) = .ok outcome := by
  have hlimit : capped.price.limit? (OracleReading.of (.ofRaw 50000000)).price =
      .ok (some (.ofRaw 60000000)) := rfl
  obtain ⟨r, -, -, hlt, hiff⟩ :=
    fill_fails_in_range_iff (m := even (.ofRaw 50000000))
      (Amm.operating_balanced (by decide) (by decide)) rfl (by decide) (by decide) hlimit
      fun _ hcap => Option.some.inj hcap ▸ by decide
  have hroom : r.base.raw * r.quote.raw * 50000000 < 2 ^ 127 := by
    have : r.base.raw * r.quote.raw < (500000000000000 + 2) * 500000000000000 := hlt
    omega
  cases hfill : (even (.ofRaw 50000000)).fill capped (.of (.ofRaw 50000000)) with
  | ok outcome => exact ⟨outcome, rfl⟩
  | error e => exact absurd ((hiff e).mp hfill).2.2 hroom.not_ge

/-- A market around five million base and as much quote reserve, at a peg of fifty. -/
def vast : PerpMarket := new ⟨0⟩ (Amm.balanced (.ofInt 5000000000000000) (.ofRaw 50000000))

/-- The size to a limit is out of range in a pool that fills the same order without a limit, below
that limit. -/
theorem fill_overflows_at_limit :
    vast.amm.Operating ∧ vast.status = .active ∧
    vast.fill capped (.of (.ofRaw 50000000)) =
      .error (.violation (.overflow "max_base_asset_amount_to_price")) ∧
    ∃ f, vast.fill { capped with price := .market } (.of (.ofRaw 50000000)) = .ok (.filled f) ∧
      f.size = capped.size ∧ f.averagePrice ≤ .ofRaw 60000000 :=
  ⟨Amm.operating_balanced (by decide) (by decide), rfl, rfl, by decide +kernel⟩

end PerpMarket

end PerpExchange
