import PerpExchange.Liquidation.Takeover
import PerpExchange.Proofs.Liquidation.Outcome

/-!
What a takeover plans, and at which price.

The user is quoted the oracle price less the fee for a long and with the fee on top for a short,
each rounded against the user once in the price and once in the quote. The size covers the shortage
by what a unit of base is taken to free, where neither the position nor the cap is smaller.
-/

namespace PerpExchange

namespace PerpMarket

variable {m : PerpMarket} {oracle price : Price} {direction : Direction} {size : BaseAmount}
  {quote : QuoteAmount} {check : MarginTotal} {cover : Option BaseAmount}

/-- The quote that closing a unit of base is taken to free. -/
def freedPerBase (m : PerpMarket) (oracle : Price) : ℤ :=
  oracle.raw * (100 * m.maintenanceRatio.raw - m.liquidatorFee.raw) / 10 ^ 6

lemma takeoverPrice_long_eq_ok (h : m.takeoverPrice oracle .long size = .ok (price, quote)) :
    price.raw = (oracle.raw * (10 ^ 6 - m.liquidatorFee.raw)).tdiv (10 ^ 6) ∧
      baseValue size price = .ok quote := by
  have hone : (Fixed.one : LiquidationFee).raw = 10 ^ 6 := rfl
  simp only [takeoverPrice, bind_eq_ok, Failure.liftM_violation_eq_ok, Fixed.sub_eq_ok,
    Fixed.mul_eq_ok, pure_eq_ok, hone, Product.rescale_eq_ok (p := .price) (q := .liquidationFee)
      (r := .price) (n := 6) rfl (by norm_num)] at h
  obtain ⟨factor, hfactor, product, hproduct, price', hprice, received, hreceived, h⟩ := h
  cases h
  exact ⟨by rw [hprice, hproduct, hfactor], hreceived⟩

lemma takeoverPrice_short_eq_ok (h : m.takeoverPrice oracle .short size = .ok (price, quote)) :
    price.raw = Rounding.ceil.quotient (oracle.raw * (10 ^ 6 + m.liquidatorFee.raw)) (10 ^ 6) ∧
      quote.raw = -Rounding.ceil.quotient (size.raw * price.raw) (10 ^ 9) := by
  have hone : (Fixed.one : LiquidationFee).raw = 10 ^ 6 := rfl
  simp only [takeoverPrice, feePremium, bind_eq_ok, Failure.liftM_violation_eq_ok,
    Fixed.add_eq_ok, Fixed.mul_eq_ok, Fixed.neg_eq_ok, pure_eq_ok, hone,
    Product.rescaleCeil_eq_ok (p := .price) (q := .liquidationFee) (r := .price) (n := 6) rfl
      (by norm_num),
    Product.rescaleCeil_eq_ok (p := .base) (q := .price) (r := .quote) (n := 9) rfl
      (by norm_num)] at h
  obtain ⟨factor, hfactor, product, hproduct, price', hprice, value, hvalue, paid, hpaid, quote',
    hquote, h⟩ := h
  cases h
  exact ⟨by rw [hprice, hproduct, hfactor], by rw [hquote, hpaid, hvalue]⟩

lemma takeoverPrice_eq_ok (h : m.takeoverPrice oracle direction size = .ok (price, quote))
    (hprice : 0 < oracle.raw) (hsize : 0 < size.raw) (hfee_le : m.liquidatorFee.raw ≤ 10 ^ 6) :
    quote.raw =
      size.raw * (direction.sign * oracle.raw - m.feeOn oracle.raw) / 10 ^ 9 := by
  cases direction with
  | long =>
    obtain ⟨hdiscount, hreceived⟩ := takeoverPrice_long_eq_ok h
    have hnonneg : 0 ≤ oracle.raw * (10 ^ 6 - m.liquidatorFee.raw) :=
      mul_nonneg hprice.le (by omega)
    rw [Int.tdiv_eq_ediv_of_nonneg hnonneg] at hdiscount
    rw [raw_baseValue hreceived (hdiscount ▸ Int.ediv_nonneg hnonneg (by norm_num)), notional,
      abs_of_pos hsize, hdiscount, m.sub_feeOn, Direction.sign, one_mul]
  | short =>
    obtain ⟨hpremium, hpaid⟩ := takeoverPrice_short_eq_ok h
    rw [hpaid, Rounding.neg_ceil_quotient _ (by norm_num), hpremium, m.add_feeOn, Direction.sign]
    congr 1
    ring

/-- The quote of a takeover is its size at the oracle price less the fee, rounded against the user
by less than one unit of quote and one unit of price. -/
lemma takeoverPrice_bounds (h : m.takeoverPrice oracle direction size = .ok (price, quote))
    (hprice : 0 < oracle.raw) (hsize : 0 < size.raw) (hfee : 0 ≤ m.liquidatorFee.raw)
    (hfee_le : m.liquidatorFee.raw ≤ 10 ^ 6) :
    quote.raw * 10 ^ 15 ≤ size.raw * oracle.raw * (direction.sign * 10 ^ 6 - m.liquidatorFee.raw) ∧
      size.raw * oracle.raw * (direction.sign * 10 ^ 6 - m.liquidatorFee.raw) <
        quote.raw * 10 ^ 15 + 10 ^ 15 + 10 ^ 6 * size.raw := by
  cases direction with
  | long =>
    obtain ⟨hdiscount, hreceived⟩ := takeoverPrice_long_eq_ok h
    have hdiscounted : 0 ≤ oracle.raw * (10 ^ 6 - m.liquidatorFee.raw) :=
      mul_nonneg hprice.le (by omega)
    rw [Int.tdiv_eq_ediv_of_nonneg hdiscounted] at hdiscount
    have hle := Int.ediv_mul_le (oracle.raw * (10 ^ 6 - m.liquidatorFee.raw))
      (show (10 ^ 6 : ℤ) ≠ 0 by norm_num)
    have hlt := Int.lt_ediv_add_one_mul_self (oracle.raw * (10 ^ 6 - m.liquidatorFee.raw))
      (show (0 : ℤ) < 10 ^ 6 by norm_num)
    rw [← hdiscount] at hle hlt
    obtain ⟨hquote_le, hquote_lt⟩ := notional_bounds size.raw price.raw
    rw [← raw_baseValue hreceived (by rw [hdiscount]; positivity), abs_of_pos hsize]
      at hquote_le hquote_lt
    have hle' := mul_le_mul_of_nonneg_left hle hsize.le
    have hlt' := mul_lt_mul_of_pos_left hlt hsize
    simp only [Direction.sign]
    constructor <;> linarith
  | short =>
    obtain ⟨hpremium, hpaid⟩ := takeoverPrice_short_eq_ok h
    obtain ⟨hle, hlt⟩ := Rounding.ceil_quotient_bounds
      (oracle.raw * (10 ^ 6 + m.liquidatorFee.raw)) (b := 10 ^ 6) (by norm_num)
    obtain ⟨hpaid_le, hpaid_lt⟩ :=
      Rounding.ceil_quotient_bounds (size.raw * price.raw) (b := 10 ^ 9) (by norm_num)
    rw [← hpremium] at hle hlt
    have hle' := mul_le_mul_of_nonneg_left hle hsize.le
    have hlt' := mul_lt_mul_of_pos_left hlt hsize
    rw [hpaid]
    simp only [Direction.sign]
    constructor <;> linarith

/-- A sized takeover covers the shortage at the quote that each unit of base is taken to free. -/
lemma baseToCover_eq_ok (h : m.baseToCover check oracle = .ok cover)
    (hkind : check.kind = .maintenance) (hfreed : 0 < m.freedPerBase oracle)
    (hprice : 0 < oracle.raw) :
    ∃ base, cover = some base ∧
      check.shortfall * 10 ^ 9 ≤ base.raw * m.freedPerBase oracle ∧
      base.raw * m.freedPerBase oracle < check.shortfall * 10 ^ 9 + m.freedPerBase oracle := by
  have hfraction : 0 < 100 * m.maintenanceRatio.raw - m.liquidatorFee.raw := by
    by_contra hnone
    have : m.freedPerBase oracle ≤ 0 := by
      refine Int.ediv_nonpos_of_nonpos_of_neg ?_ (by norm_num)
      exact mul_nonpos_of_nonneg_of_nonpos hprice.le (not_lt.mp hnone)
    omega
  simp only [baseToCover, hkind, bind_eq_ok, Failure.liftM_violation_eq_ok, Fixed.check_eq_ok,
    Fixed.sub_eq_ok, Precision.feeUnitsPerRatioUnit] at h
  obtain ⟨ratio, hratio, fraction, hfraction', h⟩ := h
  rw [if_neg (by omega)] at h
  simp only [bind_eq_ok, Failure.liftM_violation_eq_ok, Fixed.mul_eq_ok,
    Product.rescale_eq_ok (p := .price) (q := .liquidationFee) (r := .price) (n := 6) rfl
      (by norm_num)] at h
  obtain ⟨product, hproduct, freed, hfreed', h⟩ := h
  have hraw : freed.raw = m.freedPerBase oracle := by
    rw [hfreed', hproduct, hfraction', hratio, mul_comm m.maintenanceRatio.raw,
      Int.tdiv_eq_ediv_of_nonneg (mul_nonneg hprice.le hfraction.le), freedPerBase]
  rw [if_neg (by omega)] at h
  simp only [bind_eq_ok, Failure.liftM_violation_eq_ok, pure_eq_ok,
    Fixed.divToCeil_eq_ok (p := .quote) (q := .price) (r := .base) (n := 9) rfl (by norm_num)] at h
  obtain ⟨short, hshort, base, ⟨-, -, hbase⟩, rfl⟩ := h
  obtain ⟨hle, hlt⟩ := Rounding.ceil_quotient_bounds (short.raw * 10 ^ 9) hfreed
  rw [hraw] at hbase
  rw [← hbase, MarginTotal.raw_shortage hshort] at hle hlt
  exact ⟨base, rfl, hle, hlt⟩

end PerpMarket

namespace Takeover

variable {user after : Account} {market : MarketIndex} {cap : BaseAmount} {s : Snapshot}
  {t : Takeover} {m : PerpMarket} {decision : Decision Takeover} {liquidator : Liquidator}
  {position : PerpPosition} {record : LiquidationRecord}

/-- What a planned takeover rests on. -/
structure Planned (user : Account) (market : MarketIndex) (cap : BaseAmount) (s : Snapshot)
    (t : Takeover) (m : PerpMarket) : Prop where
  market_eq : s.perp market = .ok m
  oracle : ∃ reading, s.perpOracle market = .ok reading ∧ t.oraclePrice = reading.price
  oracle_pos : 0 < t.oraclePrice.raw
  check_eq : user.failingCheck s = .ok (some t.check)
  position_eq : user.perp? market = some t.position
  direction_eq : t.position.direction = some t.direction
  size : ∃ held cover, t.position.base.abs = .ok held ∧
    m.baseToCover t.check t.oraclePrice = .ok cover ∧ t.size = min (min held cap) (cover.getD held)
  size_pos : 0 < t.size.raw
  priced : m.takeoverPrice t.oraclePrice t.direction t.size = .ok (t.price, t.quote)
  valued : ∃ value, baseValue t.size t.oraclePrice = .ok value

lemma plan_eq_ok (h : plan user market cap s = .ok decision) :
    (user.failingCheck s = .ok none ∧ decision = .skip .sufficientCollateral) ∨
    (∃ check reason, user.failingCheck s = .ok (some check) ∧ decision = .skip reason ∧
      reason ≠ .sufficientCollateral) ∨
    ∃ t m, decision = .act t ∧ Planned user market cap s t m := by
  simp only [plan, bind_eq_ok, Failure.liftM_refusal_eq_ok, Refusal.guard_eq_ok,
    Snapshot.pricedPerpOracle_eq_ok] at h
  obtain ⟨-, -, m, hm, reading, ⟨hreading, hprice⟩, check, hcheck, h⟩ := h
  cases check with
  | none =>
    rw [pure_eq_ok] at h
    exact .inl ⟨hcheck, h.symm⟩
  | some check =>
    simp only [bind_eq_ok, Failure.liftM_refusal_eq_ok, Account.perp_eq_ok] at h
    obtain ⟨position, hposition, h⟩ := h
    cases hdirection : position.direction with
    | none =>
      simp only [hdirection, pure_eq_ok] at h
      exact .inr (.inl ⟨check, _, hcheck, h.symm, by decide⟩)
    | some direction =>
      simp only [hdirection, bind_eq_ok, Failure.liftM_violation_eq_ok] at h
      obtain ⟨held, hheld, cover, hcover, h⟩ := h
      split_ifs at h with hsize
      · rw [pure_eq_ok] at h
        exact .inr (.inl ⟨check, _, hcheck, h.symm, by decide⟩)
      · simp only [bind_eq_ok, Failure.liftM_violation_eq_ok, pure_eq_ok] at h
        obtain ⟨⟨price, quote⟩, hpriced, value, hvalue, paid, -, difference, -, feeAmount, -, h⟩ :=
          h
        refine .inr (.inr ⟨_, m, h.symm, ?_⟩)
        exact {
          market_eq := hm
          oracle := ⟨reading, hreading, rfl⟩
          oracle_pos := hprice
          check_eq := hcheck
          position_eq := hposition
          direction_eq := hdirection
          size := ⟨held, cover, hheld, hcover, rfl⟩
          size_pos := not_le.mp hsize
          priced := hpriced
          valued := ⟨value, hvalue⟩ }

lemma gated_plan {reading : OracleReading} (hcap : 0 < cap.raw) (hm : s.perp market = .ok m)
    (hreading : s.perpOracle market = .ok reading) (hprice : 0 < reading.price.raw) :
    Gated user s (plan user market cap s) Takeover.check := by
  have hguard : Refusal.guard (0 < cap.raw) (.amountNotPositive cap.raw) = .ok () :=
    Refusal.guard_eq_ok.mpr hcap
  have hpriced := Snapshot.pricedPerpOracle_eq_ok.mpr ⟨hreading, hprice⟩
  constructor
  · simp only [plan, Failure.liftM_refusal_eq_ok.mpr hguard, Failure.liftM_refusal_eq_ok.mpr hm,
      Failure.liftM_refusal_eq_ok.mpr hpriced, ok_bind]
    exact ⟨_, rfl, rfl⟩
  · intro decision h
    rcases plan_eq_ok h with ⟨hnone, rfl⟩ | ⟨check, reason, hcheck, rfl, hreason⟩ |
      ⟨t, m, rfl, hplanned⟩
    · exact ⟨none, hnone, by simp [Decision.RestsOn]⟩
    · exact ⟨some check, hcheck, by simp [Decision.RestsOn, hreason]⟩
    · exact ⟨some t.check, hplanned.check_eq, rfl⟩

/-- What a takeover leaves of an account, and what it records. -/
structure TakenOver (user after : Account) (market : MarketIndex) (t : Takeover)
    (position : PerpPosition) (record : LiquidationRecord) : Prop where
  perps_eq : after.perps = modifyFirst (·.market == market) (fun _ => position) user.perps
  spots_eq : after.spots = user.spots
  market_eq : position.market = t.position.market
  base_eq : position.base.raw = t.position.base.raw - t.direction.sign * t.size.raw
  quote_eq : position.quote.raw = t.position.quote.raw + t.quote.raw
  requirement_eq : record.requirement = t.check.requirement
  collateral_eq : record.collateral = t.check.collateral
  kind_eq : ∃ r, record.kind = .takeover r ∧ r.base.raw = -t.direction.sign * t.size.raw

lemma apply_eq_ok {outcome : LiquidationOutcome}
    (h : t.apply user market liquidator = .ok outcome) :
    ∃ after position record, outcome = .liquidated after record ∧
      TakenOver user after market t position record := by
  simp only [Takeover.apply, bind_eq_ok, Fixed.mulInt_eq_ok, pure_eq_ok] at h
  obtain ⟨base, hbase, update, hupdate, rfl⟩ := h
  obtain ⟨hposition, hquote⟩ := PerpPosition.apply_eq_ok hupdate
  refine ⟨_, update.position, _, rfl, ?_⟩
  exact {
    perps_eq := rfl
    spots_eq := rfl
    market_eq := PerpPosition.market_of_apply hupdate
    base_eq := by rw [hposition, hbase]; ring
    quote_eq := hquote
    requirement_eq := rfl
    collateral_eq := rfl
    kind_eq := ⟨_, rfl, by rw [hbase]; ring⟩ }

lemma Planned.size_le (h : Planned user market cap s t m) :
    t.size.raw ≤ |t.position.base.raw| := by
  obtain ⟨held, cover, hheld, -, hsize⟩ := h.size
  rw [hsize, Fixed.raw_min, Fixed.raw_min, Int.abs_eq_natAbs, ← Fixed.abs_eq_ok.mp hheld]
  exact (min_le_left _ _).trans (min_le_left _ _)

lemma Planned.size_le_cap (h : Planned user market cap s t m) : t.size.raw ≤ cap.raw := by
  obtain ⟨held, cover, -, -, hsize⟩ := h.size
  rw [hsize, Fixed.raw_min, Fixed.raw_min]
  exact (min_le_left _ _).trans (min_le_right _ _)

lemma Planned.base_eq (h : Planned user market cap s t m)
    (htaken : TakenOver user after market t position record) :
    t.position.base.raw = t.direction.sign * |t.position.base.raw| ∧
      position.base.raw = t.direction.sign * (|t.position.base.raw| - t.size.raw) := by
  have hbase := (PerpPosition.base_of_direction h.direction_eq).1
  exact ⟨hbase, by rw [htaken.base_eq, mul_sub, ← hbase]⟩

lemma Planned.moved_eq (h : Planned user market cap s t m)
    (htaken : TakenOver user after market t position record) :
    ∃ r, record.kind = .takeover r ∧ |r.base.raw| = t.size.raw := by
  obtain ⟨r, hr, hbase⟩ := htaken.kind_eq
  refine ⟨r, hr, ?_⟩
  rw [hbase, neg_mul, abs_neg, Direction.abs_sign_mul, abs_of_pos h.size_pos]

lemma recorded_of_apply
    (h : t.apply user market liquidator = .ok (.liquidated after record)) :
    user.Recorded after liquidator record ∧ ∃ base, record.kind = .takeover
      { market, oraclePrice := t.oraclePrice, base, quote := t.quote, fee := t.fee
        feeAmount := t.feeAmount } := by
  simp only [Takeover.apply, bind_eq_ok, pure_eq_ok] at h
  obtain ⟨base, -, update, -, h⟩ := h
  obtain ⟨hrecorded, hkind⟩ := Account.recorded_of_recordLiquidation (a := user) h rfl
  exact ⟨hrecorded, base, hkind⟩

lemma applied_of_liquidatePerp
    (h : user.liquidatePerp liquidator market cap s = .ok (.liquidated after record)) :
    ∃ t m, Planned user market cap s t m ∧
      t.apply user market liquidator = .ok (.liquidated after record) := by
  simp only [Account.liquidatePerp, bind_eq_ok] at h
  obtain ⟨decision, hplan, h⟩ := h
  rcases plan_eq_ok hplan with ⟨-, rfl⟩ | ⟨-, reason, -, rfl, -⟩ | ⟨t, m, rfl, hplanned⟩
  · cases h
  · cases h
  · exact ⟨t, m, hplanned, Failure.liftM_violation_eq_ok.mp h⟩

lemma liquidatePerp_eq_ok
    (h : user.liquidatePerp liquidator market cap s = .ok (.liquidated after record)) :
    ∃ t m position, Planned user market cap s t m ∧
      TakenOver user after market t position record := by
  obtain ⟨t, m, hplanned, happly⟩ := applied_of_liquidatePerp h
  obtain ⟨after, position, record, houtcome, htaken⟩ := apply_eq_ok happly
  cases houtcome
  exact ⟨t, m, position, hplanned, htaken⟩

end Takeover

end PerpExchange
