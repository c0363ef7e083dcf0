import Mathlib.Tactic.Linarith
import PerpExchange.Proofs.Liquidation.Takeover

/-!
What a takeover does to the shortage of the account.

The takeover costs the user the fee on the notional that moves, and rounding. Where the market
charges the margin ratio that sized the takeover, the requirement falls by more than that. A settled
market charges nothing, so there the shortage can only grow.
-/

namespace PerpExchange

variable {m : PerpMarket} {s : Snapshot}

namespace Account

variable {a : Account} {t : MarginTotal} {p : PerpPosition} {oracle : OracleReading}

lemma Margined.counted_perp (ha : a.Margined s .maintenance t) (hp : p ∈ a.perps)
    (hm : s.perp p.market = .ok m) (horacle : s.perpOracle p.market = .ok oracle)
    (hprice : 0 < oracle.price.raw) (hw : m.WeighsPnl) :
    PositionMargin.counted (p.marginIn s .maintenance) =
      (m.required (notional p.base.raw oracle.price.raw),
        m.countedPnl (p.exactPnl oracle.price)) := by
  cases hopen : p.isAvailable with
  | true =>
    rw [p.counted_of_available hopen, (PerpPosition.isAvailable_iff.mp hopen).1, notional_zero,
      PerpMarket.required_zero, PerpPosition.exactPnl_of_available hopen,
      PerpMarket.countedPnl_of_nonpos le_rfl]
    rfl
  | false =>
    obtain ⟨x, hx⟩ := ha.perps_ok p hp hopen
    obtain ⟨m', oracle', hm', horacle', -, hmargin⟩ := PerpPosition.marginIn_eq_ok hx
    cases hm.symm.trans hm'
    cases horacle.symm.trans horacle'
    obtain ⟨hrequirement, hcollateral⟩ := PerpPosition.margin_maintenance hmargin hprice.le hw
    rw [hx]
    exact Prod.ext hrequirement hcollateral

end Account

namespace PerpMarket

lemma Listed.charged_bounds (hm : m.Listed) : 0 ≤ m.chargedRatio ∧ m.chargedRatio ≤ 10 ^ 4 := by
  have hnonneg := hm.ratio_nonneg
  have hle := hm.ratio_le
  unfold chargedRatio
  split_ifs <;> omega

lemma Listed.freedPerBase_nonneg (hm : m.Listed) {price : Price} (hprice : 0 ≤ price.raw) :
    0 ≤ m.freedPerBase price := by
  have hfee := hm.fee_lt
  exact Int.ediv_nonneg (mul_nonneg hprice (by omega)) (by norm_num)

/-- Closing some base frees the margin that was charged for it, up to two roundings. -/
lemma Listed.required_sub_lt (hm : m.Listed) (price : ℤ) {held size : ℤ} (hsize : 0 ≤ size)
    (hle : size ≤ held) :
    10 ^ 15 * (m.required (notional (held - size) price) - m.required (notional held price)) <
      2 * 10 ^ 15 - 100 * m.chargedRatio * (size * price) := by
  obtain ⟨hratio, hratio_le⟩ := hm.charged_bounds
  obtain ⟨-, hbefore⟩ := notional_bounds held price
  obtain ⟨hafter, -⟩ := notional_bounds (held - size) price
  rw [abs_of_nonneg (by omega)] at hbefore hafter
  obtain ⟨hrequired, -⟩ := m.required_bounds (notional held price)
  obtain ⟨-, hrequired'⟩ := m.required_bounds (notional (held - size) price)
  have hclosed : (notional (held - size) price - notional held price) * 10 ^ 9 ≤
      10 ^ 9 - size * price := by linarith
  have hcharged := mul_le_mul_of_nonneg_left hclosed hratio
  linarith

end PerpMarket

namespace Takeover

variable {user after : Account} {market : MarketIndex} {cap : BaseAmount} {t : Takeover}
  {position : PerpPosition} {record : LiquidationRecord} {before rest : MarginTotal}

/-- The pnl that a takeover costs the user. -/
def pnlLost (t : Takeover) (position : PerpPosition) : ℤ :=
  t.position.exactPnl t.oraclePrice - position.exactPnl t.oraclePrice

/-- The part of a lost pnl that had counted as collateral. -/
def collateralLost (t : Takeover) (position : PerpPosition) (m : PerpMarket) : ℤ :=
  m.countedPnl (t.position.exactPnl t.oraclePrice) - m.countedPnl (position.exactPnl t.oraclePrice)

lemma Planned.size_eq {cover : BaseAmount} (h : Planned user market cap s t m)
    (hcover : m.baseToCover t.check t.oraclePrice = .ok (some cover)) :
    t.size.raw = min (min |t.position.base.raw| cap.raw) cover.raw := by
  obtain ⟨held, cover', hheld, hcover', hsize⟩ := h.size
  cases hcover.symm.trans hcover'
  rw [hsize, Option.getD_some, Fixed.raw_min, Fixed.raw_min, Fixed.abs_eq_ok.mp hheld,
    Int.abs_eq_natAbs]

/-- A takeover costs the fee on the notional that moves, up to three roundings. -/
lemma Planned.pnlLost_bounds (h : Planned user market cap s t m)
    (htaken : TakenOver user after market t position record) (hfee : 0 ≤ m.liquidatorFee.raw)
    (hfee_le : m.liquidatorFee.raw ≤ 10 ^ 6) :
    t.size.raw * (t.oraclePrice.raw * m.liquidatorFee.raw) < 10 ^ 15 * (t.pnlLost position + 1) ∧
      10 ^ 15 * (t.pnlLost position - 2) <
        t.size.raw * (t.oraclePrice.raw * m.liquidatorFee.raw + 10 ^ 6) := by
  obtain ⟨hbase, hbase'⟩ := h.base_eq htaken
  obtain ⟨hquote_le, hquote_lt⟩ :=
    PerpMarket.takeoverPrice_bounds h.priced h.oracle_pos h.size_pos hfee hfee_le
  have hsize := h.size_le
  obtain ⟨hbefore_le, hbefore_lt⟩ := notional_bounds |t.position.base.raw| t.oraclePrice.raw
  obtain ⟨hafter_le, hafter_lt⟩ :=
    notional_bounds (|t.position.base.raw| - t.size.raw) t.oraclePrice.raw
  rw [abs_abs] at hbefore_le hbefore_lt
  rw [abs_of_nonneg (sub_nonneg.mpr hsize)] at hafter_le hafter_lt
  rw [pnlLost, PerpPosition.exactPnl_eq (abs_nonneg _) hbase,
    PerpPosition.exactPnl_eq (sub_nonneg.mpr hsize) hbase', htaken.quote_eq]
  cases hdirection : t.direction <;>
    simp only [hdirection, Direction.sign] at hquote_le hquote_lt ⊢ <;>
    constructor <;> linarith

/-- A takeover never raises the pnl, so the collateral falls by no more than the pnl. -/
lemma Planned.collateralLost_bounds (h : Planned user market cap s t m)
    (htaken : TakenOver user after market t position record) (hm : m.Listed)
    (hfee : 0 ≤ m.liquidatorFee.raw) (hw : m.WeighsPnl) :
    0 ≤ t.collateralLost position m ∧ t.collateralLost position m ≤ t.pnlLost position := by
  have hfee_lt := hm.fee_lt
  have hratio := hm.ratio_le
  obtain ⟨hlost, -⟩ := h.pnlLost_bounds htaken hfee (by omega)
  have hcharge : 0 ≤ t.size.raw * (t.oraclePrice.raw * m.liquidatorFee.raw) :=
    mul_nonneg h.size_pos.le (mul_nonneg h.oracle_pos.le hfee)
  exact hw.countedPnl_sub (by rw [pnlLost] at hlost; omega)

lemma Planned.mem_position (h : Planned user market cap s t m) : t.position ∈ user.perps :=
  List.mem_of_find?_eq_some h.position_eq

lemma TakenOver.perp?_eq (h : TakenOver user after market t position record)
    (hposition : user.perp? market = some t.position) : after.perp? market = some position := by
  have hmarket := h.market_eq.trans (Account.market_of_perp? hposition)
  rw [Account.perp?, h.perps_eq, find?_modifyFirst fun _ _ => by simpa using hmarket]
  exact congrArg _ hposition

/-- The requirement and the collateral of the account change by those of the position. -/
lemma Planned.shortage_after (h : Planned user market cap s t m)
    (htaken : TakenOver user after market t position record)
    (hkind : t.check.kind = .maintenance) (hrest : after.margin s .maintenance = .ok rest)
    (hw : m.WeighsPnl) :
    rest.requirement.raw - rest.collateral.raw = t.check.shortfall +
      (m.required (notional (|t.position.base.raw| - t.size.raw) t.oraclePrice.raw) -
        m.required (notional |t.position.base.raw| t.oraclePrice.raw)) +
      t.collateralLost position m := by
  obtain ⟨hbefore, hshort⟩ := Account.margin_of_failingCheck h.check_eq hkind
  have hm := Account.margined_of_margin hbefore
  have hm' := Account.margined_of_margin hrest
  obtain ⟨reading, hreading, hprice⟩ := h.oracle
  have hpos := h.oracle_pos
  have hmarket := Account.market_of_perp? h.position_eq
  have hmarket' := htaken.market_eq.trans hmarket
  have hmem' : position ∈ after.perps :=
    List.mem_of_find?_eq_some (htaken.perp?_eq h.position_eq)
  have hcounted := hm.counted_perp h.mem_position (hmarket ▸ h.market_eq) (hmarket ▸ hreading)
    (hprice ▸ hpos) hw
  have hcounted' := hm'.counted_perp hmem' (hmarket' ▸ h.market_eq) (hmarket' ▸ hreading)
    (hprice ▸ hpos) hw
  obtain ⟨hbase, hbase'⟩ := h.base_eq htaken
  have hpair := Account.pair_of_replaced hm hm' h.position_eq htaken.spots_eq htaken.perps_eq
  rw [hcounted, hcounted', hbase, notional_sign_mul, hbase', notional_sign_mul, ← hprice] at hpair
  obtain ⟨hrequirement, hcollateral⟩ := Prod.ext_iff.mp hpair
  simp only [MarginTotal.pair, Prod.fst_add, Prod.fst_sub, Prod.snd_add, Prod.snd_sub]
    at hrequirement hcollateral
  obtain ⟨hshortfall, -⟩ := MarginTotal.shortfall_of_not_isMet (t := t.check) (by simp [hshort])
  rw [hrequirement, hcollateral, hshortfall, collateralLost]
  ring

/-- Where the ratio that sized the takeover is charged, a unit of base frees what it is taken to. -/
lemma Planned.shortage_freed (h : Planned user market cap s t m)
    (htaken : TakenOver user after market t position record)
    (hkind : t.check.kind = .maintenance) (hrest : after.margin s .maintenance = .ok rest)
    (hm : m.Listed) (hstatus : m.status ≠ .settlement) (hfee : 0 ≤ m.liquidatorFee.raw)
    (hw : m.WeighsPnl) :
    rest.shortfall = 0 ∨ 10 ^ 9 * (rest.shortfall - t.check.shortfall - 4) <
      t.size.raw - t.size.raw * m.freedPerBase t.oraclePrice := by
  have hfee_lt := hm.fee_lt
  have hratio := hm.ratio_le
  obtain ⟨-, hpnl⟩ := h.pnlLost_bounds htaken hfee (by omega)
  obtain ⟨-, hcollateral⟩ := h.collateralLost_bounds htaken hm hfee hw
  have hrequired := hm.required_sub_lt t.oraclePrice.raw h.size_pos.le h.size_le
  rw [PerpMarket.chargedRatio, if_neg hstatus] at hrequired
  have hfreed : m.freedPerBase t.oraclePrice * 10 ^ 6 ≤
      t.oraclePrice.raw * (100 * m.maintenanceRatio.raw - m.liquidatorFee.raw) :=
    Int.ediv_mul_le _ (by norm_num)
  have hsized := mul_le_mul_of_nonneg_left hfreed h.size_pos.le
  rcases max_choice (rest.requirement.raw - rest.collateral.raw) 0 with hleft | hnone
  · rw [MarginTotal.shortfall, hleft, h.shortage_after htaken hkind hrest hw]
    exact .inr (by linarith)
  · exact .inl hnone

/-- A settled market frees nothing, and the lost collateral is added to the shortage. -/
lemma Planned.shortage_of_settlement (h : Planned user market cap s t m)
    (htaken : TakenOver user after market t position record)
    (hkind : t.check.kind = .maintenance) (hrest : after.margin s .maintenance = .ok rest)
    (hm : m.Listed) (hstatus : m.status = .settlement) (hfee : 0 ≤ m.liquidatorFee.raw)
    (hw : m.WeighsPnl) : rest.shortfall = t.check.shortfall + t.collateralLost position m := by
  have hshort : 0 ≤ t.check.shortfall := le_max_right _ _
  obtain ⟨hlost, -⟩ := h.collateralLost_bounds htaken hm hfee hw
  rw [MarginTotal.shortfall, h.shortage_after htaken hkind hrest hw,
    PerpMarket.required_of_settlement hstatus, PerpMarket.required_of_settlement hstatus, sub_self,
    add_zero, max_eq_left (by omega)]

/-- While margin is charged the shortage does not grow beyond rounding. Once it is not, that is up
to the collateral that is lost. -/
lemma Planned.shortage_grows_iff (h : Planned user market cap s t m)
    (htaken : TakenOver user after market t position record)
    (hkind : t.check.kind = .maintenance) (hrest : after.margin s .maintenance = .ok rest)
    (hm : m.Listed) (hfee : 0 ≤ m.liquidatorFee.raw) (hw : m.WeighsPnl) :
    10 ^ 9 * (rest.shortfall - t.check.shortfall - 4) < t.size.raw ↔
      (m.status = .settlement → 10 ^ 9 * (t.collateralLost position m - 4) < t.size.raw) := by
  by_cases hstatus : m.status = .settlement
  · rw [h.shortage_of_settlement htaken hkind hrest hm hstatus hfee hw, add_sub_cancel_left]
    exact ⟨fun hbound _ => hbound, fun hbound => hbound hstatus⟩
  · refine iff_of_true ?_ fun hsettled => absurd hsettled hstatus
    have hsize := h.size_pos
    have hshort : 0 ≤ t.check.shortfall := le_max_right _ _
    have hfreed := mul_nonneg hsize.le (hm.freedPerBase_nonneg h.oracle_pos.le)
    rcases h.shortage_freed htaken hkind hrest hm hstatus hfee hw with hnone | hleft <;> linarith

/-- Lost pnl counts in full for a position that is at a loss. -/
lemma collateralLost_of_loss (hloss : t.position.exactPnl t.oraclePrice ≤ 0)
    (hlost : 0 ≤ t.pnlLost position) : t.collateralLost position m = t.pnlLost position := by
  rw [pnlLost] at hlost
  rw [collateralLost, PerpMarket.countedPnl_of_nonpos hloss,
    PerpMarket.countedPnl_of_nonpos (by omega), pnlLost]

end Takeover

/-- A market with a liquidator fee of 1.5%. -/
def PerpMarket.withFee (status : MarketStatus) : PerpMarket :=
  { empty with status, liquidatorFee := .ofRaw 15000 }

/-- That market at a price of twenty, next to the quote asset. -/
def Snapshot.atTwenty (status : MarketStatus) : Snapshot :=
  (empty.withPerp (.withFee status) (.of (.ofRaw 20000000))).withSpot .quote none

namespace Account

variable {user after : Account} {market : MarketIndex} {cap : BaseAmount} {liquidator : Liquidator}
  {record : LiquidationRecord} {before rest : MarginTotal} {oracle : OracleReading}

/-- A long of six base that lost sixteen at a price of twenty, against a deposit. -/
def underwater (deposit : Balance) : Account :=
  { new ⟨1⟩ with
    perps := [⟨⟨0⟩, .ofRaw 6000000000, .ofRaw (-136000000), .ofRaw (-136000000)⟩]
    spots := [{ SpotPosition.new .quote with balance := deposit }] }

lemma planned_of_liquidatePerp
    (h : user.liquidatePerp liquidator market cap s = .ok (.liquidated after record))
    (hmarket : s.perp market = .ok m) (horacle : s.perpOracle market = .ok oracle)
    (hcheck : user.failingCheck s = .ok (some before)) :
    ∃ t q, Takeover.Planned user market cap s t m ∧
      Takeover.TakenOver user after market t q record ∧ before = t.check ∧
      t.oraclePrice = oracle.price := by
  obtain ⟨t, m', q, hplanned, htaken⟩ := Takeover.liquidatePerp_eq_ok h
  obtain ⟨reading, hreading, hprice⟩ := hplanned.oracle
  cases hmarket.symm.trans hplanned.market_eq
  cases hcheck.symm.trans hplanned.check_eq
  cases horacle.symm.trans hreading
  exact ⟨t, q, hplanned, htaken, rfl, hprice⟩

/-- **A takeover covers the shortage**, if it is not cut short. Every unit of base that moves takes
off the shortage what the sizing expects of it, up to less than four quote units and the rounding of
the price. So where neither the position nor the cap cuts the size, what remains is rounding. -/
theorem liquidatePerp_covers_shortage
    (h : user.liquidatePerp liquidator market cap s = .ok (.liquidated after record))
    (hmarket : s.perp market = .ok m) (horacle : s.perpOracle market = .ok oracle)
    (hcheck : user.failingCheck s = .ok (some before)) (hkind : before.kind = .maintenance)
    (hrest : after.margin s .maintenance = .ok rest) (hm : m.Listed)
    (hstatus : m.status ≠ .settlement) (hfee : 0 ≤ m.liquidatorFee.raw) (hw : m.WeighsPnl)
    (hfreed : 0 < m.freedPerBase oracle.price) :
    ∃ r p cover, record.kind = .takeover r ∧ user.perp market = .ok p ∧
      m.baseToCover before oracle.price = .ok (some cover) ∧
      let moved := |r.base.raw|
      moved = min (min |p.base.raw| cap.raw) cover.raw ∧
      (rest.shortfall = 0 ∨
        10 ^ 9 * (rest.shortfall - before.shortfall - 4) <
          moved - moved * m.freedPerBase oracle.price) ∧
      (moved = cover.raw → 10 ^ 9 * rest.shortfall < 4 * 10 ^ 9 + moved) := by
  obtain ⟨t, q, hplanned, htaken, rfl, hprice⟩ := planned_of_liquidatePerp h hmarket horacle hcheck
  rw [← hprice] at hfreed ⊢
  obtain ⟨r, hr, hmoved⟩ := hplanned.moved_eq htaken
  obtain ⟨held, cover, -, hcover, -⟩ := hplanned.size
  obtain ⟨cover, rfl, hsized, -⟩ :=
    PerpMarket.baseToCover_eq_ok hcover hkind hfreed hplanned.oracle_pos
  have hcovered := hplanned.shortage_freed htaken hkind hrest hm hstatus hfee hw
  refine ⟨r, t.position, cover, hr, by simpa using hplanned.position_eq, hcover, ?_⟩
  rw [hmoved]
  refine ⟨hplanned.size_eq hcover, hcovered, fun hfull => ?_⟩
  rw [← hfull] at hsized
  have hsize := hplanned.size_pos
  rcases hcovered with hnone | hleft <;> linarith

lemma underwater_liquidated : ∃ after record before rest,
    (underwater (.ofRaw 21000000000)).liquidatePerp ⟨⟨0⟩, ⟨2⟩⟩ ⟨0⟩ (.ofRaw 6000000000)
      (.atTwenty .active) = .ok (.liquidated after record) ∧
    (underwater (.ofRaw 21000000000)).failingCheck (.atTwenty .active) = .ok (some before) ∧
    after.margin (.atTwenty .active) .maintenance = .ok rest ∧ before.kind = .maintenance :=
  ⟨_, _, _, _, rfl, rfl, rfl, rfl⟩

theorem liquidatePerp_covers_shortage_long : ∃ after record, ∃ rest : MarginTotal, ∃ r,
    ∃ cover : BaseAmount,
      (underwater (.ofRaw 21000000000)).liquidatePerp ⟨⟨0⟩, ⟨2⟩⟩ ⟨0⟩ (.ofRaw 6000000000)
        (.atTwenty .active) = .ok (.liquidated after record) ∧
      after.margin (.atTwenty .active) .maintenance = .ok rest ∧ record.kind = .takeover r ∧
      |r.base.raw| = min 6000000000 cover.raw ∧
      (|r.base.raw| = cover.raw → 10 ^ 9 * rest.shortfall < 4 * 10 ^ 9 + |r.base.raw|) := by
  obtain ⟨after, record, before, rest, h, hcheck, hrest, hkind⟩ := underwater_liquidated
  obtain ⟨r, p, cover, hr, hp, -, hsize, -, hcovered⟩ :=
    liquidatePerp_covers_shortage (m := .withFee .active) h rfl rfl hcheck hkind hrest
      ⟨0, by decide⟩ (by decide) (by decide) ⟨by decide, by decide⟩ (by decide +kernel)
  cases hp
  exact ⟨after, record, rest, r, cover, h, hrest, hr, hsize, hcovered⟩

/-- **When a takeover digs the shortage no deeper.** Up to four quote units and the rounding of the
price it never does while the market charges margin. A settled market charges none: the sizing does
not know that, nothing is freed, and the fee that had counted as collateral is added to the
shortage. -/
theorem liquidatePerp_deepens_shortage_iff
    (h : user.liquidatePerp liquidator market cap s = .ok (.liquidated after record))
    (hmarket : s.perp market = .ok m) (horacle : s.perpOracle market = .ok oracle)
    (hcheck : user.failingCheck s = .ok (some before)) (hkind : before.kind = .maintenance)
    (hrest : after.margin s .maintenance = .ok rest) (hm : m.Listed)
    (hfee : 0 ≤ m.liquidatorFee.raw) (hw : m.WeighsPnl) :
    ∃ r p q, record.kind = .takeover r ∧ user.perp market = .ok p ∧ after.perp market = .ok q ∧
      let moved := |r.base.raw|
      let fee := moved * (oracle.price.raw * m.liquidatorFee.raw)
      let lost := m.countedPnl (p.exactPnl oracle.price) - m.countedPnl (q.exactPnl oracle.price)
      (10 ^ 9 * (rest.shortfall - before.shortfall - 4) < moved ↔
        (m.status = .settlement → 10 ^ 9 * (lost - 4) < moved)) ∧
      (m.status = .settlement → rest.shortfall = before.shortfall + lost) ∧
      0 ≤ lost ∧ 10 ^ 15 * (lost - 2) < fee + 10 ^ 6 * moved ∧
      (p.exactPnl oracle.price ≤ 0 → fee < 10 ^ 15 * (lost + 1)) := by
  obtain ⟨t, q, hplanned, htaken, rfl, hprice⟩ := planned_of_liquidatePerp h hmarket horacle hcheck
  rw [← hprice]
  obtain ⟨r, hr, hmoved⟩ := hplanned.moved_eq htaken
  have hfee_lt := hm.fee_lt
  have hratio := hm.ratio_le
  obtain ⟨hfee_lost, hlost_fee⟩ := hplanned.pnlLost_bounds htaken hfee (by omega)
  obtain ⟨hlost, hlost_le⟩ := hplanned.collateralLost_bounds htaken hm hfee hw
  refine ⟨r, t.position, q, hr, by simpa using hplanned.position_eq,
    by simpa using htaken.perp?_eq hplanned.position_eq, ?_⟩
  rw [hmoved]
  refine ⟨hplanned.shortage_grows_iff htaken hkind hrest hm hfee hw, fun hstatus => ?_, hlost,
    ?_, fun hloss => ?_⟩
  · exact hplanned.shortage_of_settlement htaken hkind hrest hm hstatus hfee hw
  · change 10 ^ 15 * (t.collateralLost q m - 2) < _
    linarith
  · change _ < 10 ^ 15 * (t.collateralLost q m + 1)
    rwa [Takeover.collateralLost_of_loss hloss (hlost.trans hlost_le)]

theorem liquidatePerp_deepens_shortage_iff_active : ∃ after record, ∃ before rest : MarginTotal,
    ∃ r,
      (underwater (.ofRaw 21000000000)).liquidatePerp ⟨⟨0⟩, ⟨2⟩⟩ ⟨0⟩ (.ofRaw 6000000000)
        (.atTwenty .active) = .ok (.liquidated after record) ∧
      (underwater (.ofRaw 21000000000)).failingCheck (.atTwenty .active) = .ok (some before) ∧
      after.margin (.atTwenty .active) .maintenance = .ok rest ∧ record.kind = .takeover r ∧
      10 ^ 9 * (rest.shortfall - before.shortfall - 4) < |r.base.raw| := by
  obtain ⟨after, record, before, rest, h, hcheck, hrest, hkind⟩ := underwater_liquidated
  obtain ⟨r, p, q, hr, -, -, hiff, -⟩ :=
    liquidatePerp_deepens_shortage_iff (m := .withFee .active) h rfl rfl hcheck hkind hrest
      ⟨0, by decide⟩ (by decide) ⟨by decide, by decide⟩
  have hbound := hiff.mpr fun hstatus => nomatch hstatus
  exact ⟨after, record, before, rest, r, h, hcheck, hrest, hr, hbound⟩

/-- In a settled market, closing the whole position of an account that is five below its requirement
leaves the account 6.8 below. -/
theorem liquidatePerp_deepens_shortage_settled :
    (PerpMarket.withFee .settlement).Listed ∧ (PerpMarket.withFee .settlement).WeighsPnl ∧
    0 < (PerpMarket.withFee .settlement).freedPerBase (.ofRaw 20000000) ∧
    ∃ after record before rest r,
      (underwater (.ofRaw 11000000000)).liquidatePerp ⟨⟨0⟩, ⟨2⟩⟩ ⟨0⟩ (.ofRaw 6000000000)
        (.atTwenty .settlement) = .ok (.liquidated after record) ∧
      (underwater (.ofRaw 11000000000)).failingCheck (.atTwenty .settlement) = .ok (some before) ∧
      after.margin (.atTwenty .settlement) .maintenance = .ok rest ∧ record.kind = .takeover r ∧
      before.kind = .maintenance ∧ before.shortfall = 5000000 ∧ rest.shortfall = 6800000 ∧
      ¬10 ^ 9 * (rest.shortfall - before.shortfall - 4) < |r.base.raw| := by
  refine ⟨⟨0, by decide⟩, ⟨by decide, by decide⟩, by decide +kernel, _, _, _, _, _, rfl, rfl, rfl,
    rfl, rfl, ?_⟩
  decide +kernel

end Account

end PerpExchange
