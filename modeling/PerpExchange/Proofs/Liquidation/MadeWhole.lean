import Mathlib.Tactic.LinearCombination
import PerpExchange.Proofs.Liquidation.Settlement
import PerpExchange.Proofs.Liquidation.Takeover

/-!
Whether a liquidation makes the liquidator whole, at the oracle price.

The liquidator of a long must not pay more than the base is worth, that of a short not receive less,
and the tokens that leave a deposit must be worth the loss that they settle. The check of a listed
market bounds the liquidator fee from above only. A fee that is not negative makes the liquidator
whole in every liquidation; a negative one does so only as far as the roundings cover it.
-/

namespace PerpExchange

variable {user after : Account} {market asset : MarketIndex} {s : Snapshot} {m : PerpMarket}
  {liquidator : Liquidator} {record : LiquidationRecord}

/-! ### Takeovers -/

/-- The user of a long receives no more than the base is worth, that of a short pays no less. -/
def TakeoverRecord.MakesWhole (r : TakeoverRecord) (direction : Direction) : Prop :=
  ∃ value, baseValue r.base r.oraclePrice = .ok value ∧
    match direction with
    | .long => r.quote.raw ≤ value.raw
    | .short => value.raw ≤ -r.quote.raw

lemma TakeoverRecord.makesWhole_iff {r : TakeoverRecord} {direction : Direction}
    {value : QuoteAmount} (h : baseValue r.base r.oraclePrice = .ok value) :
    r.MakesWhole direction ↔ r.quote.raw ≤ direction.sign * value.raw := by
  unfold MakesWhole
  constructor
  · rintro ⟨_, h', hle⟩
    cases h.symm.trans h'
    cases direction <;> simp only [Direction.sign] at hle ⊢ <;> omega
  · intro hle
    refine ⟨value, h, ?_⟩
    cases direction <;> simp only [Direction.sign] at hle ⊢ <;> omega

/-- A value less a charge is at most the value itself exactly if the charge makes up for what the
value was cut by, to a unit. -/
lemma charged_quotient_le_iff (sign size price fee : ℤ) :
    size * (sign * price - fee) / 10 ^ 9 ≤ sign * (size * price / 10 ^ 9) ↔
      sign * (size * price % 10 ^ 9) < 10 ^ 9 + size * fee := by
  have hcut := Int.emod_add_mul_ediv (size * price) (10 ^ 9)
  have e : size * (sign * price - fee) = sign * (size * price % 10 ^ 9) +
      sign * (size * price / 10 ^ 9) * 10 ^ 9 - size * fee := by
    linear_combination -sign * hcut
  rw [← Int.lt_add_one_iff, Int.ediv_lt_iff_lt_mul (by norm_num), e]
  constructor <;> intro h <;> linarith

namespace Takeover

variable {cap : BaseAmount} {t : Takeover}

/-- A record of the size and the quote of a takeover, at its oracle price. -/
structure RecordedAs (t : Takeover) (r : TakeoverRecord) : Prop where
  price_eq : r.oraclePrice = t.oraclePrice
  quote_eq : r.quote = t.quote
  size_eq : |r.base.raw| = t.size.raw

lemma Planned.recorded (h : Planned user market cap s t m)
    (happly : t.apply user market liquidator = .ok (.liquidated after record)) :
    ∃ r, record.kind = .takeover r ∧ t.RecordedAs r := by
  obtain ⟨_, position, _, houtcome, htaken⟩ := apply_eq_ok happly
  cases houtcome
  obtain ⟨-, base, hkind⟩ := recorded_of_apply happly
  obtain ⟨r, hr, hsize⟩ := h.moved_eq htaken
  cases hkind.symm.trans hr
  exact ⟨_, hkind, rfl, rfl, hsize⟩

/-- A takeover makes the liquidator whole exactly if the fee makes up for what the value of the base
was cut by. -/
lemma Planned.makesWhole_iff (h : Planned user market cap s t m) (hm : m.Listed)
    {r : TakeoverRecord} (hr : t.RecordedAs r) :
    r.MakesWhole t.direction ↔
      t.direction.sign * (|r.base.raw| * r.oraclePrice.raw % 10 ^ 9) <
        10 ^ 9 + |r.base.raw| * m.feeOn r.oraclePrice.raw := by
  have hfee := hm.fee_lt
  have hratio := hm.ratio_le
  obtain ⟨value, hvalue⟩ := h.valued
  have hraw := raw_baseValue hvalue h.oracle_pos.le
  rw [notional, abs_of_pos h.size_pos] at hraw
  have hvalued : baseValue r.base r.oraclePrice = .ok value := by
    rw [hr.price_eq, ← hvalue]
    exact baseValue_of_abs_eq (hr.size_eq.trans (abs_of_pos h.size_pos).symm) _
  rw [TakeoverRecord.makesWhole_iff hvalued, hr.quote_eq, hr.size_eq, hr.price_eq, hraw,
    PerpMarket.takeoverPrice_eq_ok h.priced h.oracle_pos h.size_pos (by omega),
    charged_quotient_le_iff]

lemma Planned.makesWhole (h : Planned user market cap s t m) (hm : m.Listed)
    (hfee : 0 ≤ m.liquidatorFee.raw) {r : TakeoverRecord} (hr : t.RecordedAs r) :
    r.MakesWhole t.direction := by
  rw [h.makesWhole_iff hm hr]
  have hcharged : 0 ≤ |r.base.raw| * m.feeOn r.oraclePrice.raw :=
    mul_nonneg (abs_nonneg _) (PerpMarket.feeOn_nonneg hfee (hr.price_eq ▸ h.oracle_pos.le))
  cases t.direction <;> simp only [Direction.sign] <;> omega

end Takeover

/-! ### Settlements -/

/-- The tokens that are taken are worth the loss that is settled. -/
def SettlementRecord.MakesWhole (r : SettlementRecord) : Prop :=
  0 < r.asset.amount.raw ∧
    ∃ worth, r.asset.quoteValue r.assetPrice .truncate = .ok worth ∧ r.pnl.raw ≤ worth.raw

namespace Settlement

variable {t : Settlement} {cap loss pool value : QuoteAmount} {held : TokenAmount}

/-- A settlement makes the liquidator whole exactly if the tokens for the loss and the fee are no
fewer than those for the loss alone. -/
lemma Planned.makesWhole_iff (h : Planned user market asset cap s t m loss pool value held)
    {r : SettlementRecord} (hpnl : r.pnl = t.pnl) (hprice : r.assetPrice = t.assetPrice)
    (hasset : r.asset = t.asset) :
    r.MakesWhole ↔
      Rounding.ceil.quotient (r.pnl.raw * 10 ^ r.asset.decimals.toNat) r.assetPrice.raw ≤
        Rounding.ceil.quotient ((r.pnl.raw + m.feeOn r.pnl.raw) * 10 ^ r.asset.decimals.toNat)
          r.assetPrice.raw := by
  have hpos := Snapshot.spotPrice_pos h.price_eq
  obtain ⟨hdecimals, hheld_decimals, htaken⟩ :=
    PerpMarket.raw_settlementAsset h.asset_eq h.decimals_eq.2
  have hheld := h.held_worth
  rw [hheld_decimals, ← Rounding.ceil_quotient_le_iff _ hpos] at hheld
  have hwhole := h.made_whole_iff (hdecimals.trans hheld_decimals.symm)
    (htaken ▸ min_le_right _ _)
  rw [hheld_decimals, ← Rounding.ceil_quotient_le_iff _ hpos, htaken, le_min_iff] at hwhole
  rw [SettlementRecord.MakesWhole, hpnl, hprice, hasset, hdecimals, htaken, hwhole]
  exact and_iff_left hheld

lemma Planned.makesWhole (h : Planned user market asset cap s t m loss pool value held)
    (hfee : 0 ≤ m.liquidatorFee.raw) {r : SettlementRecord} (hpnl : r.pnl = t.pnl)
    (hprice : r.assetPrice = t.assetPrice) (hasset : r.asset = t.asset) : r.MakesWhole := by
  obtain ⟨-, hpos, -, hworth⟩ := h.asset_bounds hfee
  rw [SettlementRecord.MakesWhole, hpnl, hprice, hasset]
  exact ⟨hpos, hworth⟩

end Settlement

/-! ### Liquidations in a listed market -/

namespace Account

/-- **When a listed market's liquidations make the liquidator whole.** They always do with a
liquidator fee that is not negative. The check of the market lets a negative fee pass; a takeover
then makes the liquidator whole exactly if the fee stays within what the value of the base was cut
by, and a settlement exactly if the fee does not take a token unit off. -/
theorem liquidations_make_whole_iff (user : Account) (liquidator : Liquidator) (hm : m.Listed)
    (hmarket : s.perp market = .ok m) :
    (∀ cap after record,
      user.liquidatePerp liquidator market cap s = .ok (.liquidated after record) →
      ∃ p direction r, user.perp market = .ok p ∧ p.direction = some direction ∧
        record.kind = .takeover r ∧
        (∃ reading, s.perpOracle market = .ok reading ∧ r.oraclePrice = reading.price) ∧
        (r.MakesWhole direction ↔
          direction.sign * (|r.base.raw| * r.oraclePrice.raw % 10 ^ 9) <
            10 ^ 9 + |r.base.raw| * m.feeOn r.oraclePrice.raw) ∧
        (0 ≤ m.liquidatorFee.raw → r.MakesWhole direction)) ∧
    (∀ asset cap after record,
      user.liquidatePnl liquidator market asset cap s = .ok (.liquidated after record) →
      ∃ r, record.kind = .settlement r ∧ s.spotPrice asset = .ok r.assetPrice ∧
        (r.MakesWhole ↔
          Rounding.ceil.quotient (r.pnl.raw * 10 ^ r.asset.decimals.toNat) r.assetPrice.raw ≤
            Rounding.ceil.quotient
              ((r.pnl.raw + m.feeOn r.pnl.raw) * 10 ^ r.asset.decimals.toNat)
              r.assetPrice.raw) ∧
        (0 ≤ m.liquidatorFee.raw → r.MakesWhole)) := by
  constructor
  · intro cap after record h
    obtain ⟨t, m', hplanned, happly⟩ := Takeover.applied_of_liquidatePerp h
    cases hmarket.symm.trans hplanned.market_eq
    obtain ⟨r, hkind, hr⟩ := hplanned.recorded happly
    exact ⟨t.position, t.direction, r, perp_eq_ok.mpr hplanned.position_eq, hplanned.direction_eq,
      hkind, hr.price_eq ▸ hplanned.oracle, hplanned.makesWhole_iff hm hr,
      fun hfee => hplanned.makesWhole hm hfee hr⟩
  · intro asset cap after record h
    obtain ⟨t, m', _, _, _, _, _, _, hplanned, happlied⟩ := Settlement.liquidatePnl_eq_ok h
    cases hmarket.symm.trans hplanned.market_eq
    exact ⟨_, happlied.kind_eq, hplanned.price_eq, hplanned.makesWhole_iff rfl rfl rfl,
      fun hfee => hplanned.makesWhole hfee rfl rfl rfl⟩

/-- Both liquidations of an account, in a market with a liquidator fee of 1.25%. -/
theorem liquidations_make_whole_iff_overdrawn :
    (∃ after record r, overdrawn.liquidatePerp ⟨⟨0⟩, ⟨2⟩⟩ ⟨0⟩ Fixed.one .pooled =
        .ok (.liquidated after record) ∧ record.kind = .takeover r ∧ r.MakesWhole .long) ∧
      ∃ after record r, overdrawn.liquidatePnl ⟨⟨0⟩, ⟨2⟩⟩ ⟨0⟩ ⟨1⟩ Fixed.one .pooled =
        .ok (.liquidated after record) ∧ record.kind = .settlement r ∧ r.MakesWhole := by
  obtain ⟨m, hmarket, hm, hfee⟩ :
      ∃ m, Snapshot.pooled.perp ⟨0⟩ = .ok m ∧ m.Listed ∧ 0 ≤ m.liquidatorFee.raw :=
    ⟨_, rfl, ⟨0, by decide⟩, by decide⟩
  obtain ⟨htakeover, hsettlement⟩ :=
    liquidations_make_whole_iff overdrawn ⟨⟨0⟩, ⟨2⟩⟩ hm hmarket
  constructor
  · obtain ⟨after, record, h⟩ : ∃ after record,
        overdrawn.liquidatePerp ⟨⟨0⟩, ⟨2⟩⟩ ⟨0⟩ Fixed.one .pooled =
          .ok (.liquidated after record) := ⟨_, _, rfl⟩
    obtain ⟨p, direction, r, hp, hdirection, hr, -, -, hwhole⟩ := htakeover _ _ _ h
    cases hp
    cases hdirection
    exact ⟨after, record, r, h, hr, hwhole hfee⟩
  · obtain ⟨after, record, h⟩ : ∃ after record,
        overdrawn.liquidatePnl ⟨⟨0⟩, ⟨2⟩⟩ ⟨0⟩ ⟨1⟩ Fixed.one .pooled =
          .ok (.liquidated after record) := ⟨_, _, rfl⟩
    obtain ⟨r, hr, -, -, hwhole⟩ := hsettlement _ _ _ _ h
    exact ⟨after, record, r, h, hr, hwhole hfee⟩

end Account

/-- The pooled market at a price of nine and a half, with a liquidator fee of minus five percent. -/
def Snapshot.rebating : Snapshot :=
  pooled.withPerp
    { PerpMarket.empty with
      liquidatorFee := .ofRaw (-50000)
      pnlPool := ⟨.ofRaw 40000000000, .quote⟩ }
    (.of (.ofRaw 9500000))

/-- The check of a listed market accepts the negative fee, and both liquidations lose the liquidator
money. -/
theorem Account.liquidations_pay_the_user :
    (∃ m, Snapshot.rebating.perp ⟨0⟩ = .ok m ∧ Listing.checkMargin m.initialRatio
        m.maintenanceRatio m.liquidatorFee m.amm.maxSpread = .ok ()) ∧
      (∃ after record r, overdrawn.liquidatePerp ⟨⟨0⟩, ⟨2⟩⟩ ⟨0⟩ Fixed.one .rebating =
          .ok (.liquidated after record) ∧ record.kind = .takeover r ∧
        r.base.raw = -1000000000 ∧ baseValue r.base r.oraclePrice = .ok (.ofRaw 9500000) ∧
        r.quote.raw = 9975000 ∧ ¬r.MakesWhole .long) ∧
      ∃ after record r, overdrawn.liquidatePnl ⟨⟨0⟩, ⟨2⟩⟩ ⟨0⟩ ⟨1⟩ Fixed.one .rebating =
          .ok (.liquidated after record) ∧ record.kind = .settlement r ∧
        r.pnl.raw = 1000000 ∧ r.asset.quoteValue r.assetPrice .truncate = .ok (.ofRaw 950000) ∧
        ¬r.MakesWhole := by
  refine ⟨⟨_, rfl, by decide⟩, ⟨_, _, _, rfl, rfl, rfl, rfl, rfl, ?_⟩,
    _, _, _, rfl, rfl, rfl, rfl, ?_⟩
  · rw [TakeoverRecord.makesWhole_iff rfl]
    decide
  · rintro ⟨-, worth, hworth, hle⟩
    cases hworth
    exact absurd hle (by decide)

end PerpExchange
