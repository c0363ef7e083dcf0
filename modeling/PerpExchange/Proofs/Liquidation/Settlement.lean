import PerpExchange.Liquidation.Settlement
import PerpExchange.Proofs.Liquidation.Outcome
import PerpExchange.Proofs.Position.Spot
import PerpExchange.Proofs.Token

/-!
What a settlement takes of a deposit for a loss.

The loss that is settled is the least of four amounts, and the tokens taken for it are the whole
deposit or worth the loss with the fee on top. Either way they are worth what was settled, and the
deposit covers them, so that it is never turned into a borrow.
-/

namespace PerpExchange

variable {user after : Account} {market asset : MarketIndex} {cap : QuoteAmount} {s : Snapshot}
  {t : Settlement} {m : PerpMarket} {record : LiquidationRecord}

/-- The tokens that settle a loss, to the unit: those for the loss and the fee on it, rounded up, and
no more than the deposit. -/
lemma PerpMarket.raw_settlementAsset {pnl : QuoteAmount} {price : Price} {decimals : UInt32}
    {held taken : TokenAmount} (h : m.settlementAsset pnl price decimals held = .ok taken)
    (hdecimals : decimals.toNat ≤ 38) :
    taken.decimals = decimals ∧ held.decimals = decimals ∧
      taken.amount.raw = min (Rounding.ceil.quotient
        ((pnl.raw + m.feeOn pnl.raw) * 10 ^ decimals.toNat) price.raw) held.amount.raw := by
  have hone : (Fixed.one : LiquidationFee).raw = 10 ^ 6 := rfl
  simp only [settlementAsset, feePremium, bind_eq_ok, Failure.liftM_violation_eq_ok,
    Fixed.add_eq_ok, Fixed.mul_eq_ok, hone,
    Product.rescaleCeil_eq_ok (p := .quote) (q := .liquidationFee) (r := .quote) (n := 6) rfl
      (by norm_num), TokenAmount.ofQuoteValue_eq_ok hdecimals] at h
  obtain ⟨factor, hfactor, product, hproduct, value, hvalue, tokens,
    ⟨htokens_decimals, -, -, hamount⟩, hmin⟩ := h
  obtain ⟨htaken_decimals, hheld_decimals, htaken⟩ := TokenAmount.min_eq_ok hmin
  rw [hproduct, hfactor, m.add_feeOn] at hvalue
  exact ⟨htaken_decimals.trans htokens_decimals, hheld_decimals.symm.trans htokens_decimals,
    by rw [htaken, hamount, hvalue]⟩

/-- The tokens that settle a loss are the whole deposit, or are worth the loss. -/
lemma PerpMarket.settlementAsset_eq_ok {pnl : QuoteAmount} {price : Price} {decimals : UInt32}
    {held taken : TokenAmount} (h : m.settlementAsset pnl price decimals held = .ok taken)
    (hdecimals : decimals.toNat ≤ 38) (hprice : 0 < price.raw) (hpnl : 0 ≤ pnl.raw)
    (hfee : 0 ≤ m.liquidatorFee.raw) :
    taken.decimals = held.decimals ∧ taken.amount.raw ≤ held.amount.raw ∧
      (taken.amount.raw = held.amount.raw ∨
        pnl.raw * 10 ^ held.decimals.toNat ≤ taken.amount.raw * price.raw) := by
  obtain ⟨htaken_decimals, hheld_decimals, htaken⟩ := raw_settlementAsset h hdecimals
  refine ⟨htaken_decimals.trans hheld_decimals.symm, htaken ▸ min_le_right _ _, ?_⟩
  rw [hheld_decimals, htaken]
  have hcharged := feeOn_nonneg hfee hpnl
  rcases min_choice (Rounding.ceil.quotient ((pnl.raw + m.feeOn pnl.raw) * 10 ^ decimals.toNat)
    price.raw) held.amount.raw with hall | hless
  · rw [hall]
    refine .inr (le_trans ?_ (Rounding.ceil_quotient_bounds _ hprice).1)
    exact mul_le_mul_of_nonneg_right (by omega) (by positivity)
  · exact .inl hless

lemma Account.deposit?_eq_some {p : SpotPosition} :
    user.deposit? asset = some p ↔
      user.spot? asset = some p ∧ p.side = .deposit ∧ p.balance.raw ≠ 0 := by
  simp [deposit?]

namespace Settlement

/-- What a planned settlement rests on. -/
structure Planned (user : Account) (market asset : MarketIndex) (cap : QuoteAmount) (s : Snapshot)
    (t : Settlement) (m : PerpMarket) (loss pool value : QuoteAmount) (held : TokenAmount) :
    Prop where
  market_eq : s.perp market = .ok m
  bank_eq : s.spot asset = .ok t.bank
  oracle : ∃ reading, s.perpOracle market = .ok reading ∧ t.oraclePrice = reading.price
  price_eq : s.spotPrice asset = .ok t.assetPrice
  check_eq : user.failingCheck s = .ok (some t.check)
  perp_eq : user.perp? market = some t.perp
  loss_eq : t.perp.unrealizedPnl t.oraclePrice = .ok loss
  loss_neg : loss.raw < 0
  deposit_eq : user.deposit? asset = some t.deposit
  held_eq : t.deposit.tokens t.bank = .ok held
  pool_eq : m.poolValue s = .ok pool
  value_eq : held.quoteValue t.assetPrice .truncate = .ok value
  pnl_eq : t.pnl.raw = min (min (min |loss.raw| cap.raw) pool.raw) value.raw
  pnl_pos : 0 < t.pnl.raw
  asset_eq : m.settlementAsset t.pnl t.assetPrice t.bank.decimals held = .ok t.asset

lemma plan_eq_ok {decision : Decision Settlement}
    (h : plan user market asset cap s = .ok decision) :
    (user.failingCheck s = .ok none ∧ decision = .skip .sufficientCollateral) ∨
    (∃ check reason, user.failingCheck s = .ok (some check) ∧ decision = .skip reason ∧
      reason ≠ .sufficientCollateral) ∨
    ∃ t m loss pool value held, decision = .act t ∧
      Planned user market asset cap s t m loss pool value held := by
  simp only [plan, bind_eq_ok, Failure.liftM_refusal_eq_ok, Refusal.guard_eq_ok,
    Snapshot.pricedPerpOracle_eq_ok] at h
  obtain ⟨-, -, m, hm, reading, ⟨hreading, hprice⟩, bank, hbank, price, hassetPrice, check, hcheck,
    h⟩ := h
  cases check with
  | none =>
    rw [pure_eq_ok] at h
    exact .inl ⟨hcheck, h.symm⟩
  | some check =>
    simp only [bind_eq_ok, Failure.liftM_refusal_eq_ok, Failure.liftM_violation_eq_ok,
      Account.perp_eq_ok] at h
    obtain ⟨perp, hperp, loss, hloss, h⟩ := h
    split_ifs at h with hnegative
    · rw [pure_eq_ok] at h
      exact .inr (.inl ⟨check, _, hcheck, h.symm, by decide⟩)
    · cases hdeposit : user.deposit? asset with
      | none =>
        simp only [hdeposit, pure_eq_ok] at h
        exact .inr (.inl ⟨check, _, hcheck, h.symm, by decide⟩)
      | some deposit =>
        simp only [hdeposit, bind_eq_ok, Failure.liftM_violation_eq_ok] at h
        obtain ⟨held, hheld, pool, hpool, value, hvalue, size, hsize, h⟩ := h
        split_ifs at h with hpnl
        · rw [pure_eq_ok] at h
          exact .inr (.inl ⟨check, _, hcheck, h.symm, by decide⟩)
        · simp only [bind_eq_ok, pure_eq_ok] at h
          obtain ⟨taken, htaken, h⟩ := h
          refine .inr (.inr ⟨_, m, loss, pool, value, held, h.symm, ?_⟩)
          exact {
            market_eq := hm
            bank_eq := hbank
            oracle := ⟨reading, hreading, rfl⟩
            price_eq := hassetPrice
            check_eq := hcheck
            perp_eq := hperp
            loss_eq := hloss
            loss_neg := not_le.mp hnegative
            deposit_eq := hdeposit
            held_eq := hheld
            pool_eq := hpool
            value_eq := hvalue
            pnl_eq := by
              rw [Fixed.raw_min, Fixed.raw_min, Fixed.raw_min, Fixed.abs_eq_ok.mp hsize,
                Int.abs_eq_natAbs]
            pnl_pos := not_le.mp hpnl
            asset_eq := htaken }

/-- With its markets in the snapshot, a positive cap leaves the margin check to decide first. -/
lemma gated_plan {reading : OracleReading} {bank : SpotMarket} {price : Price} (hcap : 0 < cap.raw)
    (hm : s.perp market = .ok m) (hreading : s.perpOracle market = .ok reading)
    (hprice : 0 < reading.price.raw) (hbank : s.spot asset = .ok bank)
    (hassetPrice : s.spotPrice asset = .ok price) :
    Gated user s (plan user market asset cap s) Settlement.check := by
  have hguard : Refusal.guard (0 < cap.raw) (.amountNotPositive cap.raw) = .ok () :=
    Refusal.guard_eq_ok.mpr hcap
  have hpriced := Snapshot.pricedPerpOracle_eq_ok.mpr ⟨hreading, hprice⟩
  constructor
  · simp only [plan, Failure.liftM_refusal_eq_ok.mpr hguard, Failure.liftM_refusal_eq_ok.mpr hm,
      Failure.liftM_refusal_eq_ok.mpr hpriced, Failure.liftM_refusal_eq_ok.mpr hbank,
      Failure.liftM_refusal_eq_ok.mpr hassetPrice, ok_bind]
    exact ⟨_, rfl, rfl⟩
  · intro decision h
    rcases plan_eq_ok h with ⟨hnone, rfl⟩ | ⟨check, reason, hcheck, rfl, hreason⟩ |
      ⟨t, m, loss, pool, value, held, rfl, hplanned⟩
    · exact ⟨none, hnone, by simp [Decision.RestsOn]⟩
    · exact ⟨some check, hcheck, by simp [Decision.RestsOn, hreason]⟩
    · exact ⟨some t.check, hplanned.check_eq, rfl⟩

/-- What a settlement leaves of an account, and what it records. -/
structure Applied (t : Settlement) (user after : Account) (market asset : MarketIndex)
    (debited : SpotPosition) (quote : QuoteAmount) (record : LiquidationRecord) : Prop where
  debit : ∃ bank, t.deposit.updateBalance t.asset .borrow t.bank false = .ok (bank, debited)
  quote_eq : quote.raw = t.perp.quote.raw + t.pnl.raw
  perps_eq : after.perps = (user.modifyPerp market fun p => { p with quote }).perps
  spots_eq : after.spots = (user.modifySpot asset fun _ => debited).spots
  requirement_eq : record.requirement = t.check.requirement
  collateral_eq : record.collateral = t.check.collateral
  kind_eq : record.kind = .settlement
    { perpMarket := market, oraclePrice := t.oraclePrice, pnl := t.pnl, assetMarket := asset
      assetPrice := t.assetPrice, asset := t.asset }

lemma apply_eq_ok {liquidator : Liquidator} {outcome : LiquidationOutcome}
    (h : t.apply user market asset liquidator = .ok outcome) :
    ∃ after debited quote record, outcome = .liquidated after record ∧
      Applied t user after market asset debited quote record := by
  simp only [Settlement.apply, bind_eq_ok, Fixed.add_eq_ok, pure_eq_ok] at h
  obtain ⟨⟨bank, debited⟩, hdebit, quote, hquote, rfl⟩ := h
  refine ⟨_, debited, quote, _, rfl, ?_⟩
  exact {
    debit := ⟨bank, hdebit⟩
    quote_eq := hquote
    perps_eq := rfl
    spots_eq := rfl
    requirement_eq := rfl
    collateral_eq := rfl
    kind_eq := rfl }

lemma recorded_of_apply {liquidator : Liquidator}
    (h : t.apply user market asset liquidator = .ok (.liquidated after record)) :
    user.Recorded after liquidator record := by
  simp only [Settlement.apply, bind_eq_ok, pure_eq_ok] at h
  obtain ⟨⟨bank, debited⟩, -, quote, -, h⟩ := h
  exact (Account.recorded_of_recordLiquidation (a := user) h rfl).1

lemma applied_of_liquidatePnl {liquidator : Liquidator}
    (h : user.liquidatePnl liquidator market asset cap s = .ok (.liquidated after record)) :
    ∃ t m loss pool value held, Planned user market asset cap s t m loss pool value held ∧
      t.apply user market asset liquidator = .ok (.liquidated after record) := by
  simp only [Account.liquidatePnl, bind_eq_ok] at h
  obtain ⟨decision, hplan, h⟩ := h
  rcases plan_eq_ok hplan with ⟨-, rfl⟩ | ⟨-, reason, -, rfl, -⟩ |
    ⟨t, m, loss, pool, value, held, rfl, hplanned⟩
  · cases h
  · cases h
  · exact ⟨t, m, loss, pool, value, held, hplanned, Failure.liftM_violation_eq_ok.mp h⟩

lemma liquidatePnl_eq_ok {liquidator : Liquidator}
    (h : user.liquidatePnl liquidator market asset cap s = .ok (.liquidated after record)) :
    ∃ t m loss pool value held debited quote,
      Planned user market asset cap s t m loss pool value held ∧
      Applied t user after market asset debited quote record := by
  obtain ⟨t, m, loss, pool, value, held, hplanned, happly⟩ := applied_of_liquidatePnl h
  obtain ⟨after, debited, quote, record, houtcome, happlied⟩ := apply_eq_ok happly
  cases houtcome
  exact ⟨t, m, loss, pool, value, held, debited, quote, hplanned, happlied⟩

variable {loss pool value : QuoteAmount} {held : TokenAmount}

lemma Planned.decimals_eq (h : Planned user market asset cap s t m loss pool value held) :
    held.decimals = t.bank.decimals ∧ t.bank.decimals.toNat ≤ 38 := by
  obtain ⟨-, hmost, -⟩ := TokenAmount.quoteValue_eq_ok.mp h.value_eq
  have hdecimals := SpotMarket.decimals_of_tokensOf h.held_eq
  exact ⟨hdecimals, hdecimals ▸ hmost⟩

/-- The deposit is worth what is settled. -/
lemma Planned.held_worth (h : Planned user market asset cap s t m loss pool value held) :
    t.pnl.raw * 10 ^ held.decimals.toNat ≤ held.amount.raw * t.assetPrice.raw := by
  have hprice := Snapshot.spotPrice_pos h.price_eq
  have hpnl_le : t.pnl.raw ≤ value.raw := h.pnl_eq ▸ min_le_right _ _
  have hheld := TokenAmount.pos_of_quoteValue_pos h.value_eq (h.pnl_pos.trans_le hpnl_le) hprice
  exact (TokenAmount.le_quoteValue_iff h.value_eq (mul_nonneg hheld.le hprice.le)).mp hpnl_le

/-- Some of the deposit has a value of what is settled if it has that without rounding. -/
lemma Planned.made_whole_iff (h : Planned user market asset cap s t m loss pool value held)
    (hdecimals : t.asset.decimals = held.decimals)
    (hle : t.asset.amount.raw ≤ held.amount.raw) :
    (0 < t.asset.amount.raw ∧ ∃ worth, t.asset.quoteValue t.assetPrice .truncate = .ok worth ∧
        t.pnl.raw ≤ worth.raw) ↔
      t.pnl.raw * 10 ^ held.decimals.toNat ≤ t.asset.amount.raw * t.assetPrice.raw := by
  have hprice := Snapshot.spotPrice_pos h.price_eq
  rw [← hdecimals]
  constructor
  · rintro ⟨hpos, worth, hworth, hpnl⟩
    exact (TokenAmount.le_quoteValue_iff hworth (mul_nonneg hpos.le hprice.le)).mp hpnl
  · intro hcovered
    have hsettled : 0 < t.pnl.raw * 10 ^ t.asset.decimals.toNat :=
      mul_pos h.pnl_pos (by positivity)
    have hpos := (pos_iff_pos_of_mul_pos (hsettled.trans_le hcovered)).mpr hprice
    obtain ⟨worth, hworth⟩ :=
      TokenAmount.quoteValue_of_le h.value_eq hprice.le hpos.le hle hdecimals
    exact ⟨hpos, worth, hworth,
      (TokenAmount.le_quoteValue_iff hworth (mul_nonneg hpos.le hprice.le)).mpr hcovered⟩

/-- The tokens taken are worth what is settled, and the deposit covers them. -/
lemma Planned.asset_bounds (h : Planned user market asset cap s t m loss pool value held)
    (hfee : 0 ≤ m.liquidatorFee.raw) :
    t.asset.decimals = held.decimals ∧ 0 < t.asset.amount.raw ∧
      t.asset.amount.raw ≤ held.amount.raw ∧
      ∃ worth, t.asset.quoteValue t.assetPrice .truncate = .ok worth ∧ t.pnl.raw ≤ worth.raw := by
  obtain ⟨htaken_decimals, hle, htaken⟩ := PerpMarket.settlementAsset_eq_ok h.asset_eq
    h.decimals_eq.2 (Snapshot.spotPrice_pos h.price_eq) h.pnl_pos.le hfee
  have hworth : t.pnl.raw * 10 ^ held.decimals.toNat ≤ t.asset.amount.raw * t.assetPrice.raw := by
    rcases htaken with hall | hcovered
    · rw [hall]
      exact h.held_worth
    · exact hcovered
  obtain ⟨hpos, hvalued⟩ := (h.made_whole_iff htaken_decimals hle).mpr hworth
  exact ⟨htaken_decimals, hpos, hle, hvalued⟩

lemma Planned.balance_pos (h : Planned user market asset cap s t m loss pool value held)
    (hm : t.bank.Indexed) (hfee : 0 ≤ m.liquidatorFee.raw) : 0 < t.deposit.balance.raw := by
  obtain ⟨-, hpos, hle, -⟩ := h.asset_bounds hfee
  obtain ⟨-, hside, -⟩ := Account.deposit?_eq_some.mp h.deposit_eq
  have htokens : t.bank.tokensOf t.deposit.balance .deposit = .ok held := hside ▸ h.held_eq
  exact SpotMarket.pos_of_tokensOf_pos htokens hm (hpos.trans_le hle)

variable {debited : SpotPosition} {quote : QuoteAmount}

lemma Planned.loss_settled (h : Planned user market asset cap s t m loss pool value held)
    (happlied : Applied t user after market asset debited quote record) :
    t.pnl.raw ≤ |loss.raw| ∧ ∃ q left, after.perp market = .ok q ∧
      q.unrealizedPnl t.oraclePrice = .ok left ∧ left.raw = loss.raw + t.pnl.raw ∧
      left.raw ≤ 0 := by
  have hle : t.pnl.raw ≤ |loss.raw| := by
    rw [h.pnl_eq]
    exact (min_le_left _ _).trans ((min_le_left _ _).trans (min_le_left _ _))
  have hpnl := h.pnl_pos
  have hloss := h.loss_neg
  rw [abs_of_neg hloss] at hle
  have hnonpos : loss.raw + t.pnl.raw ≤ 0 := by omega
  have hfits : Fits (loss.raw + t.pnl.raw) :=
    Int128.fits_of_le loss.fits (0 : Int128).fits (by omega) hnonpos
  have hperp : after.perp? market = some { t.perp with quote } := by
    have hfound := user.perp?_modifyPerp market (f := fun p => { p with quote })
      fun _ hp => hp
    rw [h.perp_eq] at hfound
    rw [Account.perp?, happlied.perps_eq]
    exact hfound
  refine ⟨by rwa [abs_of_neg hloss], _, .ofRaw _ hfits, Account.perp_eq_ok.mpr hperp,
    PerpPosition.unrealizedPnl_withQuote h.loss_eq ?_, rfl, hnonpos⟩
  rw [happlied.quote_eq, Fixed.raw_ofRaw]
  ring

/-- The deposit stays a deposit, of no more than the tokens that were not taken. -/
lemma Planned.deposit_left (h : Planned user market asset cap s t m loss pool value held)
    (happlied : Applied t user after market asset debited quote record) (hm : t.bank.Indexed)
    (hfee : 0 ≤ m.liquidatorFee.raw) :
    ∃ left, after.spot? asset = some debited ∧ debited.side = .deposit ∧ 0 ≤ debited.balance.raw ∧
      debited.tokens t.bank = .ok left ∧
      left.amount.raw ≤ held.amount.raw - t.asset.amount.raw := by
  obtain ⟨-, hpos, hle, -⟩ := h.asset_bounds hfee
  obtain ⟨bank, hdebit⟩ := happlied.debit
  obtain ⟨hspot, hside, -⟩ := Account.deposit?_eq_some.mp h.deposit_eq
  have hbalance := h.balance_pos hm hfee
  obtain ⟨hmarket, hdebited, hnonneg, left, hleft, hleft_le⟩ :=
    SpotPosition.deposit_of_withdrawal hm hside hbalance h.held_eq hpos.le hle hdebit
  refine ⟨left, ?_, hdebited, hnonneg, hleft, hleft_le⟩
  have hfound := user.spot?_modifySpot asset (f := fun _ => debited)
    fun _ _ => hmarket.trans (Account.market_of_spot? hspot)
  rw [hspot] at hfound
  rw [Account.spot?, happlied.spots_eq]
  exact hfound

lemma Planned.balance_lowered (h : Planned user market asset cap s t m loss pool value held)
    (happlied : Applied t user after market asset debited quote record) (hm : t.bank.Indexed)
    (hfee : 0 ≤ m.liquidatorFee.raw) :
    debited = { t.deposit with balance := debited.balance } ∧ 0 ≤ debited.balance.raw ∧
      debited.balance.raw < t.deposit.balance.raw := by
  obtain ⟨-, hpos, hle, -⟩ := h.asset_bounds hfee
  obtain ⟨bank, hdebit⟩ := happlied.debit
  obtain ⟨-, hside, -⟩ := Account.deposit?_eq_some.mp h.deposit_eq
  have hbalance := h.balance_pos hm hfee
  exact SpotPosition.balance_lt_of_draw hm hside hbalance hpos
    (SpotPosition.draw_of_withdrawal hside hbalance h.held_eq hle hdebit)

end Settlement

/-- A settlement that keeps to its bounds: the loss that was settled in the perp market, and the
tokens that left the deposit for it. -/
structure Settled (user after : Account) (cap : QuoteAmount) (s : Snapshot)
    (r : SettlementRecord) : Prop where
  oracle : ∃ reading, s.perpOracle r.perpMarket = .ok reading ∧ r.oraclePrice = reading.price
  price : s.spotPrice r.assetMarket = .ok r.assetPrice
  pnl_pos : 0 < r.pnl.raw
  pnl_le_cap : r.pnl.raw ≤ cap.raw
  pnl_le_pool : ∃ m pool, s.perp r.perpMarket = .ok m ∧ m.poolValue s = .ok pool ∧
    r.pnl.raw ≤ pool.raw
  loss : ∃ p q loss left, user.perp r.perpMarket = .ok p ∧ after.perp r.perpMarket = .ok q ∧
    p.unrealizedPnl r.oraclePrice = .ok loss ∧ q.unrealizedPnl r.oraclePrice = .ok left ∧
    r.pnl.raw ≤ |loss.raw| ∧ left.raw = loss.raw + r.pnl.raw ∧ left.raw ≤ 0
  asset_pos : 0 < r.asset.amount.raw
  made_whole : ∃ worth, r.asset.quoteValue r.assetPrice .truncate = .ok worth ∧
    r.pnl.raw ≤ worth.raw
  deposit : ∃ bank p q held value left, s.spot r.assetMarket = .ok bank ∧
    (user.spot? r.assetMarket = some p ∧ p.side = .deposit ∧ p.tokens bank = .ok held ∧
      held.quoteValue r.assetPrice .truncate = .ok value) ∧
    (r.pnl.raw ≤ value.raw ∧ r.asset.decimals = held.decimals ∧
      r.asset.amount.raw ≤ held.amount.raw) ∧
    after.spot? r.assetMarket = some q ∧ q.side = .deposit ∧ 0 ≤ q.balance.raw ∧
    q.tokens bank = .ok left ∧ left.amount.raw ≤ held.amount.raw - r.asset.amount.raw

/-- **A settlement is bounded and makes the liquidator whole.** -/
theorem Account.liquidatePnl_settled {liquidator : Liquidator} {bank : SpotMarket}
    (h : user.liquidatePnl liquidator market asset cap s = .ok (.liquidated after record))
    (hmarket : s.perp market = .ok m) (hbank : s.spot asset = .ok bank)
    (hfee : 0 ≤ m.liquidatorFee.raw) (hindexed : bank.Indexed) :
    ∃ r, record.kind = .settlement r ∧ r.perpMarket = market ∧ r.assetMarket = asset ∧
      Settled user after cap s r := by
  obtain ⟨t, m', loss, pool, value, held, debited, quote, hplanned, happlied⟩ :=
    Settlement.liquidatePnl_eq_ok h
  cases hmarket.symm.trans hplanned.market_eq
  cases hbank.symm.trans hplanned.bank_eq
  obtain ⟨hdecimals, hpos, hle, hworth⟩ := hplanned.asset_bounds hfee
  obtain ⟨hpnl_le, q, left, hq, hleft, hsum, hnonpos⟩ := hplanned.loss_settled happlied
  obtain ⟨kept, hspot, hside, hnonneg, hkept, hkept_le⟩ :=
    hplanned.deposit_left happlied hindexed hfee
  obtain ⟨hdeposit, hdeposit_side, -⟩ := Account.deposit?_eq_some.mp hplanned.deposit_eq
  have hpnl := hplanned.pnl_eq
  refine ⟨_, happlied.kind_eq, rfl, rfl, ?_⟩
  exact {
    oracle := hplanned.oracle
    price := hplanned.price_eq
    pnl_pos := hplanned.pnl_pos
    pnl_le_cap := by dsimp only; omega
    pnl_le_pool := ⟨m, pool, hplanned.market_eq, hplanned.pool_eq, by dsimp only; omega⟩
    loss := ⟨t.perp, q, loss, left, Account.perp_eq_ok.mpr hplanned.perp_eq, hq, hplanned.loss_eq,
      hleft, hpnl_le, hsum, hnonpos⟩
    asset_pos := hpos
    made_whole := hworth
    deposit := ⟨t.bank, t.deposit, debited, held, value, kept, hplanned.bank_eq,
      ⟨hdeposit, hdeposit_side, hplanned.held_eq, hplanned.value_eq⟩,
      ⟨by dsimp only; omega, hdecimals, hle⟩, hspot, hside, hnonneg, hkept, hkept_le⟩ }

/-- A market whose pnl pool holds fifty, at a price of nine, and an asset of nine decimals. -/
def Snapshot.pooled : Snapshot :=
  ((empty.withPerp
    { PerpMarket.empty with
      liquidatorFee := .ofRaw 12500
      pnlPool := ⟨.ofRaw 50000000000, .quote⟩ }
    (.of (.ofRaw 9000000))).withSpot .quote none).withSpot
      { SpotMarket.volatile ⟨1⟩ 9 with depositBalance := .ofRaw 7000000009 }
      (some (.of (.ofRaw 3333333)))

/-- A long that lost 22.5, against seven tokens of the asset. -/
def Account.overdrawn : Account :=
  { new ⟨1⟩ with
    perps := [⟨⟨0⟩, .ofRaw 2500000000, .ofRaw (-45000000), .ofRaw (-45000000)⟩]
    spots := [{ SpotPosition.new ⟨1⟩ with balance := .ofRaw 7000000009 }] }

theorem Account.liquidatePnl_settled_asset : ∃ after record r,
    overdrawn.liquidatePnl ⟨⟨0⟩, ⟨2⟩⟩ ⟨0⟩ ⟨1⟩ (.ofRaw 30000000) .pooled =
      .ok (.liquidated after record) ∧
    record.kind = .settlement r ∧ Settled overdrawn after (.ofRaw 30000000) .pooled r := by
  obtain ⟨after, record, h⟩ : ∃ after record,
      overdrawn.liquidatePnl ⟨⟨0⟩, ⟨2⟩⟩ ⟨0⟩ ⟨1⟩ (.ofRaw 30000000) .pooled =
        .ok (.liquidated after record) := ⟨_, _, rfl⟩
  obtain ⟨r, hr, -, -, hsettled⟩ :=
    liquidatePnl_settled h rfl rfl (by decide) fun side => by cases side <;> decide
  exact ⟨after, record, r, h, hr, hsettled⟩

end PerpExchange
