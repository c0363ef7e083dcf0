import PerpExchange.Json.Library
import PerpExchange.Liquidation.Outcome
import PerpExchange.Settings.Config
import PerpExchange.Trade.Fill

/-!
The types of the exchange that have a JSON form: their fields and their cases, by name.
-/

namespace PerpExchange

/-! ### Numbers and lists -/

instance : Declared Bool where
  codec lib := lib.bool

def JsonLibrary.number {α : Type} (lib : JsonLibrary) (kind : IntegerKind) (toInt : α → Int)
    (ofInt? : Int → Option α) : JsonCodec α where
  encode a := (lib.integer kind).encode (toInt a)
  decode v := ((lib.integer kind).decode v).bind ofInt?

instance : Declared Int128 where
  codec lib := lib.number ⟨true, 128⟩ Int128.raw fun n => if h : Fits n then some ⟨n, h⟩ else none

instance : Declared Int64 where
  codec lib := lib.number ⟨true, 64⟩ Int64.toInt (some <| Int64.ofInt ·)

instance : Declared UInt8 where
  codec lib := lib.number ⟨false, 8⟩ (·.toNat) (some <| UInt8.ofNat ·.toNat)

instance : Declared UInt16 where
  codec lib := lib.number ⟨false, 16⟩ (·.toNat) (some <| UInt16.ofNat ·.toNat)

instance : Declared UInt32 where
  codec lib := lib.number ⟨false, 32⟩ (·.toNat) (some <| UInt32.ofNat ·.toNat)

instance : Declared UInt64 where
  codec lib := lib.number ⟨false, 64⟩ (·.toNat) (some <| UInt64.ofNat ·.toNat)

instance {α : Type} [Declared α] : Declared (List α) where
  codec lib := lib.list (Declared.codec lib)

/-! ### Types with one field -/

instance {p : Precision} : Declared (Fixed p) where
  codec lib := lib.transparent (Declared.codec lib) Fixed.toInt128 Fixed.mk

instance : Declared MarketIndex where
  codec lib := lib.transparent (Declared.codec lib) MarketIndex.value MarketIndex.mk

instance : Declared AccountId where
  codec lib := lib.transparent (Declared.codec lib) AccountId.value AccountId.mk

instance : Declared Timestamp where
  codec lib := lib.transparent (Declared.codec lib) Timestamp.millis Timestamp.mk

/-! ### Cases -/

instance : Declared Direction where
  codec lib := lib.names .camelCase [.long, .short] fun
    | .long => "Long"
    | .short => "Short"

instance : Declared SwapDirection where
  codec lib := lib.names .camelCase [.add, .remove] fun
    | .add => "Add"
    | .remove => "Remove"

instance : Declared MarginKind where
  codec lib := lib.names .camelCase [.initial, .maintenance] fun
    | .initial => "Initial"
    | .maintenance => "Maintenance"

instance : Declared BalanceSide where
  codec lib := lib.names .camelCase [.deposit, .borrow] fun
    | .deposit => "Deposit"
    | .borrow => "Borrow"

instance : Declared MarketStatus where
  codec lib := lib.names .plain [.active, .reduceOnly, .settlement] fun
    | .active => "Active"
    | .reduceOnly => "ReduceOnly"
    | .settlement => "Settlement"

instance : Declared AccountStatus where
  codec lib := lib.names .camelCase [.active, .beingLiquidated, .bankrupt] fun
    | .active => "Active"
    | .beingLiquidated => "BeingLiquidated"
    | .bankrupt => "Bankrupt"

instance : Declared OracleValidity where
  codec lib := lib.names .plain
    [.invalid, .tooVolatile, .tooUncertain, .staleForMargin, .insufficientDataPoints, .staleForAmm,
      .valid] fun
    | .invalid => "Invalid"
    | .tooVolatile => "TooVolatile"
    | .tooUncertain => "TooUncertain"
    | .staleForMargin => "StaleForMargin"
    | .insufficientDataPoints => "InsufficientDataPoints"
    | .staleForAmm => "StaleForAmm"
    | .valid => "Valid"

instance : Declared PositionChange where
  codec lib := lib.names .plain [.open, .increase, .reduce, .close, .flip] fun
    | .open => "Open"
    | .increase => "Increase"
    | .reduce => "Reduce"
    | .close => "Close"
    | .flip => "Flip"

instance : Declared NoFill where
  codec lib := lib.names .camelCase
    [.marketNotActive, .limitPriceNotReached, .belowOrderStepSize] fun
    | .marketNotActive => "MarketNotActive"
    | .limitPriceNotReached => "LimitPriceNotReached"
    | .belowOrderStepSize => "BelowOrderStepSize"

instance : Declared NoLiquidation where
  codec lib := lib.names .camelCase
    [.sufficientCollateral, .pnlNotNegative, .noDepositInAssetMarket, .noPositionToLiquidate,
      .nothingToTransfer] fun
    | .sufficientCollateral => "SufficientCollateral"
    | .pnlNotNegative => "PnlNotNegative"
    | .noDepositInAssetMarket => "NoDepositInAssetMarket"
    | .noPositionToLiquidate => "NoPositionToLiquidate"
    | .nothingToTransfer => "NothingToTransfer"

instance : Declared Environment where
  codec lib := lib.names .snakeCase [.development, .testnet, .mainnet] fun
    | .development => "Development"
    | .testnet => "Testnet"
    | .mainnet => "Mainnet"

/-! ### Markets -/

instance : Declared TokenAmount where
  codec lib := lib.record
    ["amount", "decimals"]
    (fun a => [encode lib a.amount, encode lib a.decimals])
    fun
    | [amount, decimals] => do
      pure ⟨← decode lib amount, ← decode lib decimals⟩
    | _ => none

instance : Declared Amm where
  codec lib := lib.record
    ["base_asset_reserve", "quote_asset_reserve", "peg_multiplier", "net_base_asset_amount",
      "quote_asset_amount_long", "quote_asset_amount_short", "cumulative_social_loss",
      "base_spread", "long_spread", "short_spread", "max_spread", "min_base_asset_reserve",
      "max_base_asset_reserve", "order_step_size", "curve_update_intensity", "amm_jit_intensity",
      "total_fee_minus_distributions", "last_oracle_price", "last_oracle_price_twap"]
    (fun a =>
      [encode lib a.baseReserve, encode lib a.quoteReserve, encode lib a.peg,
        encode lib a.netBase, encode lib a.quoteLong, encode lib a.quoteShort,
        encode lib a.socialLoss, encode lib a.baseSpread, encode lib a.longSpread,
        encode lib a.shortSpread, encode lib a.maxSpread, encode lib a.minBaseReserve,
        encode lib a.maxBaseReserve, encode lib a.stepSize, encode lib a.repegIntensity,
        encode lib a.jitIntensity, encode lib a.budget, encode lib a.lastOraclePrice,
        encode lib a.lastOracleAverage])
    fun
    | [baseReserve, quoteReserve, peg, netBase, quoteLong, quoteShort, socialLoss, baseSpread,
      longSpread, shortSpread, maxSpread, minBaseReserve, maxBaseReserve, stepSize,
      repegIntensity, jitIntensity, budget, lastOraclePrice, lastOracleAverage] => do
      pure
        { baseReserve := ← decode lib baseReserve
          quoteReserve := ← decode lib quoteReserve
          peg := ← decode lib peg
          netBase := ← decode lib netBase
          quoteLong := ← decode lib quoteLong
          quoteShort := ← decode lib quoteShort
          socialLoss := ← decode lib socialLoss
          baseSpread := ← decode lib baseSpread
          longSpread := ← decode lib longSpread
          shortSpread := ← decode lib shortSpread
          maxSpread := ← decode lib maxSpread
          minBaseReserve := ← decode lib minBaseReserve
          maxBaseReserve := ← decode lib maxBaseReserve
          stepSize := ← decode lib stepSize
          repegIntensity := ← decode lib repegIntensity
          jitIntensity := ← decode lib jitIntensity
          budget := ← decode lib budget
          lastOraclePrice := ← decode lib lastOraclePrice
          lastOracleAverage := ← decode lib lastOracleAverage }
    | _ => none

instance : Declared PoolBalance where
  codec lib := lib.record
    ["balance", "market_index"]
    (fun b => [encode lib b.balance, encode lib b.market])
    fun
    | [balance, market] => do
      pure ⟨← decode lib balance, ← decode lib market⟩
    | _ => none

instance : Declared PerpMarket where
  codec lib := lib.record
    ["market_index", "status", "amm", "margin_ratio_initial", "margin_ratio_maintenance",
      "imf_factor", "unrealized_imf_factor", "unrealized_initial_asset_weight",
      "unrealized_maintenance_asset_weight", "unrealized_max_imbalance", "liquidator_fee",
      "pnl_pool"]
    (fun m =>
      [encode lib m.index, encode lib m.status, encode lib m.amm, encode lib m.initialRatio,
        encode lib m.maintenanceRatio, encode lib m.imf, encode lib m.pnlImf,
        encode lib m.initialPnlWeight, encode lib m.maintenancePnlWeight,
        encode lib m.maxImbalance, encode lib m.liquidatorFee, encode lib m.pnlPool])
    fun
    | [index, status, amm, initialRatio, maintenanceRatio, imf, pnlImf, initialPnlWeight,
      maintenancePnlWeight, maxImbalance, liquidatorFee, pnlPool] => do
      pure
        { index := ← decode lib index
          status := ← decode lib status
          amm := ← decode lib amm
          initialRatio := ← decode lib initialRatio
          maintenanceRatio := ← decode lib maintenanceRatio
          imf := ← decode lib imf
          pnlImf := ← decode lib pnlImf
          initialPnlWeight := ← decode lib initialPnlWeight
          maintenancePnlWeight := ← decode lib maintenancePnlWeight
          maxImbalance := ← decode lib maxImbalance
          liquidatorFee := ← decode lib liquidatorFee
          pnlPool := ← decode lib pnlPool }
    | _ => none

instance : Declared SpotMarket where
  codec lib := lib.record
    ["market_index", "decimals", "cumulative_deposit_interest", "cumulative_borrow_interest",
      "deposit_balance", "borrow_balance", "initial_asset_weight", "maintenance_asset_weight",
      "initial_liability_weight", "maintenance_liability_weight", "imf_factor", "liquidator_fee"]
    (fun m =>
      [encode lib m.index, encode lib m.decimals, encode lib m.depositIndex,
        encode lib m.borrowIndex, encode lib m.depositBalance, encode lib m.borrowBalance,
        encode lib m.initialAssetWeight, encode lib m.maintenanceAssetWeight,
        encode lib m.initialLiabilityWeight, encode lib m.maintenanceLiabilityWeight,
        encode lib m.imf, encode lib m.liquidatorFee])
    fun
    | [index, decimals, depositIndex, borrowIndex, depositBalance, borrowBalance,
      initialAssetWeight, maintenanceAssetWeight, initialLiabilityWeight,
      maintenanceLiabilityWeight, imf, liquidatorFee] => do
      pure
        { index := ← decode lib index
          decimals := ← decode lib decimals
          depositIndex := ← decode lib depositIndex
          borrowIndex := ← decode lib borrowIndex
          depositBalance := ← decode lib depositBalance
          borrowBalance := ← decode lib borrowBalance
          initialAssetWeight := ← decode lib initialAssetWeight
          maintenanceAssetWeight := ← decode lib maintenanceAssetWeight
          initialLiabilityWeight := ← decode lib initialLiabilityWeight
          maintenanceLiabilityWeight := ← decode lib maintenanceLiabilityWeight
          imf := ← decode lib imf
          liquidatorFee := ← decode lib liquidatorFee }
    | _ => none

/-! ### Oracles -/

instance : Declared OracleReading where
  codec lib := lib.record
    ["price", "confidence", "delay", "has_sufficient_number_of_data_points"]
    (fun r =>
      [encode lib r.price, encode lib r.confidence, encode lib r.delay,
        encode lib r.hasEnoughDataPoints])
    fun
    | [price, confidence, delay, hasEnoughDataPoints] => do
      pure
        { price := ← decode lib price
          confidence := ← decode lib confidence
          delay := ← decode lib delay
          hasEnoughDataPoints := ← decode lib hasEnoughDataPoints }
    | _ => none

instance : Declared DivergenceRails where
  codec lib := lib.record
    ["mark_oracle_divergence_numerator", "mark_oracle_divergence_denominator"]
    (fun r => [encode lib r.numerator, encode lib r.denominator])
    fun
    | [numerator, denominator] => do
      pure ⟨← decode lib numerator, ← decode lib denominator⟩
    | _ => none

instance : Declared ValidityRails where
  codec lib := lib.record
    ["slots_before_stale_for_amm", "slots_before_stale_for_margin",
      "confidence_interval_max_size", "too_volatile_ratio"]
    (fun r =>
      [encode lib r.slotsBeforeStaleForAmm, encode lib r.slotsBeforeStaleForMargin,
        encode lib r.maxConfidence, encode lib r.tooVolatileRatio])
    fun
    | [slotsBeforeStaleForAmm, slotsBeforeStaleForMargin, maxConfidence, tooVolatileRatio] => do
      pure
        { slotsBeforeStaleForAmm := ← decode lib slotsBeforeStaleForAmm
          slotsBeforeStaleForMargin := ← decode lib slotsBeforeStaleForMargin
          maxConfidence := ← decode lib maxConfidence
          tooVolatileRatio := ← decode lib tooVolatileRatio }
    | _ => none

instance : Declared OracleRails where
  codec lib := lib.record
    ["price_divergence", "validity", "use_for_liquidations"]
    (fun r => [encode lib r.divergence, encode lib r.validity, encode lib r.useForLiquidations])
    fun
    | [divergence, validity, useForLiquidations] => do
      pure ⟨← decode lib divergence, ← decode lib validity, ← decode lib useForLiquidations⟩
    | _ => none

/-! ### Positions and accounts -/

instance : Declared PerpPosition where
  codec lib := lib.record
    ["market_index", "base_asset_amount", "quote_asset_amount", "quote_entry_amount"]
    (fun p => [encode lib p.market, encode lib p.base, encode lib p.quote, encode lib p.entry])
    fun
    | [market, base, quote, entry] => do
      pure ⟨← decode lib market, ← decode lib base, ← decode lib quote, ← decode lib entry⟩
    | _ => none

instance : Declared PositionDelta where
  codec lib := lib.record
    ["base_asset_amount", "quote_asset_amount"]
    (fun d => [encode lib d.base, encode lib d.quote])
    fun
    | [base, quote] => do
      pure ⟨← decode lib base, ← decode lib quote⟩
    | _ => none

instance : Declared SpotPosition where
  codec lib := lib.record
    ["market_index", "balance_type", "balance", "open_bids", "open_asks", "cumulative_deposits"]
    (fun p =>
      [encode lib p.market, encode lib p.side, encode lib p.balance, encode lib p.openBids,
        encode lib p.openAsks, encode lib p.cumulativeDeposits])
    fun
    | [market, side, balance, openBids, openAsks, cumulativeDeposits] => do
      pure
        { market := ← decode lib market
          side := ← decode lib side
          balance := ← decode lib balance
          openBids := ← decode lib openBids
          openAsks := ← decode lib openAsks
          cumulativeDeposits := ← decode lib cumulativeDeposits }
    | _ => none

instance : Declared Account where
  codec lib := lib.record
    ["account_id", "perp_positions", "spot_positions", "status", "next_liquidation_id"]
    (fun a =>
      [encode lib a.id, encode lib a.perps, encode lib a.spots, encode lib a.status,
        encode lib a.nextLiquidation])
    fun
    | [id, perps, spots, status, nextLiquidation] => do
      pure
        { id := ← decode lib id
          perps := ← decode lib perps
          spots := ← decode lib spots
          status := ← decode lib status
          nextLiquidation := ← decode lib nextLiquidation }
    | _ => none

/-! ### Orders and margins -/

instance : Declared OrderPrice where
  codec lib := lib.choice .camelCase
    (fun
      | .market => ("Market", none)
      | .limit price => ("Limit", some (encode lib price))
      | .oracleOffset offset => ("OracleOffset", some (encode lib offset)))
    [("Market", .unit .market),
      ("Limit", .content fun v => (decode lib v).map .limit),
      ("OracleOffset", .content fun v => (decode lib v).map .oracleOffset)]

instance : Declared Order where
  codec lib := lib.record
    ["direction", "base_asset_amount", "price"]
    (fun o => [encode lib o.direction, encode lib o.size, encode lib o.price])
    fun
    | [direction, size, price] => do
      pure ⟨← decode lib direction, ← decode lib size, ← decode lib price⟩
    | _ => none

instance : Declared MarginTotal where
  codec lib := lib.record
    ["margin_type", "margin_requirement", "total_collateral", "num_perp_positions",
      "num_spot_liabilities"]
    (fun t =>
      [encode lib t.kind, encode lib t.requirement, encode lib t.collateral,
        encode lib t.perpPositions, encode lib t.spotLiabilities])
    fun
    | [kind, requirement, collateral, perpPositions, spotLiabilities] => do
      pure
        { kind := ← decode lib kind
          requirement := ← decode lib requirement
          collateral := ← decode lib collateral
          perpPositions := ← decode lib perpPositions
          spotLiabilities := ← decode lib spotLiabilities }
    | _ => none

/-! ### Fees and settings -/

instance : Declared FeeSample where
  codec lib := lib.record
    ["slot", "fee"]
    (fun s => [encode lib s.slot, encode lib s.fee])
    fun
    | [slot, fee] => do
      pure ⟨← decode lib slot, ← decode lib fee⟩
    | _ => none

instance : Declared FeeStrategy where
  codec lib := lib.tagged "type" .camelCase
    (fun
      | .average => ("Average", [])
      | .max => ("Max", [])
      | .maxOverSlots lookback => ("MaxOverSlots", [("lookback_slots", encode lib lookback)])
      | .ewma halfLife => ("Ewma", [("half_life_slots", encode lib halfLife)]))
    [("Average", [], fun
        | [] => some .average
        | _ => none),
      ("Max", [], fun
        | [] => some .max
        | _ => none),
      ("MaxOverSlots", ["lookback_slots"], fun
        | [lookback] => (decode lib lookback).map .maxOverSlots
        | _ => none),
      ("Ewma", ["half_life_slots"], fun
        | [halfLife] => (decode lib halfLife).map .ewma
        | _ => none)]

instance : Declared FeePolicy where
  codec lib := lib.record
    ["strategy", "min_fee", "max_fee"]
    (fun p => [encode lib p.strategy, encode lib p.minFee, encode lib p.maxFee])
    fun
    | [strategy, minFee, maxFee] => do
      pure ⟨← decode lib strategy, ← decode lib minFee, ← decode lib maxFee⟩
    | _ => none

instance : Declared LiquidationCaps where
  codec lib := lib.record
    ["max_pnl_transfer", "max_base_transfer"]
    (fun c => [encode lib c.maxPnlTransfer, encode lib c.maxBaseTransfer])
    fun
    | [maxPnlTransfer, maxBaseTransfer] => do
      pure ⟨← decode lib maxPnlTransfer, ← decode lib maxBaseTransfer⟩
    | _ => none

instance : Declared Config where
  codec lib := lib.record
    ["oracle_guard_rails", "liquidation", "priority_fee"]
    (fun c => [encode lib c.oracleRails, encode lib c.liquidation, encode lib c.priorityFee])
    fun
    | [oracleRails, liquidation, priorityFee] => do
      pure ⟨← decode lib oracleRails, ← decode lib liquidation, ← decode lib priorityFee⟩
    | _ => none

/-! ### Records, which are only written -/

variable (lib : JsonLibrary)

/-- The fields of one kind of record. -/
def LiquidationKind.members : LiquidationKind → List (String × Json)
  | .takeover r =>
    [("marketIndex", encode lib r.market), ("oraclePrice", encode lib r.oraclePrice),
      ("baseAssetAmount", encode lib r.base), ("quoteAssetAmount", encode lib r.quote),
      ("liquidatorFee", encode lib r.fee), ("liquidatorFeeAmount", encode lib r.feeAmount)]
  | .settlement r =>
    [("perpMarketIndex", encode lib r.perpMarket), ("marketOraclePrice", encode lib r.oraclePrice),
      ("pnlTransfer", encode lib r.pnl), ("assetMarketIndex", encode lib r.assetMarket),
      ("assetPrice", encode lib r.assetPrice), ("assetTransfer", encode lib r.asset)]

/-- A record: what all records have, the kind, and the fields of that kind. -/
def LiquidationRecord.toJson (r : LiquidationRecord) : Json :=
  .ofMembers
    ([("liquidationId", encode lib r.id), ("ts", encode lib r.time), ("user", encode lib r.user),
      ("liquidator", encode lib r.liquidator), ("marginRequirement", encode lib r.requirement),
      ("totalCollateral", encode lib r.collateral), ("liquidationType", .text r.kind.name)] ++
      r.kind.members lib)

end PerpExchange
