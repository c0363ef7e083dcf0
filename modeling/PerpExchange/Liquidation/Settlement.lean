import PerpExchange.Liquidation.Outcome
import PerpExchange.Market.PnlPool

/-!
Settling a user's perp loss against one of their deposits.

The loss settled is the least of the loss, the caller's cap, what the market's pnl pool can pay and
the value of the deposit. The liquidator takes that much of the deposit with a fee on top, rounded
up, at most the whole deposit.
-/

namespace PerpExchange

/-- A sized settlement that has not been applied yet. -/
structure Settlement where
  perp : PerpPosition
  deposit : SpotPosition
  bank : SpotMarket
  check : MarginTotal
  oraclePrice : Price
  assetPrice : Price
  pnl : QuoteAmount
  asset : TokenAmount
deriving DecidableEq

/-- What the pnl pool of a market can pay, in quote. -/
def PerpMarket.poolValue (m : PerpMarket) (s : Snapshot) : Except Failure QuoteAmount := do
  let bank ← s.spot m.pnlPool.market
  let tokens ← m.availablePnl bank
  let price ← s.spotPrice m.pnlPool.market
  tokens.quoteValue price .truncate

/-- The tokens that settle `pnl` with the fee on top, at most `deposit`. -/
def PerpMarket.settlementAsset (m : PerpMarket) (pnl : QuoteAmount) (price : Price)
    (decimals : UInt32) (deposit : TokenAmount) : Except Failure TokenAmount := do
  let factor ← feePremium m.liquidatorFee
  let value ← (← pnl.mul factor).rescaleCeil
  let tokens ← TokenAmount.ofQuoteValue value price decimals .ceil
  tokens.min deposit

def Account.deposit? (a : Account) (market : MarketIndex) : Option SpotPosition :=
  (a.spot? market).filter fun p => p.side == .deposit && p.balance.raw != 0

namespace Settlement

def plan (user : Account) (market asset : MarketIndex) (cap : QuoteAmount) (s : Snapshot) :
    Except Failure (Decision Settlement) := do
  Refusal.guard (0 < cap.raw) (.amountNotPositive cap.raw)
  let m ← s.perp market
  let oracle ← s.pricedPerpOracle market
  let bank ← s.spot asset
  let assetPrice ← s.spotPrice asset
  match ← user.failingCheck s with
  | none => pure (.skip .sufficientCollateral)
  | some check =>
    let perp ← user.perp market
    let loss ← perp.unrealizedPnl oracle.price
    if 0 ≤ loss.raw then pure (.skip .pnlNotNegative)
    else match user.deposit? asset with
      | none => pure (.skip .noDepositInAssetMarket)
      | some deposit =>
        let held ← deposit.tokens bank
        let pool ← m.poolValue s
        let value ← held.quoteValue assetPrice .truncate
        let pnl := min (min (min (← loss.abs) cap) pool) value
        if pnl.raw ≤ 0 then pure (.skip .nothingToTransfer)
        else
          let taken ← m.settlementAsset pnl assetPrice bank.decimals held
          pure (.act
            { perp, deposit, bank, check, oraclePrice := oracle.price, assetPrice, pnl
              asset := taken })

/-- The user after the settlement, and its record. The deposit goes to the liquidator, so the totals
of the bank stay as they are. -/
def apply (t : Settlement) (user : Account) (market asset : MarketIndex) (liquidator : Liquidator) :
    Except Violation LiquidationOutcome := do
  let (_, debited) ← t.deposit.updateBalance t.asset .borrow t.bank false
  let quote ← t.perp.quote.add t.pnl
  let user := user.modifySpot asset fun _ => debited
  let user := user.modifyPerp market fun p => { p with quote }
  pure (user.recordLiquidation liquidator t.check
    (.settlement
      { perpMarket := market, oraclePrice := t.oraclePrice, pnl := t.pnl, assetMarket := asset
        assetPrice := t.assetPrice, asset := t.asset }))

end Settlement

def Account.liquidatePnl (user : Account) (liquidator : Liquidator) (market asset : MarketIndex)
    (cap : QuoteAmount) (s : Snapshot) : Except Failure LiquidationOutcome := do
  match ← Settlement.plan user market asset cap s with
  | .skip reason => pure (.none reason)
  | .act settlement => settlement.apply user market asset liquidator

end PerpExchange
