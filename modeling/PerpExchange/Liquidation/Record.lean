import PerpExchange.Side
import PerpExchange.Timestamp
import PerpExchange.Token

/-!
Liquidation records: one immutable record for every liquidation.
-/

namespace PerpExchange

/-- Base of a perp position that went to the liquidator. -/
structure TakeoverRecord where
  market : MarketIndex
  oraclePrice : Price
  /-- The base moved, signed from the user's side. -/
  base : BaseAmount
  quote : QuoteAmount
  fee : LiquidationFee
  feeAmount : QuoteAmount
deriving DecidableEq

/-- A perp loss that was settled against a deposit. -/
structure SettlementRecord where
  perpMarket : MarketIndex
  oraclePrice : Price
  pnl : QuoteAmount
  assetMarket : MarketIndex
  assetPrice : Price
  asset : TokenAmount
deriving DecidableEq

inductive LiquidationKind where
  | takeover (record : TakeoverRecord)
  | settlement (record : SettlementRecord)
deriving DecidableEq

def LiquidationKind.name : LiquidationKind → String
  | .takeover _ => "liquidatePerp"
  | .settlement _ => "liquidatePerpPnlForDeposit"

structure LiquidationRecord where
  id : UInt64
  time : Timestamp
  user : AccountId
  liquidator : AccountId
  /-- The requirement of the margin check that failed, before the transfer. -/
  requirement : QuoteAmount
  /-- The collateral of the margin check that failed, before the transfer. -/
  collateral : QuoteAmount
  kind : LiquidationKind
deriving DecidableEq

end PerpExchange
