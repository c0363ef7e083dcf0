import PerpExchange.Market.Perp
import PerpExchange.Market.Spot
import PerpExchange.Oracle.Reading

/-!
Whether the pnl pool of a perp market can pay what its users are owed.
-/

namespace PerpExchange.PerpMarket

/-- The tokens in the pnl pool, which `bank` must hold. -/
def availablePnl (m : PerpMarket) (bank : SpotMarket) : Except Failure TokenAmount := do
  Refusal.guard (bank.index = m.pnlPool.market) (.spotMarketsDiffer m.pnlPool.market bank.index)
  bank.tokensOf m.pnlPool.balance .deposit

/-- What users are owed, less social loss and less what the pool can pay. Positive when the pool is
short. -/
def imbalance (m : PerpMarket) (bank : SpotMarket) (oracle : OracleReading) :
    Except Failure QuoteAmount := do
  let tokens ← m.availablePnl bank
  let available ← tokens.toFixed
  let owed ← m.netUserPnl oracle.price
  (← owed.sub m.amm.socialLoss).sub available

end PerpExchange.PerpMarket
