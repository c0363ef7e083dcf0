import PerpExchange.Market.Perp
import PerpExchange.Position.Perp
import PerpExchange.Position.Spot

/-!
What one position contributes to margin: a requirement and collateral, both in quote.

Requirements are rounded up and collateral is rounded down in size.
-/

namespace PerpExchange

structure PositionMargin where
  requirement : QuoteAmount
  collateral : QuoteAmount
deriving DecidableEq

/-- The notional at the oracle times the margin ratio, and the pnl times its weight. -/
def PerpPosition.margin (p : PerpPosition) (m : PerpMarket) (oracle : Price) (kind : MarginKind) :
    Except Violation PositionMargin := do
  let notional ← baseValue p.base oracle
  let ratio ← m.marginRatio p.base kind
  let requirement ← (← notional.mul ratio).rescaleCeil
  let pnl ← p.unrealizedPnl oracle
  let weight ← m.pnlWeight pnl kind
  let collateral ← (← pnl.mul weight).rescale
  pure ⟨requirement, collateral⟩

/-- A deposit is weighted collateral, a borrow a weighted requirement. -/
def SpotPosition.margin (p : SpotPosition) (m : SpotMarket) (oracle : Price) (kind : MarginKind) :
    Except Violation PositionMargin := do
  let tokens ← p.tokens m
  match p.side with
  | .deposit => do
    let value ← tokens.quoteValue oracle .truncate
    let weight ← m.assetWeight tokens kind
    let collateral ← (← value.mul weight).rescale
    pure ⟨0, collateral⟩
  | .borrow => do
    let value ← tokens.quoteValue oracle .ceil
    let weight ← m.liabilityWeight tokens kind
    let requirement ← (← value.mul weight).rescaleCeil
    pure ⟨requirement, 0⟩

end PerpExchange
