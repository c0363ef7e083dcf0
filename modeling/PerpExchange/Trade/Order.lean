import PerpExchange.Number.Fixed
import PerpExchange.Side

/-!
Orders of takers.
-/

namespace PerpExchange

inductive OrderPrice where
  | market
  | limit (price : Price)
  /-- Limit at the oracle price plus a signed offset. -/
  | oracleOffset (offset : Price)
deriving DecidableEq

/-- The limit that the order sets against an oracle price, if it sets one. -/
def OrderPrice.limit? (price : OrderPrice) (oracle : Price) : Except Violation (Option Price) :=
  match price with
  | .market => pure none
  | .limit price => pure (some price)
  | .oracleOffset offset => do
    let price ← oracle.add offset
    pure (some price)

structure Order where
  direction : Direction
  size : BaseAmount
  price : OrderPrice
deriving DecidableEq

end PerpExchange
