import PerpExchange.Amm.Quoting
import PerpExchange.Amm.Repeg
import PerpExchange.Market.Perp

/-!
The prices of a perp market. All of them come from the pool as a repeg against the oracle would
leave it, so they agree with what a fill would see.
-/

namespace PerpExchange

namespace PerpMarket

def markPrice (m : PerpMarket) (oracle : OracleReading) : Except Violation Price := do
  (← m.amm.repeg oracle).price

def quotedPrice (m : PerpMarket) (oracle : OracleReading) (direction : Direction) :
    Except Violation Price := do
  let amm ← m.amm.repeg oracle
  let reserves ← amm.spreadReserves direction
  reserves.price amm.peg

def bidPrice (m : PerpMarket) (oracle : OracleReading) : Except Violation Price :=
  m.quotedPrice oracle .short

def askPrice (m : PerpMarket) (oracle : OracleReading) : Except Violation Price :=
  m.quotedPrice oracle .long

def bidAsk (m : PerpMarket) (oracle : OracleReading) : Except Violation (Price × Price) := do
  let bid ← m.bidPrice oracle
  let ask ← m.askPrice oracle
  pure (bid, ask)

/-- The market after a swap, with nothing but its reserves replaced. -/
def afterTrade (m : PerpMarket) (amount : BaseAmount) (direction : SwapDirection) :
    Except Failure PerpMarket := do
  let swap ← m.amm.swapBase amount direction
  pure (m.withAmm (m.amm.withReserves swap.reserves))

end PerpMarket

namespace OracleReading

/-- How far a price is above the oracle. -/
def spreadOf (oracle : OracleReading) (price : Price) : Except Violation Price :=
  price.sub oracle.price

def spreadFraction (oracle : OracleReading) (price : Price) : Except Failure Percentage := do
  Refusal.guard (0 < oracle.price.raw) (.oraclePriceNotPositive oracle.price.raw)
  (← oracle.spreadOf price).divTo oracle.price

end OracleReading

end PerpExchange
