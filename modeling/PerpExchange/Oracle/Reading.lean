import PerpExchange.Number.Fixed

/-!
What an oracle reports about a price.
-/

namespace PerpExchange

structure OracleReading where
  price : Price
  /-- Half the width of the interval that the price is believed to be in. -/
  confidence : Price
  /-- Slots since the oracle last published. -/
  delay : Int64
  hasEnoughDataPoints : Bool
deriving DecidableEq

/-- A fresh reading without uncertainty. -/
def OracleReading.of (price : Price) : OracleReading where
  price
  confidence := 0
  delay := 0
  hasEnoughDataPoints := true

end PerpExchange
