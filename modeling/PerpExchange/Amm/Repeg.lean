import PerpExchange.Amm.Swap
import PerpExchange.Oracle.Reading

/-!
Moving the peg of a pool toward the oracle, and moving its reserves along the curve to a price.

A repeg changes the price without touching the reserves. When users are net long, raising the peg
pays them; that cost comes out of the pool's budget, and a move that the budget cannot pay is
shortened until it can.
-/

namespace PerpExchange.Amm

/-- The peg at which the reserves price at the oracle, at least one unit. -/
def optimalPeg (a : Amm) (oracle : Price) : Except Violation Peg := do
  a.reserves.check
  let peg ← oracle.mulDiv a.baseReserve a.quoteReserve
  pure (max peg Fixed.least)

/-- The quote reserve that closing all positions would release; negative if it would absorb some. -/
def exposure (a : Amm) : Except Violation QuoteReserve := do
  let terminal ← a.terminalQuote
  a.quoteReserve.sub terminal

/-- What the pool pays if every position closes after the peg moved, rounded up. -/
def repegCost (a : Amm) (newPeg : Peg) : Except Violation QuoteAmount := do
  let exposure ← a.exposure
  let move ← newPeg.sub a.peg
  (← exposure.mul move).rescaleCeil

def spendable (a : Amm) : QuoteAmount := max a.budget 0

/-- The share of the way to the optimal peg that the intensity allows. -/
def desiredMove (a : Amm) (oracle : Price) : Except Violation Peg := do
  let optimal ← a.optimalPeg oracle
  let full ← optimal.sub a.peg
  (← full.mulInt (min a.repegIntensity.toNat maxRepegIntensity)).divInt 100

/-- The longest move in the direction of `move` that the budget pays. -/
def affordableMove (a : Amm) (move : Peg) : Except Violation Peg := do
  let exposure ← (← a.exposure).abs
  let size : Peg ← a.spendable.divTo exposure
  size.mulInt move.raw.sign

def applyMove (a : Amm) (oracle : Price) (move : Peg) (cost : QuoteAmount) :
    Except Violation Amm := do
  let peg ← a.peg.add move
  let budget ← a.budget.sub cost
  pure { a with peg := max peg Fixed.least, budget, lastOraclePrice := oracle }

def repegs (a : Amm) (oracle : OracleReading) : Bool :=
  a.repegIntensity != 0 && decide (0 < oracle.price.raw)

def repeg (a : Amm) (oracle : OracleReading) : Except Violation Amm :=
  if a.repegs oracle then do
    let move ← a.desiredMove oracle.price
    let cost ← a.repegCost (← a.peg.add move)
    if a.spendable < cost then
      let affordable ← a.affordableMove move
      let reduced ← a.repegCost (← a.peg.add affordable)
      a.applyMove oracle.price affordable reduced
    else a.applyMove oracle.price move cost
  else pure a

/-- The pool moved along its curve to where it prices at `target`. -/
def rebalance (a : Amm) (target : Price) : Except Failure Amm := do
  Refusal.guard (0 < target.raw) (.oraclePriceNotPositive target.raw)
  let k ← a.invariant
  let scaled ← Int128.check "rebalance_reserves" (k.raw * target.raw)
  let squared ← Int128.divide "rebalance_reserves" .truncate scaled.raw a.peg.raw
  Violation.guard (0 ≤ squared.raw) (.balanceNegative "rebalance_reserves")
  let quote : QuoteReserve ← Fixed.check "rebalance_reserves" (floorSqrt squared.raw.toNat)
  Violation.guard (0 < quote.raw) (.reserveNotPositive .quote)
  let base ← k.divTo quote
  pure (a.withReserves ⟨base, quote⟩)

end PerpExchange.Amm
