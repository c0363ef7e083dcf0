import PerpExchange.Liquidation.Outcome
import PerpExchange.Oracle.Rails
import PerpExchange.Trade.Fill

/-!
What a venue can be asked to do, and what it answers.
-/

namespace PerpExchange

inductive Command where
  /-- Fills an order of a user against the pool and books it. -/
  | fill (user : AccountId) (market : MarketIndex) (order : Order)
  /-- Moves tokens into a user's spot position. -/
  | balance (user : AccountId) (market : MarketIndex) (side : BalanceSide) (amount : Int128)
      (roundUp : Bool)
  /-- Moves a deposit between users. -/
  | transfer (source target : AccountId) (market : MarketIndex) (amount : Int128)
  /-- Opens or closes a part of a spot order. -/
  | order (user : AccountId) (market : MarketIndex) (direction : Direction) (amount : Int128)
      (decrease : Bool)
  | readPerpOracle (market : MarketIndex) (reading : OracleReading)
  | readSpotOracle (market : MarketIndex) (reading : OracleReading)
  | revisePerp (market : MarketIndex) (revise : PerpMarket → PerpMarket)
  | reviseSpot (market : MarketIndex) (revise : SpotMarket → SpotMarket)
  | reviseAccount (user : AccountId) (revise : Account → Account)
  | spreads (market : MarketIndex)
  | repeg (market : MarketIndex)
  | rebalance (market : MarketIndex) (target : Price)
  | trade (market : MarketIndex) (amount : BaseAmount) (direction : SwapDirection)
  | prices (market : MarketIndex)
  | imbalance (market : MarketIndex)
  | jit (market : MarketIndex) (maker : BaseAmount) (auction : Price) (taker : Direction)
  | margin (user : AccountId) (kind : MarginKind)
  | canBeLiquidated (user : AccountId)
  | takeover (user : AccountId) (liquidator : Liquidator) (market : MarketIndex) (cap : BaseAmount)
  | settlement (user : AccountId) (liquidator : Liquidator) (market asset : MarketIndex)
      (cap : QuoteAmount)
  | records
  | clearRecords
  | account (user : AccountId)

/-- A margin total with what is left or lacking. -/
structure MarginReport where
  total : MarginTotal
  free : QuoteAmount
  shortage : QuoteAmount
deriving DecidableEq

structure PriceReport where
  mark : Price
  bid : Price
  ask : Price
  spread : Price
  spreadFraction : Percentage
deriving DecidableEq

structure PoolReport where
  available : TokenAmount
  netUserPnl : QuoteAmount
  imbalance : QuoteAmount
deriving DecidableEq

inductive Reply where
  | done
  | notFilled (reason : NoFill)
  | traded (trade : Trade)
  | balanced (market : SpotMarket) (position : SpotPosition) (tokens : TokenAmount)
  | transferred (market : SpotMarket) (source target : SpotPosition)
  | orders (position : SpotPosition)
  | pool (amm : Amm)
  | prices (report : PriceReport)
  | imbalance (report : PoolReport)
  | jit (validity : OracleValidity) (amount : BaseAmount)
  | margin (report : MarginReport)
  | flag (value : Bool)
  | liquidation (outcome : LiquidationOutcome)
  | records (records : List LiquidationRecord)
  | account (account : Account)

/-- Why a venue did not do what it was asked. Arithmetic and look-ups of the venue itself fail with
their own cause, an operation with its failure. -/
inductive Rejection where
  | violation (cause : Violation)
  | refusal (cause : Refusal)
  | failure (cause : Failure)
  | accountMissing (user : AccountId)
deriving DecidableEq

namespace Rejection

def message : Rejection → String
  | .violation cause => cause.message
  | .refusal cause => cause.message
  | .failure cause => cause.message
  | .accountMissing user => "no account " ++ user.text

def ofViolation {α : Type} : Except Violation α → Except Rejection α
  | .ok a => .ok a
  | .error cause => .error (.violation cause)

def ofRefusal {α : Type} : Except Refusal α → Except Rejection α
  | .ok a => .ok a
  | .error cause => .error (.refusal cause)

def ofFailure {α : Type} : Except Failure α → Except Rejection α
  | .ok a => .ok a
  | .error cause => .error (.failure cause)

@[simp] theorem ofViolation_eq_ok {α : Type} {x : Except Violation α} {a : α} :
    ofViolation x = .ok a ↔ x = .ok a := by
  cases x <;> simp [ofViolation]

@[simp] theorem ofRefusal_eq_ok {α : Type} {x : Except Refusal α} {a : α} :
    ofRefusal x = .ok a ↔ x = .ok a := by
  cases x <;> simp [ofRefusal]

@[simp] theorem ofFailure_eq_ok {α : Type} {x : Except Failure α} {a : α} :
    ofFailure x = .ok a ↔ x = .ok a := by
  cases x <;> simp [ofFailure]

instance : MonadLift (Except Violation) (Except Rejection) where
  monadLift := ofViolation

instance : MonadLift (Except Refusal) (Except Rejection) where
  monadLift := ofRefusal

instance (priority := low) : MonadLift (Except Failure) (Except Rejection) where
  monadLift := ofFailure

end Rejection

def MarginTotal.report (t : MarginTotal) : Except Violation MarginReport := do
  let free ← t.freeCollateral
  let shortage ← t.shortage
  pure ⟨t, free, shortage⟩

end PerpExchange
