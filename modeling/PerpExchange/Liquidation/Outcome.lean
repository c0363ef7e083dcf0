import PerpExchange.Liquidation.Record
import PerpExchange.Margin.Account

/-!
Which accounts can be liquidated, and what a liquidation may come to.
-/

namespace PerpExchange

/-- Who liquidates, and when. -/
structure Liquidator where
  time : Timestamp
  id : AccountId
deriving DecidableEq

inductive NoLiquidation where
  | sufficientCollateral
  | pnlNotNegative
  | noDepositInAssetMarket
  | noPositionToLiquidate
  | nothingToTransfer
deriving DecidableEq, Repr

def NoLiquidation.name : NoLiquidation → String
  | .sufficientCollateral => "SufficientCollateral"
  | .pnlNotNegative => "PnlNotNegative"
  | .noDepositInAssetMarket => "NoDepositInAssetMarket"
  | .noPositionToLiquidate => "NoPositionToLiquidate"
  | .nothingToTransfer => "NothingToTransfer"

/-- Something to do, or the reason why there is nothing. -/
inductive Decision (α : Type) where
  | act (what : α)
  | skip (reason : NoLiquidation)
deriving DecidableEq

inductive LiquidationOutcome where
  | liquidated (user : Account) (record : LiquidationRecord)
  | none (reason : NoLiquidation)
deriving DecidableEq

namespace Account

/-- The margin check that makes the account liquidatable: maintenance, or initial once it is being
liquidated. None for a healthy account. -/
def failingCheck (a : Account) (s : Snapshot) : Except Failure (Option MarginTotal) := do
  let maintenance ← a.margin s .maintenance
  if ¬ maintenance.isMet then pure (some maintenance)
  else if a.status = .beingLiquidated then
    let initial ← a.margin s .initial
    pure (if initial.isMet then none else some initial)
  else pure none

/-- The account marked as being liquidated, and the record of it under the next id. -/
def recordLiquidation (a : Account) (liquidator : Liquidator) (check : MarginTotal)
    (kind : LiquidationKind) : LiquidationOutcome :=
  let (id, a) := { a with status := .beingLiquidated }.takeLiquidationId
  .liquidated a
    { id
      time := liquidator.time
      user := a.id
      liquidator := liquidator.id
      requirement := check.requirement
      collateral := check.collateral
      kind }

end Account

def feePremium (fee : LiquidationFee) : Except Violation LiquidationFee :=
  (Fixed.one : LiquidationFee).add fee

end PerpExchange
