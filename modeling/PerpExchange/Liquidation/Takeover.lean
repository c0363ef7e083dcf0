import PerpExchange.Liquidation.Outcome

/-!
Moving part of a perp position to the liquidator.

The liquidator takes base at the oracle price less a fee, or pays for taking over a short with a
fee on top. The size is the least of the position, the caller's cap, and what covers the margin
shortage: each unit of base closed frees the oracle price times margin ratio less fee.
-/

namespace PerpExchange

structure Takeover where
  position : PerpPosition
  check : MarginTotal
  oraclePrice : Price
  direction : Direction
  size : BaseAmount
  price : Price
  /-- What the user receives for a long, or pays, then negative, for a short. -/
  quote : QuoteAmount
  fee : LiquidationFee
  feeAmount : QuoteAmount
deriving DecidableEq

namespace PerpMarket

/-- The base to close to cover the shortage; none if closing frees nothing. -/
def baseToCover (m : PerpMarket) (check : MarginTotal) (oracle : Price) :
    Except Failure (Option BaseAmount) := do
  let ratio := match check.kind with
    | .initial => m.initialRatio
    | .maintenance => m.maintenanceRatio
  let ratio : LiquidationFee ← Fixed.check "freed_fraction" (ratio.raw * Precision.feeUnitsPerRatioUnit)
  let freed ← ratio.sub m.liquidatorFee
  if freed.raw ≤ 0 then pure none
  else
    let freedPerBase : Price ← (← oracle.mul freed).rescale
    if freedPerBase.raw ≤ 0 then pure none
    else
      let shortage ← check.shortage
      let base ← shortage.divToCeil freedPerBase
      pure (some base)

/-- The price of a takeover and the signed quote that moves for `size`, each rounded against the
user's quote. -/
def takeoverPrice (m : PerpMarket) (oracle : Price) (direction : Direction) (size : BaseAmount) :
    Except Failure (Price × QuoteAmount) :=
  match direction with
  | .long => do
    let factor ← (Fixed.one : LiquidationFee).sub m.liquidatorFee
    let price ← (← oracle.mul factor).rescale
    let received ← baseValue size price
    pure (price, received)
  | .short => do
    let factor ← feePremium m.liquidatorFee
    let price ← (← oracle.mul factor).rescaleCeil
    let paid : QuoteAmount ← (← size.mul price).rescaleCeil
    pure (price, ← paid.neg)

end PerpMarket

namespace Takeover

def plan (user : Account) (market : MarketIndex) (cap : BaseAmount) (s : Snapshot) :
    Except Failure (Decision Takeover) := do
  Refusal.guard (0 < cap.raw) (.amountNotPositive cap.raw)
  let m ← s.perp market
  let oracle ← s.pricedPerpOracle market
  match ← user.failingCheck s with
  | none => pure (.skip .sufficientCollateral)
  | some check =>
    let position ← user.perp market
    match position.direction with
    | none => pure (.skip .noPositionToLiquidate)
    | some direction =>
      let held ← position.base.abs
      let cover ← m.baseToCover check oracle.price
      let size := min (min held cap) (cover.getD held)
      if size.raw ≤ 0 then pure (.skip .nothingToTransfer)
      else
        let (price, quote) ← m.takeoverPrice oracle.price direction size
        let value ← baseValue size oracle.price
        let feeAmount ← (← value.sub (← quote.abs)).abs
        pure (.act
          { position, check, oraclePrice := oracle.price, direction, size, price, quote
            fee := m.liquidatorFee, feeAmount })

def apply (t : Takeover) (user : Account) (market : MarketIndex) (liquidator : Liquidator) :
    Except Violation LiquidationOutcome := do
  let base ← t.size.mulInt (-t.direction.sign)
  let update ← t.position.apply ⟨base, t.quote⟩
  pure ((user.modifyPerp market fun _ => update.position).recordLiquidation liquidator t.check
    (.takeover
      { market, oraclePrice := t.oraclePrice, base, quote := t.quote, fee := t.fee
        feeAmount := t.feeAmount }))

end Takeover

/-- Moves part of an under-margined position to the liquidator. -/
def Account.liquidatePerp (user : Account) (liquidator : Liquidator) (market : MarketIndex)
    (cap : BaseAmount) (s : Snapshot) : Except Failure LiquidationOutcome := do
  match ← Takeover.plan user market cap s with
  | .skip reason => pure (.none reason)
  | .act takeover => takeover.apply user market liquidator

end PerpExchange
