import PerpExchange.Number.Fixed

/-!
The tests that the parameters of a market must pass before the market is listed or changed.
-/

namespace PerpExchange.Listing

/-- The margin ratios that a market may have: 2% to 100%. -/
def leastRatio : Int := 200

def mostRatio : Int := 10000

/-- The largest spread that a market should be given: 10%. -/
def mostSpread : Int := Precision.spread.scale / 10

/-- A perp market: both ratios in bounds, initial at least maintenance, the liquidator fee below
maintenance and the largest spread below initial. -/
def checkMargin (initial maintenance : MarginRatio) (fee : LiquidationFee) (maxSpread : Spread) :
    Except Refusal Unit := do
  Refusal.guard (leastRatio ≤ initial.raw ∧ initial.raw ≤ mostRatio)
    (.marginParameters (.initialOutside initial.raw leastRatio mostRatio))
  Refusal.guard (leastRatio ≤ maintenance.raw ∧ maintenance.raw ≤ mostRatio)
    (.marginParameters (.maintenanceOutside maintenance.raw leastRatio mostRatio))
  Refusal.guard (maintenance ≤ initial)
    (.marginParameters (.initialBelowMaintenance initial.raw maintenance.raw))
  Refusal.guard (fee.raw < maintenance.raw * Precision.feeUnitsPerRatioUnit)
    (.marginParameters (.feeNotBelowMaintenance fee.raw maintenance.raw))
  Refusal.guard (maxSpread.raw < initial.raw * Precision.feeUnitsPerRatioUnit)
    (.marginParameters (.spreadNotBelowInitial maxSpread.raw initial.raw))

structure SpotWeights where
  initialAsset : Weight
  maintenanceAsset : Weight
  initialLiability : Weight
  maintenanceLiability : Weight
  imf : ImfFactor
deriving DecidableEq

/-- The quote asset counts in full everywhere. -/
def checkQuoteWeights (w : SpotWeights) : Except Refusal Unit :=
  Refusal.guard
    (w.initialAsset = Fixed.one ∧ w.maintenanceAsset = Fixed.one ∧
      w.initialLiability = Fixed.one ∧ w.maintenanceLiability = Fixed.one)
    (.spotWeights .quoteNotFull)

/-- Deposits count for less than 100% and borrows for more, initial margin never milder than
maintenance. -/
def checkVolatileWeights (w : SpotWeights) : Except Refusal Unit := do
  Refusal.guard (w.initialAsset < Fixed.one) (.spotWeights .initialAssetNotBelowFull)
  Refusal.guard (w.initialAsset ≤ w.maintenanceAsset)
    (.spotWeights .initialAssetAboveMaintenance)
  Refusal.guard (0 < w.maintenanceAsset.raw ∧ w.maintenanceAsset < Fixed.one)
    (.spotWeights .maintenanceAssetOutside)
  Refusal.guard (Fixed.one < w.initialLiability) (.spotWeights .initialLiabilityNotAboveFull)
  Refusal.guard (w.maintenanceLiability ≤ w.initialLiability)
    (.spotWeights .initialLiabilityBelowMaintenance)
  Refusal.guard (Fixed.one < w.maintenanceLiability)
    (.spotWeights .maintenanceLiabilityNotAboveFull)

def checkWeights (market : MarketIndex) (w : SpotWeights) : Except Refusal Unit := do
  if market = .quote then checkQuoteWeights w else checkVolatileWeights w
  Refusal.guard (0 ≤ w.imf.raw ∧ w.imf.raw < Precision.imf.scale) (.spotWeights .imfOutside)

end PerpExchange.Listing
