import PerpExchange.Amm.Quoting
import PerpExchange.Market.Perp
import PerpExchange.Market.Spot
import PerpExchange.Settings.Listing

/-!
The constants that an exchange makes known to its clients, so that they can read raw integers and
check a market before they list it.
-/

namespace PerpExchange

structure PublishedConstant where
  name : String
  value : Int
deriving DecidableEq, Repr

namespace PublishedConstant

def scales : List PublishedConstant := Precision.all.map fun p => ⟨p.label, p.scale⟩

/-- What lies between the precisions that are multiplied or compared with one another. -/
def ratios : List PublishedConstant :=
  [⟨"RESERVE_TO_QUOTE", Precision.quoteReserve.scale / Precision.quote.scale⟩,
    ⟨"PEGGED_RESERVE_TO_QUOTE",
      Precision.quoteReserve.scale * Precision.peg.scale / Precision.quote.scale⟩,
    ⟨"LIQUIDATION_FEE_TO_MARGIN", Precision.feeUnitsPerRatioUnit⟩,
    ⟨"BALANCE_TIMES_INTEREST_DECIMALS", SpotMarket.balanceDecimals⟩]

def shapes : List PublishedConstant :=
  [⟨"PREMIUM_SHARE_NUMERATOR", SizeCurve.shareNumerator⟩,
    ⟨"PREMIUM_SHARE_DENOMINATOR", SizeCurve.shareDenominator⟩,
    ⟨"IMF_ROOT_DIVISOR", SizeCurve.rootDivisor⟩,
    ⟨"MAX_REPEG_INTENSITY", Amm.maxRepegIntensity⟩,
    ⟨"MAX_JIT_INTENSITY", Amm.maxJitIntensity⟩,
    ⟨"JIT_IMBALANCE_RATIO", imbalanceRatio⟩]

def listings : List PublishedConstant :=
  [⟨"MAX_SPREAD", Listing.mostSpread⟩,
    ⟨"MIN_MARGIN_RATIO", Listing.leastRatio⟩,
    ⟨"MAX_MARGIN_RATIO", Listing.mostRatio⟩,
    ⟨"QUOTE_MARKET", MarketIndex.quote.value.toNat⟩,
    ⟨"STANDARD_INITIAL_RATIO", PerpMarket.standardInitialRatio.raw⟩,
    ⟨"STANDARD_MAINTENANCE_RATIO", PerpMarket.standardMaintenanceRatio.raw⟩]

/-- All of them, in their published order. -/
def all : List PublishedConstant := scales ++ ratios ++ shapes ++ listings

end PublishedConstant

end PerpExchange
