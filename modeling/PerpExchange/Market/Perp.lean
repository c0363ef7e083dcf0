import PerpExchange.Amm.State
import PerpExchange.Margin.SizeCurve

/-!
Perp markets: a pool and the parameters that margins and liquidations read.
-/

namespace PerpExchange

/-- Whether a market trades. In a settled market positions carry no margin requirement. -/
inductive MarketStatus where
  | active
  /-- Fills are paused; margins and liquidations go on. -/
  | reduceOnly
  | settlement
deriving DecidableEq, Repr

structure PoolBalance where
  balance : Balance
  market : MarketIndex
deriving DecidableEq

def PoolBalance.empty : PoolBalance := ⟨0, .quote⟩

structure PerpMarket where
  index : MarketIndex
  status : MarketStatus
  amm : Amm
  initialRatio : MarginRatio
  maintenanceRatio : MarginRatio
  imf : ImfFactor
  pnlImf : ImfFactor
  initialPnlWeight : Weight
  maintenancePnlWeight : Weight
  /-- The net user pnl above which initial pnl weights are scaled down; zero never scales. -/
  maxImbalance : QuoteAmount
  liquidatorFee : LiquidationFee
  pnlPool : PoolBalance
deriving DecidableEq

namespace PerpMarket

/-- The initial margin ratio of a new market: 10%. -/
def standardInitialRatio : MarginRatio := Fixed.ofRaw 1000

/-- The maintenance margin ratio of a new market: 5%. -/
def standardMaintenanceRatio : MarginRatio := Fixed.ofRaw 500

/-- An active market around a pool, with the standard margin ratios and pnl in full. -/
def new (index : MarketIndex) (amm : Amm) : PerpMarket where
  index
  status := .active
  amm
  initialRatio := standardInitialRatio
  maintenanceRatio := standardMaintenanceRatio
  imf := 0
  pnlImf := 0
  initialPnlWeight := Fixed.one
  maintenancePnlWeight := Fixed.one
  maxImbalance := 0
  liquidatorFee := 0
  pnlPool := .empty

def empty : PerpMarket := new ⟨0⟩ (Amm.balanced 0 Fixed.one)

def withAmm (m : PerpMarket) (amm : Amm) : PerpMarket := { m with amm }

/-- What users are owed together if every position closes at `price`: the notional of the net base
and the quote legs of all positions. -/
def netUserPnl (m : PerpMarket) (price : Price) : Except Violation QuoteAmount := do
  let notional ← (← m.amm.netBase.mul price).rescale
  (← notional.add m.amm.quoteLong).add m.amm.quoteShort

/-- The margin ratio for a position of a size: along the premium curve for initial margin, flat for
maintenance, nothing once the market is settled. -/
def marginRatio (m : PerpMarket) (size : BaseAmount) (kind : MarginKind) :
    Except Violation MarginRatio :=
  if m.status = .settlement then pure 0
  else match kind with
    | .initial => do
      let grown ← SizeCurve.premium (← size.abs) m.imf m.initialRatio
      pure (max grown m.initialRatio)
    | .maintenance => pure m.maintenanceRatio

/-- The initial pnl weight, scaled by the allowed over the actual imbalance once users are owed more
than the market allows. -/
def imbalancedWeight (m : PerpMarket) : Except Violation Weight :=
  if 0 < m.initialPnlWeight.raw ∧ 0 < m.maxImbalance.raw then do
    let net ← m.netUserPnl m.amm.lastOraclePrice
    if m.maxImbalance < net then m.initialPnlWeight.mulDiv m.maxImbalance net
    else pure m.initialPnlWeight
  else pure m.initialPnlWeight

/-- The weight of unrealized pnl as collateral. Losses count in full. -/
def pnlWeight (m : PerpMarket) (pnl : QuoteAmount) (kind : MarginKind) :
    Except Violation Weight :=
  if pnl.raw ≤ 0 then pure Fixed.one
  else match kind with
    | .initial => do
      let weight ← m.imbalancedWeight
      if weight.raw = 0 then pure 0
      else
        let size ← pnl.rescale
        SizeCurve.discount size m.pnlImf weight
    | .maintenance => pure m.maintenancePnlWeight

end PerpMarket

end PerpExchange
