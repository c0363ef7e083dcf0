import PerpExchange.Account
import PerpExchange.Margin.Position
import PerpExchange.Market.Snapshot

/-!
The margin requirement and the collateral of a whole account.

Spot positions are counted first, then perp positions, each in the order of the account. Positions
that hold nothing are passed over, so their markets need not be in the snapshot.
-/

namespace PerpExchange

structure MarginTotal where
  kind : MarginKind
  requirement : QuoteAmount
  collateral : QuoteAmount
  perpPositions : UInt16
  spotLiabilities : UInt16
deriving DecidableEq

namespace MarginTotal

def zero (kind : MarginKind) : MarginTotal := ⟨kind, 0, 0, 0, 0⟩

/-- Whether the collateral covers the requirement. -/
def isMet (t : MarginTotal) : Bool := decide (t.requirement ≤ t.collateral)

/-- What the collateral is above the requirement, at least nothing. -/
def freeCollateral (t : MarginTotal) : Except Violation QuoteAmount := do
  let free ← t.collateral.sub t.requirement
  pure (max free 0)

/-- What the collateral is below the requirement, at least nothing. -/
def shortage (t : MarginTotal) : Except Violation QuoteAmount := do
  let short ← t.requirement.sub t.collateral
  pure (max short 0)

def add (t : MarginTotal) (m : PositionMargin) : Except Violation MarginTotal := do
  let requirement ← t.requirement.add m.requirement
  let collateral ← t.collateral.add m.collateral
  pure { t with requirement, collateral }

def addSpot (s : Snapshot) (t : MarginTotal) (p : SpotPosition) : Except Failure MarginTotal := do
  let market ← s.spot p.market
  let price ← s.spotPrice p.market
  let margin ← p.margin market price t.kind
  let t ← t.add margin
  match p.side with
  | .deposit => pure t
  | .borrow => pure { t with spotLiabilities := t.spotLiabilities + 1 }

def addPerp (s : Snapshot) (t : MarginTotal) (p : PerpPosition) : Except Failure MarginTotal := do
  let market ← s.perp p.market
  let oracle ← s.pricedPerpOracle p.market
  let margin ← p.margin market oracle.price t.kind
  let t ← t.add margin
  pure { t with perpPositions := t.perpPositions + 1 }

end MarginTotal

namespace Account

def margin (a : Account) (s : Snapshot) (kind : MarginKind) : Except Failure MarginTotal := do
  let spots ← (a.spots.filter (·.balance.raw != 0)).foldlM (MarginTotal.addSpot s) (.zero kind)
  (a.perps.filter (!·.isAvailable)).foldlM (MarginTotal.addPerp s) spots

def meetsMargin (a : Account) (s : Snapshot) (kind : MarginKind) : Except Failure Bool := do
  pure (← a.margin s kind).isMet

/-- Whether the account is below maintenance margin, or is being liquidated and is still below
initial margin. -/
def canBeLiquidated (a : Account) (s : Snapshot) : Except Failure Bool := do
  if ← a.meetsMargin s .maintenance then
    if a.status = .beingLiquidated then pure !(← a.meetsMargin s .initial)
    else pure false
  else pure true

end Account

end PerpExchange
