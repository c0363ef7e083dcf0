import PerpExchange.Position.Perp
import PerpExchange.Position.Spot

/-!
User accounts: perp and spot positions, a liquidation status, and the id of the next liquidation.

A market's position is the first one in the list that is in that market.
-/

namespace PerpExchange

inductive AccountStatus where
  | active
  | beingLiquidated
  | bankrupt
deriving DecidableEq, Repr

structure Account where
  id : AccountId
  perps : List PerpPosition
  spots : List SpotPosition
  status : AccountStatus
  /-- The id that the next liquidation record will carry. -/
  nextLiquidation : UInt64
deriving DecidableEq

/-- The list with the first element that satisfies `p` changed by `f`. -/
def modifyFirst {α : Type} (p : α → Bool) (f : α → α) : List α → List α
  | [] => []
  | a :: rest => if p a then f a :: rest else a :: modifyFirst p f rest

namespace Account

def new (id : AccountId) : Account := ⟨id, [], [], .active, 1⟩

def isBeingLiquidated (a : Account) : Bool := a.status == .beingLiquidated

def isBankrupt (a : Account) : Bool := a.status == .bankrupt

def perp? (a : Account) (market : MarketIndex) : Option PerpPosition :=
  a.perps.find? (·.market == market)

def spot? (a : Account) (market : MarketIndex) : Option SpotPosition :=
  a.spots.find? (·.market == market)

def perp (a : Account) (market : MarketIndex) : Except Refusal PerpPosition :=
  match a.perp? market with
  | some p => .ok p
  | none => .error (.positionMissing market)

/-- The account with its perp position in a market changed; an account without one stays as it
is. -/
def modifyPerp (a : Account) (market : MarketIndex) (f : PerpPosition → PerpPosition) : Account :=
  { a with perps := modifyFirst (·.market == market) f a.perps }

def modifySpot (a : Account) (market : MarketIndex) (f : SpotPosition → SpotPosition) : Account :=
  { a with spots := modifyFirst (·.market == market) f a.spots }

/-- The account with a perp position in the market, a new one at the end if there was none. -/
def ensurePerp (a : Account) (market : MarketIndex) : Account :=
  if (a.perp? market).isSome then a else { a with perps := a.perps ++ [PerpPosition.new market] }

def ensureSpot (a : Account) (market : MarketIndex) : Account :=
  if (a.spot? market).isSome then a else { a with spots := a.spots ++ [SpotPosition.new market] }

def perpOrNew (a : Account) (market : MarketIndex) : PerpPosition :=
  (a.perp? market).getD (PerpPosition.new market)

def spotOrNew (a : Account) (market : MarketIndex) : SpotPosition :=
  (a.spot? market).getD (SpotPosition.new market)

/-- The account with its perp position in a market replaced, or appended if there was none. -/
def putPerp (a : Account) (market : MarketIndex) (p : PerpPosition) : Account :=
  (a.ensurePerp market).modifyPerp market fun _ => p

def putSpot (a : Account) (market : MarketIndex) (p : SpotPosition) : Account :=
  (a.ensureSpot market).modifySpot market fun _ => p

/-- The account after a liquidation record was written: its id is taken, and the next one is higher
unless ids have run out. -/
def takeLiquidationId (a : Account) : UInt64 × Account :=
  (a.nextLiquidation,
    { a with
      nextLiquidation :=
        if a.nextLiquidation.toNat + 1 < UInt64.size then a.nextLiquidation + 1
        else a.nextLiquidation })

end Account

end PerpExchange
