import PerpExchange.Market.Spot

/-!
Spot positions: a balance on one side of a spot market, open orders, and a running deposit tally.

A deposit into a borrow pays it down first, and what is left over becomes a deposit; a withdrawal
works the other way round. What is rounded goes against the user.
-/

namespace PerpExchange

structure SpotPosition where
  market : MarketIndex
  side : BalanceSide
  balance : Balance
  /-- Tokens bid for in open orders; not negative. -/
  openBids : Int128
  /-- Tokens offered in open orders; not positive. -/
  openAsks : Int128
  cumulativeDeposits : Int128
deriving DecidableEq

namespace SpotPosition

def new (market : MarketIndex) : SpotPosition := ⟨market, .deposit, 0, 0, 0, 0⟩

def isAvailable (p : SpotPosition) : Bool :=
  p.balance.raw == 0 && p.openBids.raw == 0 && p.openAsks.raw == 0

def tokens (p : SpotPosition) (m : SpotMarket) : Except Violation TokenAmount :=
  m.tokensOf p.balance p.side

/-- The tokens, negative for a borrow. -/
def signedTokens (p : SpotPosition) (m : SpotMarket) : Except Violation TokenAmount := do
  let tokens ← p.tokens m
  match p.side with
  | .deposit => pure tokens
  | .borrow => TokenAmount.check "signed_token_amount" (-tokens.amount.raw) tokens.decimals

def addOrder (p : SpotPosition) (direction : Direction) (amount : Int128) :
    Except Violation SpotPosition :=
  match direction with
  | .long => do
    let openBids ← Int128.check "open_bids" (p.openBids.raw + amount.raw)
    pure { p with openBids }
  | .short => do
    let openAsks ← Int128.check "open_asks" (p.openAsks.raw - amount.raw)
    pure { p with openAsks }

def removeOrder (p : SpotPosition) (direction : Direction) (amount : Int128) :
    Except Violation SpotPosition :=
  match direction with
  | .long => do
    let openBids ← Int128.check "open_bids" (p.openBids.raw - amount.raw)
    pure { p with openBids }
  | .short => do
    let openAsks ← Int128.check "open_asks" (p.openAsks.raw + amount.raw)
    pure { p with openAsks }

end SpotPosition

namespace SpotMarket

def totalName : BalanceSide → String
  | .deposit => "deposit_balance"
  | .borrow => "borrow_balance"

def storeTotal (m : SpotMarket) (side : BalanceSide) (next : Balance) :
    Except Violation SpotMarket := do
  Violation.guard (0 ≤ next.raw) (.balanceNegative (totalName side))
  pure (m.withTotal side next)

def raiseTotal (m : SpotMarket) (side : BalanceSide) (amount : Balance) :
    Except Violation SpotMarket := do
  m.storeTotal side (← (m.total side).add amount)

/-- The market with `amount` less on a side, of which it must have as much. -/
def lowerTotal (m : SpotMarket) (side : BalanceSide) (amount : Balance) :
    Except Violation SpotMarket := do
  m.storeTotal side (← (m.total side).sub amount)

end SpotMarket

namespace SpotPosition

/-- Takes tokens off a balance that covers them. A deposit loses its balance rounded up, a borrow
rounded down, never more than there is. -/
def draw (p : SpotPosition) (tokens : TokenAmount) (m : SpotMarket) (roundUp : Bool) :
    Except Violation (SpotMarket × SpotPosition) := do
  let needed ← m.balanceOf tokens p.side (roundUp || p.side == .deposit)
  let removed := min needed p.balance
  let balance ← p.balance.sub removed
  let m ← m.lowerTotal p.side removed
  pure (m, { p with balance })

/-- Adds tokens to the balance on `side`. A deposit gains its balance rounded down, a borrow rounded
up. -/
def pile (p : SpotPosition) (tokens : TokenAmount) (side : BalanceSide) (m : SpotMarket)
    (roundUp : Bool) : Except Violation (SpotMarket × SpotPosition) := do
  let added ← m.balanceOf tokens side (roundUp || side == .borrow)
  let balance ← p.balance.add added
  let m ← m.raiseTotal side added
  pure (m, { p with side, balance })

/-- Moves tokens into the position toward `side`: against a balance on the other side first, and
what that balance does not cover becomes a balance on `side`. -/
def updateBalance (p : SpotPosition) (tokens : TokenAmount) (side : BalanceSide) (m : SpotMarket)
    (roundUp : Bool) : Except Violation (SpotMarket × SpotPosition) := do
  Violation.guard (tokens.decimals = m.decimals)
    (.precisionMismatch m.decimals.toNat tokens.decimals.toNat)
  if p.side ≠ side ∧ p.balance.raw ≠ 0 then
    let existing ← p.tokens m
    if tokens.amount.raw ≤ existing.amount.raw then p.draw tokens m roundUp
    else
      let m ← m.lowerTotal p.side p.balance
      let rest ← tokens.sub existing
      { p with balance := 0 }.pile rest side m roundUp
  else p.pile tokens side m roundUp

/-- `updateBalance`, and the deposit tally with it. -/
def update (p : SpotPosition) (tokens : TokenAmount) (side : BalanceSide) (m : SpotMarket)
    (roundUp : Bool) : Except Violation (SpotMarket × SpotPosition) := do
  let (m, p) ← p.updateBalance tokens side m roundUp
  let signed := match side with
    | .deposit => tokens.amount.raw
    | .borrow => -tokens.amount.raw
  let cumulativeDeposits ←
    Int128.check "cumulative_deposits" (p.cumulativeDeposits.raw + signed)
  pure (m, { p with cumulativeDeposits })

/-- Moves tokens from one position to another in the same market: a withdrawal, then a deposit. -/
def transfer (tokens : TokenAmount) (m : SpotMarket) (source target : SpotPosition) :
    Except Failure (SpotMarket × SpotPosition × SpotPosition) := do
  Refusal.guard (source.market = target.market) (.spotMarketsDiffer source.market target.market)
  let (m, source) ← source.update tokens .borrow m false
  let (m, target) ← target.update tokens .deposit m false
  pure (m, source, target)

end SpotPosition

end PerpExchange
