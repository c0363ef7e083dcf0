import PerpExchange.Amm.State

/-!
What a pool quotes to takers: the reserves behind the ask and the bid, the size that moves the
price to a limit, and the liquidity left on each side.
-/

namespace PerpExchange

namespace Amm

def spreadOf (a : Amm) : Direction → Spread
  | .long => a.longSpread
  | .short => a.shortSpread

/-- Half of the spread's share of the quote reserve. -/
def quoteShift (a : Amm) (direction : Direction) : Except Violation QuoteReserve := do
  let share : QuoteReserve ← (← a.quoteReserve.mul (a.spreadOf direction)).rescale
  share.divInt 2

/-- The reserves that takers of one direction are quoted from. For longs the quote reserve moves up
and the base reserve is rounded down, for shorts the other way, so that the bid is at most the
price of the pool and the ask at least. -/
def spreadReserves (a : Amm) (direction : Direction) : Except Violation Reserves := do
  let k ← a.invariant
  let shift ← a.quoteShift direction
  match direction with
  | .long => do
    let quote ← a.quoteReserve.add shift
    let base ← k.divTo quote
    pure ⟨base, quote⟩
  | .short => do
    let quote ← a.quoteReserve.sub shift
    Violation.guard (0 < quote.raw) (.reserveNotPositive .quote)
    let base ← k.divToCeil quote
    pure ⟨base, quote⟩

/-- The base reserve at which the pool's price is `limit`: the root of `k * peg / limit`. -/
def baseAtPrice (a : Amm) (limit : Price) : Except Violation BaseAmount := do
  let k ← a.invariant
  let pegged ← Int128.check "max_base_asset_amount_to_price" (k.raw * a.peg.raw)
  let squared ←
    Int128.divide "max_base_asset_amount_to_price" .truncate pegged.raw limit.raw
  (⟨squared⟩ : Product .base .base).sqrt

/-- The largest trade that moves the price to `limit`, and its direction; none if the pool is
there already. -/
def sizeToPrice (a : Amm) (limit : Price) : Except Violation (Option (BaseAmount × Direction)) := do
  let base ← a.baseAtPrice limit
  if a.baseReserve < base then
    let size ← base.sub a.baseReserve
    pure (some (size, .short))
  else if base < a.baseReserve then
    let size ← a.baseReserve.sub base
    pure (some (size, .long))
  else pure none

/-- Base that the pool can still take on each side within its bounds: bids, which are not negative,
and asks, which are not positive. -/
def openBidsAsks (a : Amm) : Except Violation (BaseAmount × BaseAmount) := do
  let bids ← a.baseReserve.sub a.minBaseReserve
  let asks ← (← a.maxBaseReserve.sub a.baseReserve).neg
  pure (max bids 0, min asks 0)

end Amm

def standardize (amount step : BaseAmount) : Except Violation BaseAmount := do
  Violation.guard (step.raw ≠ 0) (.divisionByZero "standardize_base_asset_amount")
  Fixed.check "sub" (amount.raw - amount.raw.tmod step.raw)

def imbalanceRatio : Int := 3

/-- Whether one side has at least three times the liquidity of the other. Liquidity on one side only
is imbalanced. -/
def isImbalanced (bids asks : BaseAmount) : Except Violation Bool := do
  let bids ← bids.abs
  let asks ← asks.abs
  let larger := max bids asks
  let smaller := min bids asks
  if smaller.raw = 0 then pure (decide (0 < larger.raw))
  else
    let limit ← smaller.mulInt imbalanceRatio
    pure (decide (limit ≤ larger))

end PerpExchange
