import PerpExchange.Amm.Quoting
import PerpExchange.Market.Perp

/-!
How much of a maker's fill the pool takes while an auction runs.

The pool may join when users are net on one side, and takes at most what they are net. It takes at
most half of the maker's size, an eighth when the fill looks like a wash, and nothing without a valid
oracle price. Which side the taker is on does not change the size.
-/

namespace PerpExchange.PerpMarket

/-- `amount` scaled by the intensity, but at most the pool's net inventory. -/
def clampJit (m : PerpMarket) (amount : BaseAmount) : Except Violation BaseAmount :=
  if m.amm.jitIntensity = 0 then pure 0
  else do
    let scaled ← (← amount.mulInt (min m.amm.jitIntensity.toNat Amm.maxJitIntensity)).divInt 100
    let inventory ← m.amm.netBase.abs
    pure (min scaled inventory)

/-- A taker who crosses on the wrong side of the oracle is likely trading with itself. -/
def isLikelyWash (auction oracle : Price) : Direction → Bool
  | .long => decide (auction < oracle)
  | .short => decide (oracle < auction)

/-- The most the pool may take of a maker's size. -/
def jitCap (maker : BaseAmount) (wash : Bool) : Except Violation BaseAmount := do
  let half ← maker.divInt 2
  if wash then half.divInt 4 else pure half

/-- What the pool would take by itself: all of it when its liquidity is imbalanced, else a
quarter. -/
def jitAppetite (m : PerpMarket) (maker : BaseAmount) : Except Violation BaseAmount := do
  let (bids, asks) ← m.amm.openBidsAsks
  if ← isImbalanced bids asks then pure maker else maker.divInt 4

/-- The base that the pool takes of a maker's fill, a multiple of its step size. -/
def jitAmount (m : PerpMarket) (maker : BaseAmount) (auction : Price) (oracle : Option Price)
    (taker : Direction) : Except Violation BaseAmount :=
  match oracle with
  | none => pure 0
  | some oracle => do
    let cap ← jitCap maker (isLikelyWash auction oracle taker)
    let appetite ← m.jitAppetite maker
    let clamped ← m.clampJit appetite
    standardize (min clamped cap) m.amm.stepSize

end PerpExchange.PerpMarket
