import PerpExchange.Amm.State

/-!
The long and short spread of a pool, from its distance to the oracle and from its inventory.
-/

namespace PerpExchange

structure Spreads where
  long : Spread
  short : Spread
deriving DecidableEq

namespace Spreads

/-- The two spreads together are above `limit`, and neither is zero, so they are scaled down. -/
def isScaled (s : Spreads) (limit : Spread) : Bool :=
  decide (limit.raw < s.long.raw + s.short.raw) && limit.raw != 0 &&
    s.long.raw + s.short.raw != 0

/-- The spreads with a total of at most `limit`. The long spread keeps its share, rounded down, and
the short one takes the rest. -/
def clamp (s : Spreads) (limit : Spread) : Except Violation Spreads := do
  let total ← s.long.add s.short
  if limit < total then
    if limit.raw = 0 ∨ total.raw = 0 then pure ⟨0, 0⟩
    else
      let long ← s.long.mulDiv limit total
      let short ← limit.sub long
      pure ⟨long, short⟩
  else pure s

end Spreads

namespace Amm

/-- Half the base spread on each side, and the divergence of the pool's price from the oracle added
to the side that would trade through it. -/
def divergedSpreads (a : Amm) (oracle : Price) : Except Violation Spreads := do
  let half ← a.baseSpread.divInt 2
  let price ← a.price
  let divergence : Spread ← (← price.sub oracle).divTo oracle
  if divergence.raw < 0 then
    let long ← half.add (← divergence.abs)
    pure ⟨long, half⟩
  else
    let short ← half.add divergence
    pure ⟨half, short⟩

/-- One plus the net base as a fraction of the base reserve, at most ten. -/
def skewScale (a : Amm) : Except Violation Spread := do
  let skew : Spread ← (← a.netBase.abs).divTo a.baseReserve
  let scale ← (Fixed.one : Spread).add skew
  pure (min scale (Fixed.ofRaw 10000000))

/-- The spreads before they are clamped: the side that would add to the inventory is scaled by its
skew. -/
def widenedSpreads (a : Amm) (oracle : Price) : Except Failure Spreads := do
  Refusal.guard (0 < oracle.raw) (.oraclePriceNotPositive oracle.raw)
  let s ← a.divergedSpreads oracle
  let scale ← a.skewScale
  if 0 < a.netBase.raw then
    let long ← (← s.long.mul scale).rescale
    pure { s with long }
  else if a.netBase.raw < 0 then
    let short ← (← s.short.mul scale).rescale
    pure { s with short }
  else pure s

def spreads (a : Amm) (oracle : Price) : Except Failure Spreads := do
  let s ← a.widenedSpreads oracle
  s.clamp a.maxSpread

def updateSpreads (a : Amm) (oracle : Price) : Except Failure Amm := do
  let s ← a.spreads oracle
  pure { a with longSpread := s.long, shortSpread := s.short }

end Amm

end PerpExchange
