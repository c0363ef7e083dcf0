import PerpExchange.Number.Fixed

/-!
How weights change with the size of a position.

Both curves follow the square root of the size. A liability weight grows along the premium curve,
an asset weight shrinks along the discount curve, and a factor of zero leaves both flat.
-/

namespace PerpExchange.SizeCurve

/-- The share of a weight that the premium curve starts from. -/
def shareNumerator : Int := 4

def shareDenominator : Int := 5

/-- What the root of a size is divided by before it counts against a weight. -/
def rootDivisor : Int := 100000

/-- The floor of the root of `10 * |size| + 1`. -/
def root (size : BaseAmount) : Except Violation Int128 := do
  let magnitude ← size.abs
  let n ← Int128.check "size_sqrt" (magnitude.raw * 10 + 1)
  Int128.check "size_sqrt" (floorSqrt n.raw.toNat)

/-- The liability weight (or margin ratio) at a size: four fifths of `weight` plus a term that grows
with the root of the size, but never less than `weight`. -/
def premium {p : Precision} (size : BaseAmount) (imf : ImfFactor) (weight : Fixed p) :
    Except Violation (Fixed p) :=
  if imf.raw = 0 then pure weight
  else do
    let root ← root size
    let reduced ← (← weight.mulInt shareNumerator).divInt shareDenominator
    let divisor ← Int128.divide "size_premium_denominator" .truncate
      (rootDivisor * Precision.imf.scale) p.scale
    let scaled ← Int128.check "size_premium" (root.raw * imf.raw)
    let growth ← Int128.divide "size_premium" .truncate scaled.raw divisor.raw
    let grown ← reduced.add ⟨growth⟩
    pure (max grown weight)

/-- The asset weight at a size: `weight`, or less once a quotient that falls with the root of the
size is below it. -/
def discount {p : Precision} (size : BaseAmount) (imf : ImfFactor) (weight : Fixed p) :
    Except Violation (Fixed p) :=
  if imf.raw = 0 then pure weight
  else do
    let root ← root size
    let scaled ← Int128.check "size_discount" (root.raw * imf.raw)
    let divisor ← Int128.check "size_discount" (Precision.imf.scale + scaled.raw.tdiv rootDivisor)
    let falling ← Int128.divide "size_discount" .truncate (1100000 * p.scale) divisor.raw
    pure (min ⟨falling⟩ weight)

end PerpExchange.SizeCurve
