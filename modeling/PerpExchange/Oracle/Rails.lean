import PerpExchange.Oracle.Reading

/-!
Guard rails: whether an oracle reading is good enough to use, and whether the market has moved too
far away from it.
-/

namespace PerpExchange

/-- How far the mark price may be from the oracle, as a fraction. -/
structure DivergenceRails where
  numerator : UInt64
  denominator : UInt64
deriving DecidableEq

/-- Ten percent. -/
def DivergenceRails.standard : DivergenceRails := ⟨1, 10⟩

structure ValidityRails where
  slotsBeforeStaleForAmm : Int64
  slotsBeforeStaleForMargin : Int64
  /-- The largest confidence, as a fraction of the price. -/
  maxConfidence : Percentage
  /-- The largest ratio of the price and its average, the larger over the smaller. -/
  tooVolatileRatio : Int64
deriving DecidableEq

/-- Stale after 10 slots for the pool and 120 for margins, 2% of confidence, a factor of five. -/
def ValidityRails.standard : ValidityRails where
  slotsBeforeStaleForAmm := 10
  slotsBeforeStaleForMargin := 120
  maxConfidence := Fixed.ofRaw 20000
  tooVolatileRatio := 5

structure OracleRails where
  divergence : DivergenceRails
  validity : ValidityRails
  useForLiquidations : Bool
deriving DecidableEq

def OracleRails.standard : OracleRails := ⟨.standard, .standard, true⟩

/-- The verdict on a reading, the worst first. -/
inductive OracleValidity where
  | invalid
  | tooVolatile
  | tooUncertain
  | staleForMargin
  | insufficientDataPoints
  | staleForAmm
  | valid
deriving DecidableEq, Repr

namespace OracleValidity

def isValidForAmm : OracleValidity → Bool
  | .valid => true
  | _ => false

def isValidForMargin : OracleValidity → Bool
  | .valid => true
  | .staleForAmm => true
  | .insufficientDataPoints => true
  | _ => false

end OracleValidity

namespace ValidityRails

/-- Whether price and average differ by more than the allowed ratio. An average that is not
positive is no average yet. -/
def isTooVolatile (rails : ValidityRails) (price average : Price) : Except Violation Bool :=
  if 0 < average.raw then do
    let limit ← (min price average).mulInt rails.tooVolatileRatio.toInt
    pure (decide (limit < max price average))
  else pure false

/-- The first test that the reading fails, in the order of the verdicts. -/
def judge (rails : ValidityRails) (reading : OracleReading) (average : Price) :
    Except Violation OracleValidity :=
  if reading.price.raw ≤ 0 then pure .invalid
  else do
    if ← rails.isTooVolatile reading.price average then pure .tooVolatile
    else do
      let confidence : Percentage ← reading.confidence.divTo reading.price
      if rails.maxConfidence < confidence then pure .tooUncertain
      else if rails.slotsBeforeStaleForMargin < reading.delay then pure .staleForMargin
      else if ¬ reading.hasEnoughDataPoints then pure .insufficientDataPoints
      else if rails.slotsBeforeStaleForAmm < reading.delay then pure .staleForAmm
      else pure .valid

end ValidityRails

/-- Whether a spread between mark and oracle, as a fraction of the oracle price, reaches the
allowed fraction. -/
def DivergenceRails.isTooDivergent (rails : DivergenceRails) (spread : Percentage) :
    Except Violation Bool := do
  let scaled ← (Fixed.one : Percentage).mulInt rails.numerator.toNat
  let limit ← scaled.divInt rails.denominator.toNat
  let size ← spread.abs
  pure (decide (limit ≤ size))

end PerpExchange
