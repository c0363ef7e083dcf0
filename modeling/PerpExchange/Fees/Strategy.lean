import PerpExchange.Failure
import PerpExchange.Number.Decimal

/-!
Priority fees from recent samples.

Samples are handed in newest first, with strictly falling slots. A strategy reduces them to one fee.
-/

namespace PerpExchange

structure FeeSample where
  slot : UInt64
  fee : UInt64
deriving DecidableEq

inductive FeeStrategy where
  /-- The mean, rounded down. -/
  | average
  | max
  /-- The largest fee no more than `lookback` slots older than the newest sample. -/
  | maxOverSlots (lookback : UInt64)
  /-- The mean in which a sample counts half for every `halfLife` slots of age. -/
  | ewma (halfLife : UInt64)
deriving DecidableEq

namespace FeeSample

/-- The index of the first sample that is not older than the one before it. -/
def outOfOrder? : List FeeSample → Option Nat
  | a :: b :: rest => if a.slot ≤ b.slot then some 1 else (outOfOrder? (b :: rest)).map (· + 1)
  | _ => none

/-- The newest sample of a list that is not empty and is in order. -/
def newest (samples : List FeeSample) : Except Refusal FeeSample :=
  match samples with
  | [] => .error .noSamples
  | sample :: _ =>
    match outOfOrder? samples with
    | some index => .error (.samplesOutOfOrder index)
    | none => .ok sample

def maxFee : List FeeSample → Nat
  | [] => 0
  | a :: rest => Nat.max a.fee.toNat (maxFee rest)

def totalFee : List FeeSample → Nat
  | [] => 0
  | a :: rest => a.fee.toNat + totalFee rest

variable (d : DecimalArithmetic)

/-- One half to the power of the age of a sample against the newest one, in half-lives. -/
def weight (halfLife : UInt64) (newest sample : FeeSample) : Except Failure d.Number := do
  let age := d.ofUInt64 (newest.slot - sample.slot)
  let halfLives ← Failure.orStop "half-lives" (d.div age (d.ofUInt64 halfLife))
  match d.pow d.half halfLives with
  | some weight => pure weight
  | none => .error (.violation (.overflow "ewma weight"))

/-- Adds the weighted fees of some samples to a total, and their weights to another. -/
def addWeighted (halfLife : UInt64) (newest : FeeSample) :
    d.Number × d.Number → List FeeSample → Except Failure (d.Number × d.Number)
  | totals, [] => pure totals
  | (fees, weights), sample :: rest => do
    let weight ← weight d halfLife newest sample
    let fee ← Failure.orStop "weighted fee" (d.mul weight (d.ofUInt64 sample.fee))
    let fees ← Failure.orStop "weighted fees" (d.add fees fee)
    let weights ← Failure.orStop "weights" (d.add weights weight)
    addWeighted halfLife newest (fees, weights) rest

end FeeSample

namespace FeeStrategy

open FeeSample

variable (d : DecimalArithmetic)

def decayedMean (halfLife : UInt64) (samples : List FeeSample) : Except Failure Nat := do
  Refusal.guard (halfLife ≠ 0) .halfLifeZero
  let newest ← newest samples
  let (fees, weights) ← addWeighted d halfLife newest (d.zero, d.zero) samples
  if d.isZero weights then pure newest.fee.toNat
  else
    let mean ← Failure.orStop "mean fee" (d.div fees weights)
    match d.toUInt64? (d.round mean) with
    | some fee => pure fee.toNat
    | none => .error (.violation (.overflow "ewma fee"))

def fee (strategy : FeeStrategy) (samples : List FeeSample) : Except Failure Nat := do
  match strategy with
  | .average =>
    let _ ← newest samples
    pure (totalFee samples / samples.length)
  | .max =>
    let _ ← newest samples
    pure (maxFee samples)
  | .maxOverSlots lookback =>
    let newest ← newest samples
    let oldest := newest.slot.toNat - lookback.toNat
    pure (maxFee (samples.takeWhile fun s => oldest ≤ s.slot.toNat))
  | .ewma halfLife => decayedMean d halfLife samples

end FeeStrategy

end PerpExchange
