import PerpExchange.Fees.Strategy
import PerpExchange.Oracle.Rails

/-!
The settings of an exchange: oracle rails, caps on liquidations and the priority fee policy. The
parameters of a market are part of the market.
-/

namespace PerpExchange

/-- The most that one liquidation call may move. -/
structure LiquidationCaps where
  maxPnlTransfer : QuoteAmount
  maxBaseTransfer : BaseAmount
deriving DecidableEq

def LiquidationCaps.standard : LiquidationCaps := ⟨Fixed.ofRaw 1000000000, Fixed.ofRaw 100000000000⟩

/-- A strategy, and the bounds of what it may return. -/
structure FeePolicy where
  strategy : FeeStrategy
  minFee : UInt64
  maxFee : UInt64
deriving DecidableEq

namespace FeePolicy

def standard : FeePolicy := ⟨.average, 0, 1000000⟩

/-- The strategy's fee, brought between the bounds. The lower bound wins over the upper. -/
def fee (d : DecimalArithmetic) (policy : FeePolicy) (samples : List FeeSample) :
    Except Failure Nat := do
  let fee ← policy.strategy.fee d samples
  pure (max policy.minFee.toNat (min fee (max policy.maxFee.toNat policy.minFee.toNat)))

end FeePolicy

inductive ConfigFault where
  | divergenceNotFraction
  | stalenessOrder
  | limitsNotPositive
  | capsNotPositive
  | feeBoundsCrossed
  | halfLifeZero
deriving DecidableEq, Repr

inductive ConfigSection where
  | oracleRails
  | liquidation
  | priorityFee
deriving DecidableEq, Repr

namespace ConfigFault

def part : ConfigFault → ConfigSection
  | .divergenceNotFraction => .oracleRails
  | .stalenessOrder => .oracleRails
  | .limitsNotPositive => .oracleRails
  | .capsNotPositive => .liquidation
  | .feeBoundsCrossed => .priorityFee
  | .halfLifeZero => .priorityFee

def reason : ConfigFault → String
  | .divergenceNotFraction => "divergence must be a fraction in (0, 1]"
  | .stalenessOrder => "margin staleness must be at least amm staleness"
  | .limitsNotPositive => "confidence and volatility limits must be positive"
  | .capsNotPositive => "transfer caps must be positive"
  | .feeBoundsCrossed => "min fee above max fee"
  | .halfLifeZero => "ewma half life must be positive"

def message (fault : ConfigFault) : String :=
  (match fault.part with
    | .oracleRails => "invalid oracle guard rails: "
    | .liquidation => "invalid liquidation config: "
    | .priorityFee => "invalid priority fee config: ") ++ fault.reason

def guard (condition : Prop) [Decidable condition] (fault : ConfigFault) :
    Except ConfigFault Unit :=
  if condition then .ok () else .error fault

@[simp] theorem guard_eq_ok {condition : Prop} [Decidable condition] {fault : ConfigFault}
    {u : Unit} : guard condition fault = .ok u ↔ condition := by
  unfold guard
  split <;> simp_all

end ConfigFault

structure Config where
  oracleRails : OracleRails
  liquidation : LiquidationCaps
  priorityFee : FeePolicy
deriving DecidableEq

namespace Config

def standard : Config := ⟨.standard, .standard, .standard⟩

/-- Readings stay fresh for longer, liquidations may settle more, and the largest fee is paid. -/
def testnet : Config where
  oracleRails := { OracleRails.standard with
    validity := { ValidityRails.standard with
      slotsBeforeStaleForAmm := 25
      slotsBeforeStaleForMargin := 300 } }
  liquidation := { LiquidationCaps.standard with maxPnlTransfer := Fixed.ofRaw 10000000000 }
  priorityFee := { FeePolicy.standard with strategy := .max }

/-- Narrower rails, smaller liquidations, and fees that follow recent samples. -/
def mainnet : Config where
  oracleRails := { OracleRails.standard with
    divergence := ⟨1, 20⟩
    validity := { ValidityRails.standard with maxConfidence := Fixed.ofRaw 10000 } }
  liquidation := { LiquidationCaps.standard with maxBaseTransfer := Fixed.ofRaw 10000000000 }
  priorityFee := ⟨.ewma 20, 1000, 2000000⟩

def validate (c : Config) : Except ConfigFault Unit := do
  let divergence := c.oracleRails.divergence
  ConfigFault.guard
    (divergence.denominator ≠ 0 ∧ divergence.numerator ≠ 0 ∧
      divergence.numerator ≤ divergence.denominator)
    .divergenceNotFraction
  let validity := c.oracleRails.validity
  ConfigFault.guard
    (0 ≤ validity.slotsBeforeStaleForAmm ∧
      validity.slotsBeforeStaleForAmm ≤ validity.slotsBeforeStaleForMargin)
    .stalenessOrder
  ConfigFault.guard (0 < validity.maxConfidence.raw ∧ 1 ≤ validity.tooVolatileRatio)
    .limitsNotPositive
  ConfigFault.guard
    (0 < c.liquidation.maxPnlTransfer.raw ∧ 0 < c.liquidation.maxBaseTransfer.raw)
    .capsNotPositive
  ConfigFault.guard (c.priorityFee.minFee ≤ c.priorityFee.maxFee) .feeBoundsCrossed
  ConfigFault.guard (c.priorityFee.strategy ≠ .ewma 0) .halfLifeZero

end Config

inductive Environment where
  | development
  | testnet
  | mainnet
deriving DecidableEq, Repr

def Environment.config : Environment → Config
  | .development => .standard
  | .testnet => .testnet
  | .mainnet => .mainnet

end PerpExchange
