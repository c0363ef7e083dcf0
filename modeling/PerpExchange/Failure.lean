import PerpExchange.Identity

/-!
Why a computation gives no result.

A `Violation` means that the numbers handed in are corrupt: a result left the range, a divisor
was zero, a reserve was not positive. A `Refusal` means that the caller asked for something
outside the domain of an operation and may ask again. A `Failure` is either of the two, or a stop in
the middle of an operation that has no way to report one. "There is nothing to do" is not a failure;
operations report it as an outcome.
-/

namespace PerpExchange

inductive ReserveSide where
  | base
  | quote
deriving DecidableEq, Repr

def ReserveSide.text : ReserveSide → String
  | .base => "base"
  | .quote => "quote"

/-- Corrupt numbers. The operation that met them is named. -/
inductive Violation where
  | overflow (site : String)
  | divisionByZero (site : String)
  | reserveNotPositive (side : ReserveSide)
  | precisionMismatch (expected found : Nat)
  | balanceNegative (site : String)
deriving DecidableEq, Repr

def Violation.message : Violation → String
  | .overflow site => "arithmetic overflow in " ++ site
  | .divisionByZero site => "division by zero in " ++ site
  | .reserveNotPositive side => "amm " ++ side.text ++ " reserve is not positive"
  | .precisionMismatch expected found =>
    "precision mismatch: expected " ++ toString expected ++ " decimals, found " ++ toString found
  | .balanceNegative site => "balance went negative in " ++ site

inductive MarginFault where
  | initialOutside (ratio low high : Int)
  | maintenanceOutside (ratio low high : Int)
  | initialBelowMaintenance (initial maintenance : Int)
  | feeNotBelowMaintenance (fee maintenance : Int)
  | spreadNotBelowInitial (spread initial : Int)
deriving DecidableEq, Repr

private def outside (what : String) (ratio low high : Int) : String :=
  what ++ " " ++ toString ratio ++ " outside [" ++ toString low ++ ", " ++ toString high ++ "]"

def MarginFault.reason : MarginFault → String
  | .initialOutside ratio low high => outside "initial" ratio low high
  | .maintenanceOutside ratio low high => outside "maintenance" ratio low high
  | .initialBelowMaintenance initial maintenance =>
    "initial " ++ toString initial ++ " below maintenance " ++ toString maintenance
  | .feeNotBelowMaintenance fee maintenance =>
    "liquidation fee " ++ toString fee ++ " not below maintenance " ++ toString maintenance
  | .spreadNotBelowInitial spread initial =>
    "max spread " ++ toString spread ++ " not below initial " ++ toString initial

inductive WeightFault where
  | quoteNotFull
  | initialAssetNotBelowFull
  | initialAssetAboveMaintenance
  | maintenanceAssetOutside
  | initialLiabilityNotAboveFull
  | initialLiabilityBelowMaintenance
  | maintenanceLiabilityNotAboveFull
  | imfOutside
deriving DecidableEq, Repr

def WeightFault.reason : WeightFault → String
  | .quoteNotFull => "quote market weights must all be 100%"
  | .initialAssetNotBelowFull => "initial asset weight must be below 100%"
  | .initialAssetAboveMaintenance => "initial asset weight above maintenance"
  | .maintenanceAssetOutside => "maintenance asset weight must be in (0%, 100%)"
  | .initialLiabilityNotAboveFull => "initial liability weight must be above 100%"
  | .initialLiabilityBelowMaintenance => "initial liability weight below maintenance"
  | .maintenanceLiabilityNotAboveFull => "maintenance liability weight must be above 100%"
  | .imfOutside => "imf factor must be in [0, 1)"

/-- A request outside the domain of the operation. -/
inductive Refusal where
  | noSamples
  | samplesOutOfOrder (index : Nat)
  | halfLifeZero
  | perpMarketMissing (market : MarketIndex)
  | spotMarketMissing (market : MarketIndex)
  | oracleMissing (market : MarketIndex)
  | positionMissing (market : MarketIndex)
  | reserveExceeded (requested available : Int)
  | amountNotPositive (amount : Int)
  | oraclePriceNotPositive (price : Int)
  | limitPriceNotPositive (price : Int)
  | spotMarketsDiffer (first second : MarketIndex)
  | marginParameters (fault : MarginFault)
  | spotWeights (fault : WeightFault)
deriving DecidableEq, Repr

def Refusal.message : Refusal → String
  | .noSamples => "no fee samples supplied"
  | .samplesOutOfOrder index =>
    "fee samples must be ordered newest first; sample " ++ toString index ++ " is out of order"
  | .halfLifeZero => "ewma half life must be positive"
  | .perpMarketMissing market => "perp market " ++ market.tagged ++ " not in snapshot"
  | .spotMarketMissing market => "spot market " ++ market.tagged ++ " not in snapshot"
  | .oracleMissing market => "no oracle price for market " ++ market.tagged
  | .positionMissing market => "user has no position in market " ++ market.tagged
  | .reserveExceeded requested available =>
    "swap of " ++ toString requested ++ " exceeds reserve of " ++ toString available
  | .amountNotPositive amount => "amount must be positive, got " ++ toString amount
  | .oraclePriceNotPositive price => "oracle price must be positive, got " ++ toString price
  | .limitPriceNotPositive price => "limit price must be positive, got " ++ toString price
  | .spotMarketsDiffer first second =>
    "spot positions belong to different markets: " ++ first.tagged ++ " and " ++ second.tagged
  | .marginParameters fault => "invalid margin parameters: " ++ fault.reason
  | .spotWeights fault => "invalid spot market weights: " ++ fault.reason

/-- Stops with the violation unless the condition holds. -/
def Violation.guard (condition : Prop) [Decidable condition] (violation : Violation) :
    Except Violation Unit :=
  if condition then .ok () else .error violation

@[simp] theorem Violation.guard_eq_ok {condition : Prop} [Decidable condition]
    {violation : Violation} {u : Unit} : Violation.guard condition violation = .ok u ↔ condition := by
  unfold Violation.guard
  split <;> simp_all

def Refusal.guard (condition : Prop) [Decidable condition] (refusal : Refusal) :
    Except Refusal Unit :=
  if condition then .ok () else .error refusal

@[simp] theorem Refusal.guard_eq_ok {condition : Prop} [Decidable condition]
    {refusal : Refusal} {u : Unit} : Refusal.guard condition refusal = .ok u ↔ condition := by
  unfold Refusal.guard
  split <;> simp_all

inductive Failure where
  | violation (cause : Violation)
  | refusal (cause : Refusal)
  /-- Unchecked arithmetic had no result, and nothing behind it was done. -/
  | stopped (site : String)
deriving DecidableEq, Repr

namespace Failure

def message : Failure → String
  | .violation cause => "invariant violated: " ++ cause.message
  | .refusal cause => "input out of domain: " ++ cause.message
  | .stopped site => "stopped in " ++ site

/-- Corrupt state must not be tried again; a refused request may be mended. -/
def isFatal : Failure → Bool
  | .violation _ => true
  | .refusal _ => false
  | .stopped _ => true

/-- Arithmetic inside an operation: its violation is the operation's. -/
def ofViolation {α : Type} : Except Violation α → Except Failure α
  | .ok a => .ok a
  | .error cause => .error (.violation cause)

/-- A look-up inside an operation: its refusal is the operation's. -/
def ofRefusal {α : Type} : Except Refusal α → Except Failure α
  | .ok a => .ok a
  | .error cause => .error (.refusal cause)

/-- Unchecked arithmetic inside an operation. -/
def orStop {α : Type} (site : String) : Option α → Except Failure α
  | some a => .ok a
  | none => .error (.stopped site)

@[simp] theorem orStop_eq_ok {α : Type} {site : String} {x : Option α} {a : α} :
    orStop site x = .ok a ↔ x = some a := by
  cases x <;> simp [orStop]

@[simp] theorem ofViolation_eq_ok {α : Type} {x : Except Violation α} {a : α} :
    ofViolation x = .ok a ↔ x = .ok a := by
  cases x <;> simp [ofViolation]

@[simp] theorem ofRefusal_eq_ok {α : Type} {x : Except Refusal α} {a : α} :
    ofRefusal x = .ok a ↔ x = .ok a := by
  cases x <;> simp [ofRefusal]

instance : MonadLift (Except Violation) (Except Failure) where
  monadLift := ofViolation

instance : MonadLift (Except Refusal) (Except Failure) where
  monadLift := ofRefusal

end Failure

end PerpExchange
