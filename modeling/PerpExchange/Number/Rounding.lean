import PerpExchange.Number.Int128

/-!
Quotients with a direction of rounding, and moves between numbers of decimals.

A quotient is rounded once, toward zero or toward positive infinity. Where a power of ten has to
be applied it goes to the numerator or to the denominator before the division, never after it, so
no digit is lost early.
-/

namespace PerpExchange

/-- Which way a quotient that is not whole goes. -/
inductive Rounding where
  /-- Toward zero. -/
  | truncate
  /-- Toward positive infinity. -/
  | ceil
deriving DecidableEq, Repr

/-- The whole quotient. Above the truncated one by one exactly when rounding up, and a remainder
with the sign of the divisor is left. -/
def Rounding.quotient (rounding : Rounding) (a b : Int) : Int :=
  match rounding with
  | .truncate => a.tdiv b
  | .ceil =>
    if a.tmod b ≠ 0 ∧ (0 < a.tmod b ↔ 0 < b) then a.tdiv b + 1 else a.tdiv b

namespace Int128

/-- The rounded quotient of two integers, for the operation named `site`. -/
def divide (site : String) (rounding : Rounding) (a b : Int) : Except Violation Int128 :=
  if b = 0 then .error (.divisionByZero site) else check site (rounding.quotient a b)

/-- A power of ten, for the operation named `site`. The largest in range has 38 zeros. -/
def pow10 (site : String) (exponent : Nat) : Except Violation Int128 :=
  if exponent ≤ 38 then check site (Nat.pow 10 exponent) else .error (.overflow site)

/-- The quantity `raw` with `source` decimals, written with `target` decimals. -/
def moveDecimals (site : String) (rounding : Rounding) (raw : Int) (source target : Nat) :
    Except Violation Int128 :=
  if source ≤ target then do
    let factor ← pow10 site (target - source)
    check site (raw * factor.raw)
  else do
    let divisor ← pow10 site (source - target)
    divide site rounding raw divisor.raw

/-- The quotient of `a` and `b` with `shift` more decimals than the plain quotient has. -/
def divideShifted (site : String) (rounding : Rounding) (a b : Int) (shift : Int) :
    Except Violation Int128 :=
  if 0 ≤ shift then do
    let factor ← pow10 site shift.toNat
    let numerator ← check site (a * factor.raw)
    divide site rounding numerator.raw b
  else do
    let factor ← pow10 site (-shift).toNat
    let denominator ← check site (b * factor.raw)
    divide site rounding a denominator.raw

end Int128

end PerpExchange
