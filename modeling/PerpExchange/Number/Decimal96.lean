import PerpExchange.Number.Decimal
import PerpExchange.Number.DecimalText
import PerpExchange.Number.Double
import PerpExchange.Number.SquareRoot

/-!
A decimal arithmetic to run with.

A number is a coefficient of 96 bits with up to twenty-eight decimals. Results keep as many decimals
as have room. Powers are those of one half: the product of a whole power and of `2 ^ (- 2 ^ (-i))`
for each binary digit `i` of the fraction of the exponent, where each factor is the root of the one
before.
-/

namespace PerpExchange

/-- `coefficient / 10 ^ scale`. -/
structure Decimal96 where
  coefficient : Nat
  scale : Nat
  coefficient_le : coefficient ≤ DecimalText.limit
  scale_le : scale ≤ 28

namespace Decimal96

/-- `a / b` to the nearest integer, a half going up. -/
def roundHalfUp (a b : Nat) : Nat := (2 * a + b) / (2 * b)

/-- `a / b` with the most decimals up to `scale` that have room, to the nearest, a half to the even
one. -/
def ofRatio? (a b : Nat) : (scale : Nat) → scale ≤ 28 → Option Decimal96
  | 0, hscale =>
    let coefficient := Double.nearestQuotient a b
    if h : coefficient ≤ DecimalText.limit then some ⟨coefficient, 0, h, hscale⟩ else none
  | scale + 1, hscale =>
    let coefficient := Double.nearestQuotient (a * Nat.pow 10 (scale + 1)) b
    if h : coefficient ≤ DecimalText.limit then some ⟨coefficient, scale + 1, h, hscale⟩
    else ofRatio? a b scale (Nat.le_of_succ_le hscale)

def ratio? (a b : Nat) : Option Decimal96 := ofRatio? a b 28 (Nat.le_refl 28)

def unit (x : Decimal96) : Nat := Nat.pow 10 x.scale

def ofUInt64 (n : UInt64) : Decimal96 where
  coefficient := n.toNat
  scale := 0
  coefficient_le := Nat.le_trans (Nat.le_of_lt n.toNat_lt) (by decide)
  scale_le := Nat.zero_le 28

def add (x y : Decimal96) : Option Decimal96 :=
  ratio? (x.coefficient * y.unit + y.coefficient * x.unit) (x.unit * y.unit)

def mul (x y : Decimal96) : Option Decimal96 :=
  ratio? (x.coefficient * y.coefficient) (x.unit * y.unit)

def div (x y : Decimal96) : Option Decimal96 :=
  if y.coefficient = 0 then none
  else ratio? (x.coefficient * y.unit) (x.unit * y.coefficient)

theorem roundHalfUp_le (a : Nat) {b : Nat} (hb : 0 < b) : roundHalfUp a b ≤ a := by
  apply Nat.le_of_lt_add_one
  rw [roundHalfUp, Nat.div_lt_iff_lt_mul (by omega)]
  have hmul : (a + 1) * (2 * b) = 2 * (a * b) + 2 * b := by
    rw [Nat.add_mul, Nat.one_mul, Nat.mul_left_comm]
  have := Nat.le_mul_of_pos_right a hb
  omega

def round (x : Decimal96) : Decimal96 where
  coefficient := roundHalfUp x.coefficient x.unit
  scale := 0
  coefficient_le := Nat.le_trans (roundHalfUp_le _ (Nat.pow_pos (by decide))) x.coefficient_le
  scale_le := Nat.zero_le 28

/-- The whole part, if it fits in 64 bits. -/
def toUInt64? (x : Decimal96) : Option UInt64 :=
  if x.coefficient / x.unit < UInt64.size then some (UInt64.ofNat (x.coefficient / x.unit)) else none

/-! ### Powers of one half -/

/-- Binary digits carried while a power is computed. -/
def precision : Nat := 160

def one : Nat := Nat.pow 2 precision

/-- Binary digits of the fraction that are used. -/
def fractionDigits : Nat := 128

/-- `product` times one factor for each of the next `digits` binary digits of `rest / whole`.
The first factor is the root of `factor`. -/
def powFraction (whole : Nat) : Nat → Nat → Nat → Nat → Nat
  | 0, _, _, product => product
  | digits + 1, rest, factor, product =>
    let factor := floorSqrt (factor * one)
    if whole ≤ 2 * rest then
      powFraction whole digits (2 * rest - whole) factor (product * factor / one)
    else powFraction whole digits (2 * rest) factor product

/-- The exponent up to which the inverse of a power, with twenty-eight decimals, fits in 189 bits:
`log (2 ^ 189 / 10 ^ 28)` over the logarithm of two, which is taken as
`0.6931471805599453094172321213`, down to the twenty-sixth decimal. -/
def largestExponent : Nat := 9598601334315385425963105599

/-- Whether a power is computed. A whole exponent has one below `2 ^ 32`. -/
def hasPower (x : Decimal96) : Bool :=
  if x.coefficient % x.unit = 0 then x.coefficient / x.unit < UInt32.size
  else x.coefficient * Nat.pow 10 26 ≤ largestExponent * x.unit

/-- One half to the power of `x`, to the nearest twenty-eighth decimal. Beyond 96 nothing is left. -/
def halfPow (x : Decimal96) : Option Decimal96 :=
  if x.hasPower then
    let whole := x.coefficient / x.unit
    if 96 < whole then ratio? 0 1
    else
      let fraction := powFraction x.unit fractionDigits (x.coefficient % x.unit) (one / 2) one
      ratio? (roundHalfUp (fraction * Nat.pow 10 28) (one * Nat.pow 2 whole)) (Nat.pow 10 28)
  else none

def half : Decimal96 := ⟨5, 1, by decide, by decide⟩

/-- No power of another base is needed. -/
def pow (x y : Decimal96) : Option Decimal96 :=
  if 2 * x.coefficient = x.unit then y.halfPow else none

def arithmetic : DecimalArithmetic where
  Number := Decimal96
  zero := ofUInt64 0
  half := half
  ofUInt64 := ofUInt64
  add := add
  mul := mul
  div := div
  pow := pow
  isZero x := x.coefficient == 0
  round := round
  toUInt64? := toUInt64?

end Decimal96

end PerpExchange
