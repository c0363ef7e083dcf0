/-!
Arithmetic on decimal numbers, as a library supplies it.

What the library computes is not defined here: an exchange runs on whatever arithmetic it is given.
An operation without a result stops what it is used in.
-/

namespace PerpExchange

/-- The operations that are taken from a library of decimal numbers. -/
structure DecimalArithmetic where
  Number : Type
  zero : Number
  half : Number
  ofUInt64 : UInt64 → Number
  add : Number → Number → Option Number
  mul : Number → Number → Option Number
  div : Number → Number → Option Number
  /-- The first number to the power of the second. -/
  pow : Number → Number → Option Number
  isZero : Number → Bool
  /-- The nearest whole number, a half going away from zero. -/
  round : Number → Number
  toUInt64? : Number → Option UInt64

end PerpExchange
