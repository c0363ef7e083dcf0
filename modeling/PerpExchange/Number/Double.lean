/-!
Whole numbers as double floats hold them.

A double keeps fifty-three significant bits. A number with more of them goes to the nearest one that
has a place, and of two equally near to the one that ends in a zero bit. From `Double.bound` on,
nearest means infinity.
-/

namespace PerpExchange.Double

/-- `n / unit` to the nearest whole number, a half to the even one. -/
def nearestQuotient (n unit : Nat) : Nat :=
  let q := n / unit
  let twice := 2 * (n % unit)
  if unit < twice ∨ twice = unit ∧ q % 2 = 1 then q + 1 else q

def lastPlace (n : Nat) : Nat := Nat.pow 2 (n.log2 - 52)

/-- The number of fifty-three significant bits that is nearest to `n`. -/
def nearest (n : Nat) : Nat := nearestQuotient n (lastPlace n) * lastPlace n

/-- The least number that rounds to infinity: `2 ^ 1024` less half of the last place below it. -/
def bound : Nat := Nat.pow 2 1024 - Nat.pow 2 970

/-- Whether the product of `n` and `10 ^ power` rounds to infinity, where both factors are rounded
before they are multiplied. Powers above 308 have no rounded value. -/
def isInfinite (n power : Nat) : Bool :=
  n ≠ 0 && (308 < power || bound ≤ nearest n * nearest (Nat.pow 10 power))

end PerpExchange.Double
