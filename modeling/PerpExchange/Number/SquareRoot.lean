/-!
The floor of a square root, by Newton's iteration.

The iteration starts at a power of two above the root and stops at the first step that does not
decrease.
-/

namespace PerpExchange.SquareRoot

def step (n x : Nat) : Nat := (x + n / x) / 2

def descend (n x : Nat) : Nat :=
  if step n x < x then descend n (step n x) else x
termination_by x

/-- A power of two above the root of `n`: half as many bits as `n` has, rounded up. -/
def start (n : Nat) : Nat := Nat.pow 2 ((n.log2 + 2) / 2)

end PerpExchange.SquareRoot

namespace PerpExchange

/-- The largest number whose square is at most `n`. -/
def floorSqrt (n : Nat) : Nat :=
  if n < 2 then n else SquareRoot.descend n (SquareRoot.start n)

end PerpExchange
