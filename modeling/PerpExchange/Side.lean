import PerpExchange.Number.Int128

/-!
The sides that trades, swaps, margins and balances come in.
-/

namespace PerpExchange

/-- A long profits when the price rises, a short when it falls. -/
inductive Direction where
  | long
  | short
deriving DecidableEq, Repr

/-- What a swap does to the pool with the asset that is swapped. -/
inductive SwapDirection where
  | add
  | remove
deriving DecidableEq, Repr

def SwapDirection.opposite : SwapDirection → SwapDirection
  | .add => .remove
  | .remove => .add

namespace Direction

def sign : Direction → Int
  | .long => 1
  | .short => -1

def opposite : Direction → Direction
  | .long => .short
  | .short => .long

/-- The direction that opens a position with this signed base. -/
def ofBase (base : Int) : Direction := if 0 ≤ base then .long else .short

/-- A long takes base out of the pool, a short puts it in. -/
def swap : Direction → SwapDirection
  | .long => .remove
  | .short => .add

def name : Direction → String
  | .long => "Long"
  | .short => "Short"

end Direction

/-- Initial margin gates new risk; below maintenance margin an account can be liquidated. -/
inductive MarginKind where
  | initial
  | maintenance
deriving DecidableEq, Repr

inductive BalanceSide where
  | deposit
  | borrow
deriving DecidableEq, Repr

def BalanceSide.opposite : BalanceSide → BalanceSide
  | .deposit => .borrow
  | .borrow => .deposit

end PerpExchange
