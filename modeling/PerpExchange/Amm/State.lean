import PerpExchange.Number.Fixed
import PerpExchange.Side

/-!
The virtual constant-product pool of a perp market.

The pool holds a base and a quote reserve whose product is its invariant. Its price is the quotient
of the reserves times the peg. Operations take a pool and return a new one; the caller decides
which to keep.
-/

namespace PerpExchange

structure Reserves where
  base : BaseAmount
  quote : QuoteReserve
deriving DecidableEq

/-- A pool, what users hold against it, and how it is allowed to move. -/
structure Amm where
  baseReserve : BaseAmount
  quoteReserve : QuoteReserve
  peg : Peg
  /-- The sum of all users' base: positive when users are net long. -/
  netBase : BaseAmount
  /-- The quote legs of users who are long or flat. -/
  quoteLong : QuoteAmount
  /-- The quote legs of users who are short. -/
  quoteShort : QuoteAmount
  socialLoss : QuoteAmount
  baseSpread : Spread
  longSpread : Spread
  shortSpread : Spread
  maxSpread : Spread
  minBaseReserve : BaseAmount
  maxBaseReserve : BaseAmount
  stepSize : BaseAmount
  /-- Percent of the way to the optimal peg that one repeg goes; zero disables repegs. -/
  repegIntensity : UInt8
  /-- Percent of an auction fill that the pool is willing to join. -/
  jitIntensity : UInt8
  /-- Fees earned less fees paid out, which pay for repegs. -/
  budget : QuoteAmount
  lastOraclePrice : Price
  lastOracleAverage : Price
deriving DecidableEq

namespace Amm

/-- The intensity of a repeg that goes all the way to the optimal peg. -/
def maxRepegIntensity : Nat := 100

def maxJitIntensity : Nat := 100

def empty : Amm where
  baseReserve := 0
  quoteReserve := 0
  peg := Fixed.one
  netBase := 0
  quoteLong := 0
  quoteShort := 0
  socialLoss := 0
  baseSpread := 0
  longSpread := 0
  shortSpread := 0
  maxSpread := 0
  minBaseReserve := 0
  maxBaseReserve := 0
  stepSize := Fixed.least
  repegIntensity := 0
  jitIntensity := 0
  budget := 0
  lastOraclePrice := 0
  lastOracleAverage := 0

/-- A pool with equal reserves, whose base reserve may halve or double. -/
def balanced (reserve : Int128) (peg : Peg) : Amm :=
  { empty with
    baseReserve := ⟨reserve⟩
    quoteReserve := ⟨reserve⟩
    peg
    minBaseReserve := ⟨Int128.saturate (reserve.raw.tdiv 2)⟩
    maxBaseReserve := ⟨Int128.saturate (reserve.raw * 2)⟩ }

def reserves (a : Amm) : Reserves := ⟨a.baseReserve, a.quoteReserve⟩

def withReserves (a : Amm) (r : Reserves) : Amm :=
  { a with baseReserve := r.base, quoteReserve := r.quote }

@[simp] theorem baseReserve_withReserves (a : Amm) (r : Reserves) :
    (a.withReserves r).baseReserve = r.base := rfl

@[simp] theorem quoteReserve_withReserves (a : Amm) (r : Reserves) :
    (a.withReserves r).quoteReserve = r.quote := rfl

@[simp] theorem peg_withReserves (a : Amm) (r : Reserves) : (a.withReserves r).peg = a.peg := rfl

end Amm

namespace Reserves

def check (r : Reserves) : Except Violation Unit := do
  Violation.guard (0 < r.base.raw) (.reserveNotPositive .base)
  Violation.guard (0 < r.quote.raw) (.reserveNotPositive .quote)

def price (r : Reserves) (peg : Peg) : Except Violation Price := do
  r.check
  r.quote.mulDiv peg r.base

end Reserves

namespace Amm

def invariant (a : Amm) : Except Violation (Product .base .quoteReserve) := do
  a.reserves.check
  a.baseReserve.mul a.quoteReserve

def price (a : Amm) : Except Violation Price := a.reserves.price a.peg

end Amm

/-- A quote amount from units of a quote reserve, toward zero. -/
def reserveToQuote (reserve : QuoteReserve) (peg : Peg) : Except Violation QuoteAmount := do
  (← reserve.mul peg).rescale

end PerpExchange
