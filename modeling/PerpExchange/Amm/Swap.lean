import PerpExchange.Amm.State

/-!
Swaps along the curve of a pool.

A swap fixes one reserve exactly and derives the other from the invariant, rounded so that the
pool does not lose by it.
-/

namespace PerpExchange

structure Swap where
  reserves : Reserves
  base : BaseAmount
  quote : QuoteAmount
deriving DecidableEq

namespace Amm

/-- The base reserve once `amount` of base went in or came out. A pool never gives out all of its
base. -/
def baseAfter (a : Amm) (amount : BaseAmount) (direction : SwapDirection) :
    Except Failure BaseAmount := do
  match direction with
  | .add => a.baseReserve.add amount
  | .remove =>
    Refusal.guard (amount < a.baseReserve) (.reserveExceeded amount.raw a.baseReserve.raw)
    a.baseReserve.sub amount

/-- The quote for a change of the quote reserve. Whoever takes base out pays one unit more than the
truncated value. -/
def quoteFor (a : Amm) (newQuote : QuoteReserve) (direction : SwapDirection) :
    Except Violation QuoteAmount := do
  let delta ← (← newQuote.sub a.quoteReserve).abs
  let quote ← reserveToQuote delta a.peg
  match direction with
  | .add => pure quote
  | .remove => quote.add Fixed.least

def swapBase (a : Amm) (amount : BaseAmount) (direction : SwapDirection) :
    Except Failure Swap := do
  Refusal.guard (0 < amount.raw) (.amountNotPositive amount.raw)
  let k ← a.invariant
  let newBase ← a.baseAfter amount direction
  let newQuote ← k.divTo newBase
  Violation.guard (0 < newQuote.raw) (.reserveNotPositive .quote)
  let quote ← a.quoteFor newQuote direction
  pure ⟨⟨newBase, newQuote⟩, amount, quote⟩

def quoteAfter (a : Amm) (delta : QuoteReserve) (direction : SwapDirection) :
    Except Failure QuoteReserve := do
  match direction with
  | .add => a.quoteReserve.add delta
  | .remove =>
    Refusal.guard (delta < a.quoteReserve) (.reserveExceeded delta.raw a.quoteReserve.raw)
    a.quoteReserve.sub delta

/-- The base reserve on the curve at a quote reserve. It is rounded up when base is handed out and
down when base is taken in. -/
def baseFor (k : Product .base .quoteReserve) (newQuote : QuoteReserve)
    (direction : SwapDirection) : Except Violation BaseAmount :=
  match direction with
  | .add => k.divToCeil newQuote
  | .remove => k.divTo newQuote

/-- Trades `amount` of quote against the pool; adding quote hands out base. -/
def swapQuote (a : Amm) (amount : QuoteAmount) (direction : SwapDirection) :
    Except Failure Swap := do
  Refusal.guard (0 < amount.raw) (.amountNotPositive amount.raw)
  let k ← a.invariant
  let delta ← amount.divTo a.peg
  let newQuote ← a.quoteAfter delta direction
  let newBase ← baseFor k newQuote direction
  Violation.guard (0 < newBase.raw) (.reserveNotPositive .base)
  let base ← (← newBase.sub a.baseReserve).abs
  pure ⟨⟨newBase, newQuote⟩, base, amount⟩

/-- The quote reserve once every user's position is closed into the pool. -/
def terminalQuote (a : Amm) : Except Violation QuoteReserve := do
  let k ← a.invariant
  let base ← a.baseReserve.add a.netBase
  Violation.guard (0 < base.raw) (.reserveNotPositive .base)
  k.divTo base

end Amm

end PerpExchange
