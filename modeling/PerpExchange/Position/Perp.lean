import PerpExchange.Amm.State

/-!
Perp positions.

A position is a signed base and two quote legs: every cash flow so far, in which the pnl lives, and
the cost basis of what is still open. Its pnl is the base at the oracle price plus all cash flows.
-/

namespace PerpExchange

structure PerpPosition where
  market : MarketIndex
  base : BaseAmount
  /-- All cash flows so far. -/
  quote : QuoteAmount
  /-- The cost basis of the open base. -/
  entry : QuoteAmount
deriving DecidableEq

/-- One fill from the user's side: base in is positive, quote paid is negative. -/
structure PositionDelta where
  base : BaseAmount
  quote : QuoteAmount
deriving DecidableEq

inductive PositionChange where
  | open
  | increase
  | reduce
  | close
  | flip
deriving DecidableEq, Repr

structure PositionUpdate where
  position : PerpPosition
  change : PositionChange
  realizedPnl : QuoteAmount
deriving DecidableEq

def baseValue (base : BaseAmount) (price : Price) : Except Violation QuoteAmount := do
  (← (← base.abs).mul price).rescale

def averagePrice (quote : QuoteAmount) (base : BaseAmount) : Except Violation Price := do
  (← quote.abs).divTo (← base.abs)

namespace PerpPosition

def new (market : MarketIndex) : PerpPosition := ⟨market, 0, 0, 0⟩

def isOpen (p : PerpPosition) : Bool := p.base.raw != 0

/-- Nothing open and nothing left to settle. -/
def isAvailable (p : PerpPosition) : Bool := !p.isOpen && p.quote.raw == 0

def direction (p : PerpPosition) : Option Direction :=
  if 0 < p.base.raw then some .long else if p.base.raw < 0 then some .short else none

/-- The average price of the open base, by its cost basis. -/
def entryPrice (p : PerpPosition) : Except Violation (Option Price) :=
  if p.isOpen then do
    let price ← averagePrice p.entry p.base
    pure (some price)
  else pure none

/-- The signed value of the base at the oracle price, plus all cash flows. -/
def unrealizedPnl (p : PerpPosition) (oracle : Price) : Except Violation QuoteAmount := do
  let value ← baseValue p.base oracle
  let signed ← if p.base.raw < 0 then value.neg else pure value
  signed.add p.quote

/-- Flat positions are booked on the long side. -/
def isBookedLong (p : PerpPosition) : Bool := decide (0 ≤ p.base.raw)

/-- What a fill would do to the position. The sizes are unchecked: beside the least base, every
other is the larger one. -/
def changeBy (p : PerpPosition) (delta : PositionDelta) : PositionChange :=
  if p.base.raw = 0 then .open
  else if p.base.raw.sign = delta.base.raw.sign then .increase
  else if delta.base.wrappingAbs < p.base.wrappingAbs then .reduce
  else if delta.base.wrappingAbs = p.base.wrappingAbs then .close
  else .flip

/-- The cost basis that is left after a fill, and the pnl that it realizes. A reduction releases the
closed share of the cost basis; a flip closes with its share of the fill and opens with the
rest. -/
def settle (p : PerpPosition) (delta : PositionDelta) :
    Except Violation (QuoteAmount × QuoteAmount) := do
  match p.changeBy delta with
  | .open | .increase =>
    let entry ← p.entry.add delta.quote
    pure (entry, 0)
  | .reduce | .close =>
    let closed ← (← p.entry.mulInt delta.base.wrappingAbs).divInt p.base.wrappingAbs
    let entry ← p.entry.sub closed
    let realized ← delta.quote.add closed
    pure (entry, realized)
  | .flip =>
    let closing ← (← delta.quote.mulInt p.base.wrappingAbs).divInt delta.base.wrappingAbs
    let entry ← delta.quote.sub closing
    let realized ← closing.add p.entry
    pure (entry, realized)

/-- The position after a fill. A position without base has no cost basis. -/
def apply (p : PerpPosition) (delta : PositionDelta) : Except Violation PositionUpdate := do
  let (entry, realizedPnl) ← p.settle delta
  let base ← p.base.add delta.base
  let quote ← p.quote.add delta.quote
  pure
    { position :=
        { market := p.market, base, quote, entry := if base.raw = 0 then 0 else entry }
      change := p.changeBy delta
      realizedPnl }

end PerpPosition

namespace Amm

/-- The quote legs of the pool without a position's. -/
def withoutQuote (a : Amm) (p : PerpPosition) : Except Violation Amm :=
  if p.isBookedLong then do
    let quoteLong ← a.quoteLong.sub p.quote
    pure { a with quoteLong }
  else do
    let quoteShort ← a.quoteShort.sub p.quote
    pure { a with quoteShort }

def withQuote (a : Amm) (p : PerpPosition) : Except Violation Amm :=
  if p.isBookedLong then do
    let quoteLong ← a.quoteLong.add p.quote
    pure { a with quoteLong }
  else do
    let quoteShort ← a.quoteShort.add p.quote
    pure { a with quoteShort }

/-- The books of the pool after a position went from `before` to `after`. -/
def rebook (a : Amm) (before after : PerpPosition) : Except Violation Amm := do
  let change ← after.base.sub before.base
  let netBase ← a.netBase.add change
  let removed ← { a with netBase }.withoutQuote before
  removed.withQuote after

end Amm

end PerpExchange
