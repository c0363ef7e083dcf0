import PerpExchange.Amm.Quoting
import PerpExchange.Amm.Repeg
import PerpExchange.Market.Perp
import PerpExchange.Position.Perp
import PerpExchange.Trade.Order

/-!
Filling an order against the pool of a market.

The pool is repegged first. The taker is quoted from the spread reserves, the pool moves along its
real reserves, and the difference goes to the budget. A limit caps the size at what moves the
quoted price to the limit.
-/

namespace PerpExchange

structure Fill where
  /-- The market with its pool repegged, its reserves moved and the surplus booked. The books of
  positions are not touched. -/
  market : PerpMarket
  /-- The fill from the user's side. -/
  delta : PositionDelta
  size : BaseAmount
  quote : QuoteAmount
  averagePrice : Price
  /-- What the taker was quoted worse than the pool moved. -/
  surplus : QuoteAmount
deriving DecidableEq

inductive NoFill where
  | marketNotActive
  | limitPriceNotReached
  | belowOrderStepSize
deriving DecidableEq, Repr

inductive FillOutcome where
  | filled (fill : Fill)
  | none (reason : NoFill)
deriving DecidableEq

namespace Order

/-- The size that the limit leaves of the order, against the pool that quotes it; none if the limit
is not reached. -/
def sizeWithin (order : Order) (quoting : Amm) (oracle : Price) :
    Except Failure (Option BaseAmount) := do
  match ← order.price.limit? oracle with
  | none => pure (some order.size)
  | some limit =>
    Refusal.guard (0 < limit.raw) (.limitPriceNotPositive limit.raw)
    match ← quoting.sizeToPrice limit with
    | some (most, direction) =>
      pure (if direction = order.direction then some (min order.size most) else none)
    | none => pure none

/-- The fill from the user's side: a long receives base and pays quote. -/
def delta (direction : Direction) (size : BaseAmount) (quote : QuoteAmount) :
    Except Violation PositionDelta :=
  match direction with
  | .long => do
    let paid ← quote.neg
    pure ⟨size, paid⟩
  | .short => do
    let given ← size.neg
    pure ⟨given, quote⟩

/-- How much worse the taker was quoted than the pool moved, never less than nothing. -/
def surplus (direction : Direction) (quoted real : QuoteAmount) : Except Violation QuoteAmount := do
  let difference ← match direction with
    | .long => quoted.sub real
    | .short => real.sub quoted
  pure (max difference 0)

end Order

namespace PerpMarket

/-- Fills `size` in a direction: quoted on `quoting`, moved on `amm`. -/
def fillSize (m : PerpMarket) (amm quoting : Amm) (direction : Direction) (size : BaseAmount) :
    Except Failure Fill := do
  let quoted ← quoting.swapBase size direction.swap
  let real ← amm.swapBase size direction.swap
  let surplus ← Order.surplus direction quoted.quote real.quote
  let budget ← amm.budget.add surplus
  let delta ← Order.delta direction size quoted.quote
  let price ← averagePrice quoted.quote size
  pure
    { market := m.withAmm { amm.withReserves real.reserves with budget }
      delta
      size
      quote := quoted.quote
      averagePrice := price
      surplus }

def fill (m : PerpMarket) (order : Order) (oracle : OracleReading) :
    Except Failure FillOutcome := do
  Refusal.guard (0 < order.size.raw) (.amountNotPositive order.size.raw)
  if m.status ≠ .active then pure (.none .marketNotActive)
  else
    let amm ← m.amm.repeg oracle
    let reserves ← amm.spreadReserves order.direction
    let quoting := amm.withReserves reserves
    match ← order.sizeWithin quoting oracle.price with
    | none => pure (.none .limitPriceNotReached)
    | some most =>
      let size ← standardize most amm.stepSize
      if size.raw ≤ 0 then pure (.none .belowOrderStepSize)
      else
        let fill ← m.fillSize amm quoting order.direction size
        pure (.filled fill)

end PerpMarket

structure Trade where
  fill : Fill
  update : PositionUpdate
  /-- The market of the fill, with the position's change in its books. -/
  market : PerpMarket
deriving DecidableEq

/-- Books a fill on a position and the position's change in the market. -/
def Fill.book (fill : Fill) (position : PerpPosition) : Except Violation Trade := do
  let update ← position.apply fill.delta
  let amm ← fill.market.amm.rebook position update.position
  pure ⟨fill, update, fill.market.withAmm amm⟩

end PerpExchange
