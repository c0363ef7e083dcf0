import PerpExchange.Amm.Spreads
import PerpExchange.Liquidation.Settlement
import PerpExchange.Liquidation.Takeover
import PerpExchange.Market.Prices
import PerpExchange.Trade.Fill

/-!
What operations report to the operator, as values.

The events of an operation are a function of what it was given. An event that comes before a failure
is reported although the operation fails.
-/

namespace PerpExchange

inductive ReportLevel where
  | debug
  | info
  | warn
  | error
deriving DecidableEq, Repr

def ReportLevel.text : ReportLevel → String
  | .debug => "DEBUG"
  | .info => "INFO"
  | .warn => "WARN"
  | .error => "ERROR"

inductive LiquidationMethod where
  | takeover
  | settlement
deriving DecidableEq, Repr

def LiquidationMethod.name : LiquidationMethod → String
  | .takeover => "liquidate_perp"
  | .settlement => "liquidate_perp_pnl_for_deposit"

inductive Event where
  | spreadsClamped (limit : Spread) (before after : Spreads)
  | repegClamped (budget : QuoteAmount) (before after : Peg)
  | filled (direction : Direction) (market : MarketIndex) (fill : Fill)
  | takenOver (market : MarketIndex) (takeover : Takeover)
  | liquidated (method : LiquidationMethod) (user : AccountId) (record : LiquidationRecord)
  | notLiquidated (method : LiquidationMethod) (user : AccountId) (reason : NoLiquidation)
  | liquidationFailed (method : LiquidationMethod) (user : AccountId) (failure : Failure)

namespace Event

def level : Event → ReportLevel
  | .liquidated .. => .info
  | .liquidationFailed _ _ failure => if failure.isFatal then .error else .warn
  | _ => .debug

private def subject (method : LiquidationMethod) (user : AccountId) : String :=
  method.name ++ ": user " ++ user.text

def text : Event → String
  | .spreadsClamped limit before after =>
    "spread clamped to max " ++ limit.display ++ ": long " ++ before.long.display ++ " -> " ++
      after.long.display ++ ", short " ++ before.short.display ++ " -> " ++ after.short.display
  | .repegClamped budget before after =>
    "repeg clamped by budget " ++ budget.display ++ ": peg delta " ++ before.display ++ " -> " ++
      after.display
  | .filled direction market fill =>
    "fill " ++ direction.name ++ " " ++ fill.size.display ++ " base of market " ++ market.text ++
      " at " ++ fill.averagePrice.display ++ " (surplus " ++ fill.surplus.display ++ ")"
  | .takenOver market takeover =>
    LiquidationMethod.takeover.name ++ ": " ++ takeover.size.display ++ " base of market " ++
      market.text ++ " at " ++ takeover.price.display ++ " (oracle " ++
      takeover.oraclePrice.display ++ ")"
  | .liquidated method user record =>
    subject method user ++ " liquidation " ++ toString record.id.toNat ++ " by " ++
      record.liquidator.text ++ ", requirement " ++ record.requirement.display ++ " collateral " ++
      record.collateral.display
  | .notLiquidated method user reason =>
    subject method user ++ " not liquidated: " ++ reason.name
  | .liquidationFailed method user failure => subject method user ++ ": " ++ failure.message

def line (e : Event) : String := e.level.text ++ " " ++ e.text

end Event

namespace Amm

/-- Spreads that were scaled down are reported with what they were. -/
def spreadEvents (a : Amm) (oracle : Price) : List Event :=
  match a.widenedSpreads oracle with
  | .error _ => []
  | .ok before =>
    if before.isScaled a.maxSpread then
      match before.clamp a.maxSpread with
      | .ok after => [.spreadsClamped a.maxSpread before after]
      | .error _ => []
    else []

/-- The move a repeg wants and the shorter move it can pay, if it has to shorten it. -/
def shortenedMove (a : Amm) (oracle : OracleReading) : Except Violation (Option (Peg × Peg)) := do
  let move ← a.desiredMove oracle.price
  let cost ← a.repegCost (← a.peg.add move)
  if a.spendable < cost then
    let affordable ← a.affordableMove move
    pure (some (move, affordable))
  else pure none

def repegEvents (a : Amm) (oracle : OracleReading) : List Event :=
  if a.repegs oracle then
    match a.shortenedMove oracle with
    | .ok (some (before, after)) => [.repegClamped a.spendable before after]
    | _ => []
  else []

end Amm

namespace PerpMarket

def fillEvents (m : PerpMarket) (order : Order) (oracle : OracleReading) : List Event :=
  if 0 < order.size.raw ∧ m.status = .active then
    m.amm.repegEvents oracle ++
      match m.fill order oracle with
      | .ok (.filled fill) => [.filled order.direction m.index fill]
      | _ => []
  else []

/-- The bid and the ask each repeg the pool; the ask only once there is a bid. -/
def bidAskEvents (m : PerpMarket) (oracle : OracleReading) : List Event :=
  m.amm.repegEvents oracle ++
    if (m.bidPrice oracle).isOk then m.amm.repegEvents oracle else []

def priceEvents (m : PerpMarket) (oracle : OracleReading) : List Event :=
  m.amm.repegEvents oracle ++
    if (m.markPrice oracle).isOk then m.bidAskEvents oracle else []

end PerpMarket

namespace Account

def outcomeEvent (a : Account) (method : LiquidationMethod) :
    Except Failure LiquidationOutcome → Event
  | .ok (.liquidated _ record) => .liquidated method a.id record
  | .ok (.none reason) => .notLiquidated method a.id reason
  | .error failure => .liquidationFailed method a.id failure

/-- A takeover reports its size and price before it is applied. -/
def takeoverEvents (a : Account) (liquidator : Liquidator) (market : MarketIndex)
    (cap : BaseAmount) (s : Snapshot) : List Event :=
  (match Takeover.plan a market cap s with
    | .ok (.act takeover) => [.takenOver market takeover]
    | _ => []) ++
    [a.outcomeEvent .takeover (a.liquidatePerp liquidator market cap s)]

def settlementEvents (a : Account) (liquidator : Liquidator) (market asset : MarketIndex)
    (cap : QuoteAmount) (s : Snapshot) : List Event :=
  [a.outcomeEvent .settlement (a.liquidatePnl liquidator market asset cap s)]

end Account

end PerpExchange
