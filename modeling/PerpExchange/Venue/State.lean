import PerpExchange.Amm.Spreads
import PerpExchange.Journal
import PerpExchange.Market.Jit
import PerpExchange.Market.PnlPool
import PerpExchange.Venue.Command

/-!
A venue: markets, oracles, accounts and the records of liquidations, and how commands change them.

A command that is rejected leaves the venue as it was, except that asking for an order opens the
user's spot position even if the order is not possible.
-/

namespace PerpExchange

structure Venue where
  snapshot : Snapshot
  accounts : List Account
  records : List LiquidationRecord

namespace Venue

def account (v : Venue) (user : AccountId) : Except Rejection Account :=
  match v.accounts.find? (·.id == user) with
  | some a => .ok a
  | none => .error (.accountMissing user)

def putAccount (v : Venue) (user : AccountId) (a : Account) : Venue :=
  { v with accounts := modifyFirst (·.id == user) (fun _ => a) v.accounts }

def putPerp (v : Venue) (market : MarketIndex) (m : PerpMarket) : Venue :=
  { v with snapshot := { v.snapshot with perps := v.snapshot.perps.insert market m } }

def putSpot (v : Venue) (market : MarketIndex) (m : SpotMarket) : Venue :=
  { v with snapshot := { v.snapshot with spots := v.snapshot.spots.insert market m } }

def putPerpOracle (v : Venue) (market : MarketIndex) (reading : OracleReading) : Venue :=
  { v with
    snapshot := { v.snapshot with perpOracles := v.snapshot.perpOracles.insert market reading } }

def putSpotOracle (v : Venue) (market : MarketIndex) (reading : OracleReading) : Venue :=
  { v with
    snapshot := { v.snapshot with spotOracles := v.snapshot.spotOracles.insert market reading } }

def pricedPerp (v : Venue) (market : MarketIndex) : Except Refusal (PerpMarket × OracleReading) := do
  let m ← v.snapshot.perp market
  let oracle ← v.snapshot.perpOracle market
  pure (m, oracle)

def fill (v : Venue) (user : AccountId) (market : MarketIndex) (order : Order) :
    Except Rejection (Venue × Reply) := do
  let account ← v.account user
  let (m, oracle) ← v.pricedPerp market
  match ← m.fill order oracle with
  | .none reason => pure (v, .notFilled reason)
  | .filled fill =>
    let trade ← fill.book (account.perpOrNew market)
    let account := account.putPerp market trade.update.position
    pure ((v.putAccount user account).putPerp market trade.market, .traded trade)

def balance (v : Venue) (user : AccountId) (market : MarketIndex) (side : BalanceSide)
    (amount : Int128) (roundUp : Bool) : Except Rejection (Venue × Reply) := do
  let account ← v.account user
  let m ← v.snapshot.spot market
  let (m, position) ← (account.spotOrNew market).update ⟨amount, m.decimals⟩ side m roundUp
  let tokens ← position.signedTokens m
  pure ((v.putAccount user (account.putSpot market position)).putSpot market m,
    .balanced m position tokens)

/-- Both positions are read before either is stored, and the target is stored last. -/
def transfer (v : Venue) (source target : AccountId) (market : MarketIndex) (amount : Int128) :
    Except Rejection (Venue × Reply) := do
  let giver ← v.account source
  let taker ← v.account target
  let m ← v.snapshot.spot market
  let (m, given, taken) ← SpotPosition.transfer ⟨amount, m.decimals⟩ m (giver.spotOrNew market)
    (taker.spotOrNew market)
  let v := v.putAccount source (giver.putSpot market given)
  let taker ← v.account target
  let v := v.putAccount target (taker.putSpot market taken)
  pure (v.putSpot market m, .transferred m given taken)

def changePool (v : Venue) (market : MarketIndex)
    (change : PerpMarket → OracleReading → Except Rejection Amm) :
    Except Rejection (Venue × Reply) := do
  let (m, oracle) ← v.pricedPerp market
  let amm ← change m oracle
  pure (v.putPerp market (m.withAmm amm), .pool amm)

def prices (v : Venue) (market : MarketIndex) : Except Rejection PriceReport := do
  let (m, oracle) ← v.pricedPerp market
  let mark ← m.markPrice oracle
  let (bid, ask) ← m.bidAsk oracle
  let spread ← oracle.spreadOf mark
  let spreadFraction ← oracle.spreadFraction mark
  pure { mark, bid, ask, spread, spreadFraction }

def imbalance (v : Venue) (market : MarketIndex) : Except Rejection PoolReport := do
  let m ← v.snapshot.perp market
  let bank ← v.snapshot.spot m.pnlPool.market
  let oracle ← v.snapshot.perpOracle market
  let available ← m.availablePnl bank
  let netUserPnl ← m.netUserPnl oracle.price
  let imbalance ← m.imbalance bank oracle
  pure { available, netUserPnl, imbalance }

/-- The pool joins an auction only on an oracle reading that is valid for it. -/
def jit (v : Venue) (market : MarketIndex) (maker : BaseAmount) (auction : Price)
    (taker : Direction) : Except Rejection Reply := do
  let (m, oracle) ← v.pricedPerp market
  let validity ← ValidityRails.standard.judge oracle m.amm.lastOracleAverage
  let price := if validity.isValidForAmm then some oracle.price else none
  let amount ← m.jitAmount maker auction price taker
  pure (.jit validity amount)

def settle (v : Venue) (user : AccountId) : LiquidationOutcome → Venue
  | .liquidated account record =>
    { v.putAccount user account with records := v.records ++ [record] }
  | .none _ => v

def perform (v : Venue) : Command → Except Rejection (Venue × Reply)
  | .fill user market order => v.fill user market order
  | .balance user market side amount roundUp => v.balance user market side amount roundUp
  | .transfer source target market amount => v.transfer source target market amount
  | .order user market direction amount decrease => do
    let account ← v.account user
    let position := account.spotOrNew market
    let position ←
      if decrease then position.removeOrder direction amount
      else position.addOrder direction amount
    pure (v.putAccount user (account.putSpot market position), .orders position)
  | .readPerpOracle market reading => pure (v.putPerpOracle market reading, .done)
  | .readSpotOracle market reading => pure (v.putSpotOracle market reading, .done)
  | .revisePerp market revise => do
    let m ← v.snapshot.perp market
    pure (v.putPerp market (revise m), .done)
  | .reviseSpot market revise => do
    let m ← v.snapshot.spot market
    pure (v.putSpot market (revise m), .done)
  | .reviseAccount user revise => do
    let account ← v.account user
    pure (v.putAccount user (revise account), .done)
  | .spreads market => v.changePool market fun m oracle => m.amm.updateSpreads oracle.price
  | .repeg market => v.changePool market fun m oracle => m.amm.repeg oracle
  | .rebalance market target => v.changePool market fun m _ => m.amm.rebalance target
  | .trade market amount direction => v.changePool market fun m _ => do
    let m ← m.afterTrade amount direction
    pure m.amm
  | .prices market => do
    let report ← v.prices market
    pure (v, .prices report)
  | .imbalance market => do
    let report ← v.imbalance market
    pure (v, .imbalance report)
  | .jit market maker auction taker => do
    let reply ← v.jit market maker auction taker
    pure (v, reply)
  | .margin user kind => do
    let account ← v.account user
    let total ← account.margin v.snapshot kind
    let report ← total.report
    pure (v, .margin report)
  | .canBeLiquidated user => do
    let account ← v.account user
    let answer ← account.canBeLiquidated v.snapshot
    pure (v, .flag answer)
  | .takeover user liquidator market cap => do
    let account ← v.account user
    let outcome ← account.liquidatePerp liquidator market cap v.snapshot
    pure (v.settle user outcome, .liquidation outcome)
  | .settlement user liquidator market asset cap => do
    let account ← v.account user
    let outcome ← account.liquidatePnl liquidator market asset cap v.snapshot
    pure (v.settle user outcome, .liquidation outcome)
  | .records => pure (v, .records v.records)
  | .clearRecords => pure ({ v with records := [] }, .done)
  | .account user => do
    let account ← v.account user
    pure (v, .account account)

/-- The venue that a rejected command leaves behind. -/
def afterRejection (v : Venue) : Command → Venue
  | .order user market _ _ _ =>
    match v.account user with
    | .ok account => v.putAccount user (account.ensureSpot market)
    | .error _ => v
  | _ => v

/-- One command: the venue after it, and the answer or the reason why there is none. -/
def step (v : Venue) (c : Command) : Venue × Except Rejection Reply :=
  match v.perform c with
  | .ok (v', reply) => (v', .ok reply)
  | .error rejection => (v.afterRejection c, .error rejection)

/-- What a command reports, whether or not it is rejected. -/
def events (v : Venue) : Command → List Event
  | .fill _ market order =>
    match v.pricedPerp market with
    | .ok (m, oracle) => m.fillEvents order oracle
    | .error _ => []
  | .spreads market =>
    match v.pricedPerp market with
    | .ok (m, oracle) => m.amm.spreadEvents oracle.price
    | .error _ => []
  | .repeg market =>
    match v.pricedPerp market with
    | .ok (m, oracle) => m.amm.repegEvents oracle
    | .error _ => []
  | .prices market =>
    match v.pricedPerp market with
    | .ok (m, oracle) => m.priceEvents oracle
    | .error _ => []
  | .takeover user liquidator market cap =>
    match v.account user with
    | .ok account => account.takeoverEvents liquidator market cap v.snapshot
    | .error _ => []
  | .settlement user liquidator market asset cap =>
    match v.account user with
    | .ok account => account.settlementEvents liquidator market asset cap v.snapshot
    | .error _ => []
  | _ => []

/-- A list of commands: the venue after them, the answers, and everything reported, in order. -/
def run (v : Venue) : List Command → Venue × List (Except Rejection Reply) × List Event
  | [] => (v, [], [])
  | c :: rest =>
    let (next, answer) := v.step c
    let (last, answers, events) := run next rest
    (last, answer :: answers, v.events c ++ events)

end Venue

end PerpExchange
