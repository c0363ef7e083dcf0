import PerpExchange.Market.Perp
import PerpExchange.Market.Spot
import PerpExchange.Market.Table
import PerpExchange.Oracle.Reading

/-!
The markets and oracle readings that an operation looks at, all of one moment.
-/

namespace PerpExchange

structure Snapshot where
  perps : MarketTable PerpMarket
  spots : MarketTable SpotMarket
  perpOracles : MarketTable OracleReading
  spotOracles : MarketTable OracleReading

namespace Snapshot

def empty : Snapshot := ⟨.empty, .empty, .empty, .empty⟩

def withPerp (s : Snapshot) (m : PerpMarket) (oracle : OracleReading) : Snapshot :=
  { s with
    perps := s.perps.insert m.index m
    perpOracles := s.perpOracles.insert m.index oracle }

/-- The snapshot with a spot market. The quote asset needs no oracle, every other asset does. -/
def withSpot (s : Snapshot) (m : SpotMarket) (oracle : Option OracleReading) : Snapshot :=
  { s with
    spots := s.spots.insert m.index m
    spotOracles := match oracle with
      | some reading => s.spotOracles.insert m.index reading
      | none => s.spotOracles }

def perp (s : Snapshot) (i : MarketIndex) : Except Refusal PerpMarket :=
  match s.perps.get? i with
  | some m => .ok m
  | none => .error (.perpMarketMissing i)

def spot (s : Snapshot) (i : MarketIndex) : Except Refusal SpotMarket :=
  match s.spots.get? i with
  | some m => .ok m
  | none => .error (.spotMarketMissing i)

def perpOracle (s : Snapshot) (i : MarketIndex) : Except Refusal OracleReading :=
  match s.perpOracles.get? i with
  | some reading => .ok reading
  | none => .error (.oracleMissing i)

/-- The oracle reading of a perp market, with a positive price. -/
def pricedPerpOracle (s : Snapshot) (i : MarketIndex) : Except Refusal OracleReading := do
  let reading ← s.perpOracle i
  Refusal.guard (0 < reading.price.raw) (.oraclePriceNotPositive reading.price.raw)
  pure reading

/-- The price of a spot asset in quote. The quote asset is fixed at one. -/
def spotPrice (s : Snapshot) (i : MarketIndex) : Except Refusal Price :=
  if i = .quote then pure Fixed.one
  else match s.spotOracles.get? i with
    | some reading => do
      Refusal.guard (0 < reading.price.raw) (.oraclePriceNotPositive reading.price.raw)
      pure reading.price
    | none => .error (.oracleMissing i)

end Snapshot

end PerpExchange
