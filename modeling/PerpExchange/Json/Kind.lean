import PerpExchange.Json.Documents

/-!
The kinds of documents that the exchange reads and writes.
-/

namespace PerpExchange

/-- A kind of document, named for the type of what it holds. -/
inductive DocumentKind where
  | fixed (p : Precision)
  | tokenAmount
  | marketIndex
  | accountId
  | timestamp
  | direction
  | swapDirection
  | marginKind
  | balanceSide
  | amm
  | marketStatus
  | poolBalance
  | perpMarket
  | spotMarket
  | oracleReading
  | divergenceRails
  | validityRails
  | oracleRails
  | oracleValidity
  | perpPosition
  | positionDelta
  | positionChange
  | spotPosition
  | accountStatus
  | account
  | orderPrice
  | order
  | noFill
  | noLiquidation
  | marginTotal
  | feeSample
  | feeStrategy
  | liquidationCaps
  | feePolicy
  | config
  | environment
deriving DecidableEq, Repr

namespace DocumentKind

def Value : DocumentKind → Type
  | .fixed p => Fixed p
  | .tokenAmount => TokenAmount
  | .marketIndex => MarketIndex
  | .accountId => AccountId
  | .timestamp => Timestamp
  | .direction => Direction
  | .swapDirection => SwapDirection
  | .marginKind => MarginKind
  | .balanceSide => BalanceSide
  | .amm => Amm
  | .marketStatus => MarketStatus
  | .poolBalance => PoolBalance
  | .perpMarket => PerpMarket
  | .spotMarket => SpotMarket
  | .oracleReading => OracleReading
  | .divergenceRails => DivergenceRails
  | .validityRails => ValidityRails
  | .oracleRails => OracleRails
  | .oracleValidity => OracleValidity
  | .perpPosition => PerpPosition
  | .positionDelta => PositionDelta
  | .positionChange => PositionChange
  | .spotPosition => SpotPosition
  | .accountStatus => AccountStatus
  | .account => Account
  | .orderPrice => OrderPrice
  | .order => Order
  | .noFill => NoFill
  | .noLiquidation => NoLiquidation
  | .marginTotal => MarginTotal
  | .feeSample => FeeSample
  | .feeStrategy => FeeStrategy
  | .liquidationCaps => LiquidationCaps
  | .feePolicy => FeePolicy
  | .config => Config
  | .environment => Environment

instance declared (k : DocumentKind) : Declared k.Value := by
  cases k <;> unfold Value <;> infer_instance

variable (lib : JsonLibrary)

def write (k : DocumentKind) (v : k.Value) : String := lib.print (encode lib v)

def read? (k : DocumentKind) (text : String) : Option k.Value := (lib.parse? text).bind (decode lib)

/-- A document in the form in which it is written. -/
def normalize? (k : DocumentKind) (text : String) : Option String :=
  (k.read? lib text).map (k.write lib)

end DocumentKind

end PerpExchange
