import PerpExchange.Token
import PerpExchange.Side
import PerpExchange.Margin.SizeCurve

/-!
Spot markets, and what a stored balance is worth.

A balance is stored before interest. Its worth in tokens is the balance times the interest index of
its side, over ten to the power of nineteen less the token's decimals. Deposits are worth the
quotient rounded down and borrows the quotient rounded up.
-/

namespace PerpExchange

/-- The market of one token, with the totals of all balances in it. -/
structure SpotMarket where
  index : MarketIndex
  decimals : UInt32
  depositIndex : InterestIndex
  borrowIndex : InterestIndex
  depositBalance : Balance
  borrowBalance : Balance
  initialAssetWeight : Weight
  maintenanceAssetWeight : Weight
  initialLiabilityWeight : Weight
  maintenanceLiabilityWeight : Weight
  imf : ImfFactor
  liquidatorFee : LiquidationFee
deriving DecidableEq

namespace SpotMarket

/-- The market of the quote asset: six decimals and every weight at 100%. -/
def quote : SpotMarket where
  index := .quote
  decimals := 6
  depositIndex := Fixed.one
  borrowIndex := Fixed.one
  depositBalance := 0
  borrowBalance := 0
  initialAssetWeight := Fixed.one
  maintenanceAssetWeight := Fixed.one
  initialLiabilityWeight := Fixed.one
  maintenanceLiabilityWeight := Fixed.one
  imf := 0
  liquidatorFee := 0

/-- The market of a volatile asset: deposits count for 80% and 90%, borrows for 120% and 110%. -/
def volatile (index : MarketIndex) (decimals : UInt32) : SpotMarket :=
  { quote with
    index
    decimals
    initialAssetWeight := Fixed.ofRaw 8000
    maintenanceAssetWeight := Fixed.ofRaw 9000
    initialLiabilityWeight := Fixed.ofRaw 12000
    maintenanceLiabilityWeight := Fixed.ofRaw 11000
    liquidatorFee := Fixed.ofRaw 5000 }

def isQuote (m : SpotMarket) : Bool := m.index == .quote

def interest (m : SpotMarket) : BalanceSide → InterestIndex
  | .deposit => m.depositIndex
  | .borrow => m.borrowIndex

def total (m : SpotMarket) : BalanceSide → Balance
  | .deposit => m.depositBalance
  | .borrow => m.borrowBalance

def withTotal (m : SpotMarket) (side : BalanceSide) (total : Balance) : SpotMarket :=
  match side with
  | .deposit => { m with depositBalance := total }
  | .borrow => { m with borrowBalance := total }

/-- The decimals of a balance and of an index together. -/
def balanceDecimals : Nat := 19

/-- What separates balance times index from tokens. Tokens of more than nineteen decimals have
none. -/
def tokenDivisor (m : SpotMarket) : Except Violation Int := do
  Violation.guard (m.decimals.toNat ≤ balanceDecimals)
    (.precisionMismatch balanceDecimals m.decimals.toNat)
  pure (Nat.pow 10 (balanceDecimals - m.decimals.toNat))

def tokensOf (m : SpotMarket) (balance : Balance) (side : BalanceSide) :
    Except Violation TokenAmount := do
  let product ← balance.mul (m.interest side)
  let divisor ← m.tokenDivisor
  let rounding := match side with
    | .deposit => Rounding.truncate
    | .borrow => Rounding.ceil
  let amount ← Int128.divide "get_token_amount" rounding product.raw divisor
  pure ⟨amount, m.decimals⟩

def balanceOf (m : SpotMarket) (tokens : TokenAmount) (side : BalanceSide) (roundUp : Bool) :
    Except Violation Balance := do
  Violation.guard (tokens.decimals = m.decimals)
    (.precisionMismatch m.decimals.toNat tokens.decimals.toNat)
  let divisor ← m.tokenDivisor
  let scaled ← Int128.check "get_spot_balance" (tokens.amount.raw * divisor)
  Fixed.ofChecked (Int128.divide "get_spot_balance" (if roundUp then .ceil else .truncate)
    scaled.raw (m.interest side).raw)

/-- The weight of a deposit of this size: discounted by size for initial margin. -/
def assetWeight (m : SpotMarket) (size : TokenAmount) (kind : MarginKind) :
    Except Violation Weight :=
  match kind with
  | .initial => do
    let size ← size.rescale
    SizeCurve.discount size m.imf m.initialAssetWeight
  | .maintenance => pure m.maintenanceAssetWeight

def liabilityWeight (m : SpotMarket) (size : TokenAmount) (kind : MarginKind) :
    Except Violation Weight :=
  match kind with
  | .initial => do
    let size ← size.rescale
    SizeCurve.premium size m.imf m.initialLiabilityWeight
  | .maintenance => pure m.maintenanceLiabilityWeight

end SpotMarket

end PerpExchange
