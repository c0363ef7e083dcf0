/-!
The precisions of stored amounts: how many decimals each kind of number has.
-/

namespace PerpExchange

/-- What a stored integer measures, and with it how many decimals it has. -/
inductive Precision where
  /-- Oracle, mark, bid and ask prices. -/
  | price
  /-- Amounts of the quote asset: pnl, cost basis, notional. -/
  | quote
  /-- Amounts of a perp market's base asset, and the base reserve of its pool. -/
  | base
  /-- The quote reserve of a pool, which becomes a quote amount through the peg. -/
  | quoteReserve
  | peg
  /-- Margin ratios. -/
  | margin
  /-- Asset and liability weights. -/
  | weight
  | imf
  /-- Bid and ask spreads, as fractions. -/
  | spread
  | liquidationFee
  /-- Stored spot balances, before interest. -/
  | balance
  /-- Cumulative interest indices. -/
  | interest
  | percentage
deriving DecidableEq, Repr

namespace Precision

def decimals : Precision → Nat
  | .price => 6
  | .quote => 6
  | .base => 9
  | .quoteReserve => 9
  | .peg => 6
  | .margin => 4
  | .weight => 4
  | .imf => 6
  | .spread => 6
  | .liquidationFee => 6
  | .balance => 9
  | .interest => 10
  | .percentage => 6

def label : Precision → String
  | .price => "PRICE"
  | .quote => "QUOTE"
  | .base => "BASE"
  | .quoteReserve => "QUOTE_RESERVE"
  | .peg => "PEG"
  | .margin => "MARGIN"
  | .weight => "WEIGHT"
  | .imf => "IMF"
  | .spread => "SPREAD"
  | .liquidationFee => "LIQUIDATION_FEE"
  | .balance => "BALANCE"
  | .interest => "INTEREST"
  | .percentage => "PERCENTAGE"

def scale (p : Precision) : Int := Nat.pow 10 p.decimals

/-- How many units of a liquidation fee, or of a spread, one unit of a margin ratio is. -/
def feeUnitsPerRatioUnit : Int := 100

def all : List Precision :=
  [.price, .quote, .base, .quoteReserve, .peg, .margin, .weight, .imf, .spread, .liquidationFee,
    .balance, .interest, .percentage]

def ofLabel? (s : String) : Option Precision := all.find? (·.label == s)

end Precision

end PerpExchange
