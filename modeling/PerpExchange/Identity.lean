/-!
The names of markets and accounts.

A market index and an account id are types of their own, so neither can stand where the
other is expected.
-/

namespace PerpExchange

/-- Names a perp market or a spot market within its kind. -/
structure MarketIndex where
  value : UInt16
deriving DecidableEq, Repr

namespace MarketIndex

/-- The spot market of the quote asset, whose price is one. -/
def quote : MarketIndex := ⟨0⟩

/-- The bare number, for messages to users. -/
def text (i : MarketIndex) : String := toString i.value.toNat

/-- The number with its kind, for error messages. -/
def tagged (i : MarketIndex) : String := "MarketIndex(" ++ i.text ++ ")"

end MarketIndex

structure AccountId where
  value : UInt64
deriving DecidableEq, Repr

def AccountId.text (i : AccountId) : String := toString i.value.toNat

end PerpExchange
