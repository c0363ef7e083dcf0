import PerpExchange.Number.Fixed

/-!
Amounts of spot tokens.

The decimals of a token are known only when its market is, so they travel with the amount. Two
amounts combine only if their decimals agree.
-/

namespace PerpExchange

/-- `amount / 10 ^ decimals` tokens. -/
structure TokenAmount where
  amount : Int128
  decimals : UInt32
deriving DecidableEq

namespace TokenAmount

def zero (decimals : UInt32) : TokenAmount := ⟨0, decimals⟩

def isZero (a : TokenAmount) : Bool := a.amount.raw == 0

/-- The exact result `n` of the operation named `site`, in tokens of these decimals. -/
def check (site : String) (n : Int) (decimals : UInt32) : Except Violation TokenAmount := do
  let amount ← Int128.check site n
  pure ⟨amount, decimals⟩

def sameDecimals (a b : TokenAmount) : Except Violation Unit :=
  Violation.guard (a.decimals = b.decimals)
    (.precisionMismatch a.decimals.toNat b.decimals.toNat)

def add (a b : TokenAmount) : Except Violation TokenAmount := do
  a.sameDecimals b
  check "token add" (a.amount.raw + b.amount.raw) a.decimals

def sub (a b : TokenAmount) : Except Violation TokenAmount := do
  a.sameDecimals b
  check "token sub" (a.amount.raw - b.amount.raw) a.decimals

def min (a b : TokenAmount) : Except Violation TokenAmount := do
  a.sameDecimals b
  pure (if b.amount.raw < a.amount.raw then b else a)

/-- The same integer at precision `p`, whose decimals must be the token's. -/
def toFixed {p : Precision} (a : TokenAmount) : Except Violation (Fixed p) := do
  Violation.guard (a.decimals.toNat = p.decimals) (.precisionMismatch p.decimals a.decimals.toNat)
  pure ⟨a.amount⟩

/-- The same quantity at precision `p`, toward zero. -/
def rescale {p : Precision} (a : TokenAmount) : Except Violation (Fixed p) :=
  Fixed.ofChecked
    (Int128.moveDecimals "token rescale" .truncate a.amount.raw a.decimals.toNat p.decimals)

/-- The quote value at a price: the product loses the token's decimals. -/
def quoteValue (a : TokenAmount) (price : Price) (rounding : Rounding) :
    Except Violation QuoteAmount := do
  let product ← Int128.check "token value" (a.amount.raw * price.raw)
  Fixed.ofChecked (Int128.divideShifted "token value" rounding product.raw 1 (-a.decimals.toNat))

def ofQuoteValue (value : QuoteAmount) (price : Price) (decimals : UInt32) (rounding : Rounding) :
    Except Violation TokenAmount := do
  let amount ←
    Int128.divideShifted "token from value" rounding value.raw price.raw decimals.toNat
  pure ⟨amount, decimals⟩

/-- The decimal text, or integer and exponent of an amount that has none. -/
def display (a : TokenAmount) : String :=
  (DecimalText.render? a.amount.raw a.decimals.toNat).getD
    (toString a.amount.raw ++ "e-" ++ toString a.decimals.toNat)

end TokenAmount

end PerpExchange
