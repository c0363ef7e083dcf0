/-!
Decimal text of an integer that stands for a number with a fixed count of decimals.

Every decimal is written, trailing zeros too. Magnitudes above 96 bits and more than 28 decimals
have no such text; what is shown for them is up to the type that is shown.
-/

namespace PerpExchange.DecimalText

/-- The largest magnitude that is written out, 96 bits of ones. -/
def limit : Nat := 79228162514264337593543950335

/-- The digits of `n`, with zeros in front up to `width`. -/
def padded (n width : Nat) : String :=
  let digits := toString n
  String.ofList (List.replicate (width - digits.length) '0') ++ digits

def sign (raw : Int) : String := if raw < 0 then "-" else ""

/-- The text of `raw / 10 ^ decimals`, with exactly `decimals` digits after the point. -/
def render (raw : Int) (decimals : Nat) : String :=
  let unit := Nat.pow 10 decimals
  let whole := raw.natAbs / unit
  let part := raw.natAbs % unit
  sign raw ++ toString whole ++ (if decimals = 0 then "" else "." ++ padded part decimals)

/-- The text of `raw / 10 ^ decimals`, if it has one. -/
def render? (raw : Int) (decimals : Nat) : Option String :=
  if raw.natAbs ≤ limit ∧ decimals ≤ 28 then some (render raw decimals) else none

/-- The text of `raw / 10 ^ decimals`, or of the outermost number of its sign. -/
def saturated (raw : Int) (decimals : Nat) : String :=
  (render? raw decimals).getD (sign raw ++ toString limit)

end PerpExchange.DecimalText
