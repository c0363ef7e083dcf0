import PerpExchange.Number.Rounding
import PerpExchange.Number.SquareRoot
import PerpExchange.Number.Precision
import PerpExchange.Number.DecimalText

/-!
Fixed-point numbers whose precision is part of the type.

A price cannot be added to a quote amount. The product of two numbers is a `Product`, which keeps
both precisions until it is brought back to one by `rescale` or by a division. Each operation
computes its exact result and checks it once; the `_eq_ok` lemmas state that result.
-/

namespace PerpExchange

/-- A number stored as `raw` with the decimals of `p`. -/
structure Fixed (p : Precision) extends Int128
deriving DecidableEq

structure Product (p q : Precision) extends Int128
deriving DecidableEq

abbrev Price := Fixed .price
abbrev QuoteAmount := Fixed .quote
abbrev BaseAmount := Fixed .base
abbrev QuoteReserve := Fixed .quoteReserve
abbrev Peg := Fixed .peg
abbrev MarginRatio := Fixed .margin
abbrev Weight := Fixed .weight
abbrev ImfFactor := Fixed .imf
abbrev Spread := Fixed .spread
abbrev LiquidationFee := Fixed .liquidationFee
abbrev Balance := Fixed .balance
abbrev InterestIndex := Fixed .interest
abbrev Percentage := Fixed .percentage

/-- A checked 128-bit result, taken at the precision that the context asks for. -/
def Fixed.ofChecked {p : Precision} (x : Except Violation Int128) : Except Violation (Fixed p) :=
  match x with
  | .ok n => .ok ⟨n⟩
  | .error e => .error e

@[simp] theorem Fixed.ofChecked_eq_ok {p : Precision} {x : Except Violation Int128} {y : Fixed p} :
    Fixed.ofChecked x = .ok y ↔ x = .ok y.toInt128 := by
  cases x with
  | error e => simp [Fixed.ofChecked]
  | ok n =>
    constructor
    · intro h; cases h; rfl
    · intro h; cases h; rfl

def Product.ofChecked {p q : Precision} (x : Except Violation Int128) :
    Except Violation (Product p q) :=
  match x with
  | .ok n => .ok ⟨n⟩
  | .error e => .error e

@[simp] theorem Product.ofChecked_eq_ok {p q : Precision} {x : Except Violation Int128}
    {y : Product p q} : Product.ofChecked x = .ok y ↔ x = .ok y.toInt128 := by
  cases x with
  | error e => simp [Product.ofChecked]
  | ok n =>
    constructor
    · intro h; cases h; rfl
    · intro h; cases h; rfl

namespace Fixed

variable {p q r : Precision}

def ofRaw (n : Int) (h : Fits n := by decide) : Fixed p := ⟨⟨n, h⟩⟩

@[simp] theorem raw_ofRaw (n : Int) (h : Fits n) : (ofRaw n h : Fixed p).raw = n := rfl

instance : Zero (Fixed p) := ⟨⟨0⟩⟩

instance : Inhabited (Fixed p) := ⟨0⟩

@[simp] theorem raw_zero : (0 : Fixed p).raw = 0 := rfl

@[ext] theorem ext_raw {x y : Fixed p} (h : x.raw = y.raw) : x = y := by
  cases x; cases y; congr; exact Int128.ext_raw h

def least : Fixed p := ofRaw 1

@[simp] theorem raw_least : (least : Fixed p).raw = 1 := rfl

def one : Fixed p := ofRaw p.scale (by cases p <;> decide)

@[simp] theorem raw_one : (one : Fixed p).raw = p.scale := rfl

/-- The exact result `n` of the operation named `site`. -/
def check (site : String) (n : Int) : Except Violation (Fixed p) := ofChecked (Int128.check site n)

@[simp] theorem check_eq_ok {site : String} {n : Int} {x : Fixed p} :
    check site n = .ok x ↔ x.raw = n := by
  simp [check]

/-! ### Order -/

instance : LE (Fixed p) := ⟨fun x y => x.raw ≤ y.raw⟩

instance : LT (Fixed p) := ⟨fun x y => x.raw < y.raw⟩

instance : DecidableLE (Fixed p) := fun x y => inferInstanceAs (Decidable (x.raw ≤ y.raw))

instance : DecidableLT (Fixed p) := fun x y => inferInstanceAs (Decidable (x.raw < y.raw))

theorem le_def {x y : Fixed p} : x ≤ y ↔ x.raw ≤ y.raw := Iff.rfl

theorem lt_def {x y : Fixed p} : x < y ↔ x.raw < y.raw := Iff.rfl

instance : Max (Fixed p) := ⟨fun x y => if x ≤ y then y else x⟩

instance : Min (Fixed p) := ⟨fun x y => if x ≤ y then x else y⟩

@[simp] theorem raw_max (x y : Fixed p) : (max x y).raw = max x.raw y.raw := by
  show (if x ≤ y then y else x).raw = _
  simp only [le_def]
  split <;> omega

@[simp] theorem raw_min (x y : Fixed p) : (min x y).raw = min x.raw y.raw := by
  show (if x ≤ y then x else y).raw = _
  simp only [le_def]
  split <;> omega

/-! ### Sums -/

def abs (x : Fixed p) : Except Violation (Fixed p) := check "abs" x.raw.natAbs

def add (x y : Fixed p) : Except Violation (Fixed p) := check "add" (x.raw + y.raw)

def sub (x y : Fixed p) : Except Violation (Fixed p) := check "sub" (x.raw - y.raw)

def neg (x : Fixed p) : Except Violation (Fixed p) := check "neg" (-x.raw)

@[simp] theorem abs_eq_ok {x y : Fixed p} : x.abs = .ok y ↔ y.raw = x.raw.natAbs := check_eq_ok

@[simp] theorem add_eq_ok {x y z : Fixed p} : x.add y = .ok z ↔ z.raw = x.raw + y.raw :=
  check_eq_ok

@[simp] theorem sub_eq_ok {x y z : Fixed p} : x.sub y = .ok z ↔ z.raw = x.raw - y.raw :=
  check_eq_ok

@[simp] theorem neg_eq_ok {x y : Fixed p} : x.neg = .ok y ↔ y.raw = -x.raw := check_eq_ok

/-! ### Products and quotients -/

def ofUnits (units : Int) : Except Violation (Fixed p) := check "from_units" (units * p.scale)

def mulInt (x : Fixed p) (n : Int) : Except Violation (Fixed p) := check "mul_int" (x.raw * n)

/-- Divided by a plain integer, toward zero. -/
def divInt (x : Fixed p) (n : Int) : Except Violation (Fixed p) :=
  ofChecked (Int128.divide "div_int" .truncate x.raw n)

def divIntCeil (x : Fixed p) (n : Int) : Except Violation (Fixed p) :=
  ofChecked (Int128.divide "div_int_ceil" .ceil x.raw n)

def mul (x : Fixed p) (y : Fixed q) : Except Violation (Product p q) :=
  Product.ofChecked (Int128.check "mul" (x.raw * y.raw))

@[simp] theorem mulInt_eq_ok {x y : Fixed p} {n : Int} :
    x.mulInt n = .ok y ↔ y.raw = x.raw * n := check_eq_ok

@[simp] theorem mul_eq_ok {x : Fixed p} {y : Fixed q} {z : Product p q} :
    x.mul y = .ok z ↔ z.raw = x.raw * y.raw := by
  rw [mul, Product.ofChecked_eq_ok, Int128.check_eq_ok]

/-- The quotient at precision `r`, toward zero. -/
def divTo (x : Fixed p) (y : Fixed q) : Except Violation (Fixed r) :=
  ofChecked (Int128.divideShifted "div_to" .truncate x.raw y.raw
    (r.decimals + q.decimals - p.decimals))

def divToCeil (x : Fixed p) (y : Fixed q) : Except Violation (Fixed r) :=
  ofChecked (Int128.divideShifted "div_to_ceil" .ceil x.raw y.raw
    (r.decimals + q.decimals - p.decimals))

/-- The same quantity at precision `r`, toward zero. -/
def rescale (x : Fixed p) : Except Violation (Fixed r) :=
  ofChecked (Int128.moveDecimals "rescale" .truncate x.raw p.decimals r.decimals)

def rescaleCeil (x : Fixed p) : Except Violation (Fixed r) :=
  ofChecked (Int128.moveDecimals "rescale_ceil" .ceil x.raw p.decimals r.decimals)

/-! ### Text -/

def display (x : Fixed p) : String := DecimalText.saturated x.raw p.decimals

def tagged (x : Fixed p) : String := p.label ++ "(" ++ toString x.raw ++ ")"

end Fixed

namespace Product

variable {p q d r : Precision}

def decimals (_ : Product p q) : Nat := p.decimals + q.decimals

def rescale (x : Product p q) : Except Violation (Fixed r) :=
  Fixed.ofChecked (Int128.moveDecimals "rescale" .truncate x.raw (p.decimals + q.decimals) r.decimals)

def rescaleCeil (x : Product p q) : Except Violation (Fixed r) :=
  Fixed.ofChecked (Int128.moveDecimals "rescale_ceil" .ceil x.raw (p.decimals + q.decimals) r.decimals)

def divTo (x : Product p q) (y : Fixed d) : Except Violation (Fixed r) :=
  Fixed.ofChecked (Int128.divideShifted "div_to" .truncate x.raw y.raw
    (r.decimals + d.decimals - (p.decimals + q.decimals)))

def divToCeil (x : Product p q) (y : Fixed d) : Except Violation (Fixed r) :=
  Fixed.ofChecked (Int128.divideShifted "div_to_ceil" .ceil x.raw y.raw
    (r.decimals + d.decimals - (p.decimals + q.decimals)))

/-- The floor of the square root of a product of two numbers with equally many decimals. -/
def sqrt (x : Product p q) : Except Violation (Fixed p) :=
  if p.decimals ≠ q.decimals then .error (.precisionMismatch p.decimals q.decimals)
  else if x.raw < 0 then .error (.balanceNegative "sqrt")
  else Fixed.check "sqrt" (floorSqrt x.raw.toNat)

def tagged (x : Product p q) : String := p.label ++ "x" ++ q.label ++ "(" ++ toString x.raw ++ ")"

end Product

namespace Fixed

variable {p q d r : Precision}

/-- `x * y / z` at precision `r`, toward zero. -/
def mulDiv (x : Fixed p) (y : Fixed q) (z : Fixed d) : Except Violation (Fixed r) := do
  (← x.mul y).divTo z

def mulDivCeil (x : Fixed p) (y : Fixed q) (z : Fixed d) : Except Violation (Fixed r) := do
  (← x.mul y).divToCeil z

end Fixed

end PerpExchange
