import PerpExchange.Failure

/-!
Integers of 128 bits.

A stored number always carries the proof that it is in range, so a computation has to be checked
once, where its exact result is written back. `Int128.check` is that one check, and
`check_eq_ok` says that it only ever returns the exact value.
-/

namespace PerpExchange

def Fits (n : Int) : Prop :=
  -170141183460469231731687303715884105728 ≤ n ∧ n ≤ 170141183460469231731687303715884105727

instance : DecidablePred Fits := fun n => by unfold Fits; infer_instance

/-- A signed integer of 128 bits. -/
structure Int128 where
  raw : Int
  fits : Fits raw
deriving DecidableEq

namespace Int128

def ofInt (n : Int) (h : Fits n := by decide) : Int128 := ⟨n, h⟩

instance : Zero Int128 := ⟨ofInt 0⟩

instance : Inhabited Int128 := ⟨0⟩

@[simp] theorem raw_ofInt (n : Int) (h : Fits n) : (ofInt n h).raw = n := rfl

@[simp] theorem raw_zero : (0 : Int128).raw = 0 := rfl

@[ext] theorem ext_raw {x y : Int128} (h : x.raw = y.raw) : x = y := by
  cases x; cases y; cases h; rfl

/-- The exact result `n` of the operation named `site`, or an overflow of it. -/
def check (site : String) (n : Int) : Except Violation Int128 :=
  if h : Fits n then .ok ⟨n, h⟩ else .error (.overflow site)

@[simp] theorem check_eq_ok {site : String} {n : Int} {x : Int128} :
    check site n = .ok x ↔ x.raw = n := by
  unfold check
  split
  · constructor
    · intro h; cases h; rfl
    · intro h; cases x; cases h; rfl
  · next h =>
    constructor
    · intro h'; cases h'
    · intro h'; exact absurd (h' ▸ x.fits) h

/-- The nearest number in range. -/
def saturate (n : Int) : Int128 :=
  if h : Fits n then ⟨n, h⟩
  else if n < 0 then ofInt (-170141183460469231731687303715884105728)
  else ofInt 170141183460469231731687303715884105727

/-- The size of a number, unchecked. The least number has no size in range and is left as it is. -/
def wrappingAbs (n : Int128) : Int :=
  if n.raw = -170141183460469231731687303715884105728 then n.raw else n.raw.natAbs

end Int128

end PerpExchange
