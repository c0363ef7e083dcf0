import PerpExchange.Json.Value

/-!
What a JSON library does for the types of the exchange.

A type is declared: with its fields, or with its cases and what their names are turned into. Of the
declaration the library makes a codec, and it writes and reads the text of values. What it does is
not defined here: the exchange runs on whatever library it is given.
-/

namespace PerpExchange

/-- How values of a type are turned into JSON and back. -/
structure JsonCodec (α : Type) where
  encode : α → Json
  decode : Json → Option α

/-- What the names of the cases of a type are turned into. -/
inductive NameStyle where
  | plain
  | camelCase
  | snakeCase
deriving DecidableEq

/-- The integers of this many bits, one of which may be for the sign. -/
structure IntegerKind where
  signed : Bool
  bits : Nat

def IntegerKind.Fits (kind : IntegerKind) (n : Int) : Prop :=
  if kind.signed then -(Nat.pow 2 (kind.bits - 1) : Nat) ≤ n ∧ n < (Nat.pow 2 (kind.bits - 1) : Nat)
  else 0 ≤ n ∧ n < (Nat.pow 2 kind.bits : Nat)

instance (kind : IntegerKind) (n : Int) : Decidable (kind.Fits n) := by
  unfold IntegerKind.Fits
  infer_instance

/-- A case of a type: a value, or a way to make a value from what comes with the name. -/
inductive JsonCase (α : Type) where
  | unit (value : α)
  | content (make : Json → Option α)

structure JsonLibrary where
  print : Json → String
  parse? : String → Option Json
  /-- The name of a case in what is written. -/
  writtenName : NameStyle → String → String
  /-- The name of a case in what is read. -/
  readName : NameStyle → String → String
  bool : JsonCodec Bool
  integer : IntegerKind → JsonCodec Int
  list {α : Type} : JsonCodec α → JsonCodec (List α)
  /-- A type that stands for its only field. -/
  transparent {α β : Type} : JsonCodec β → (α → β) → (β → α) → JsonCodec α
  /-- From the names of the fields, their values in that order, and the record of such values. -/
  record {α : Type} : List String → (α → List Json) → (List Json → Option α) → JsonCodec α
  /-- From the name of the case of a value and what comes with it, and from all cases. -/
  choice {α : Type} :
    NameStyle → (α → String × Option Json) → List (String × JsonCase α) → JsonCodec α
  /-- The same for cases with fields. The name of the case is itself a member, under the tag. -/
  tagged {α : Type} : String → NameStyle → (α → String × List (String × Json)) →
    List (String × List String × (List Json → Option α)) → JsonCodec α

class Declared (α : Type) where
  codec : JsonLibrary → JsonCodec α

variable (lib : JsonLibrary)

def encode {α : Type} [Declared α] (a : α) : Json := (Declared.codec lib).encode a

def decode {α : Type} [Declared α] (v : Json) : Option α := (Declared.codec lib).decode v

/-- The codec of a type of which every case is a name. -/
def JsonLibrary.names {α : Type} (style : NameStyle) (all : List α) (name : α → String) :
    JsonCodec α :=
  lib.choice style (fun a => (name a, none)) (all.map fun a => (name a, .unit a))

end PerpExchange
