/-!
JSON values and their compact text.

A value keeps what a reader of settings and accounts can use. Correct JSON that has no such use is
kept as `unreadable`: it may stand where it is passed over, and nothing can be read from it.
-/

namespace PerpExchange

inductive Json where
  | null
  | bool (value : Bool)
  /-- An integer literal. The sign is kept apart, since zero can have one. -/
  | integer (negative : Bool) (magnitude : Nat)
  /-- A number literal with a fraction or an exponent. -/
  | real
  | text (value : String)
  | array (items : List Json)
  /-- Members in their order. A key without a reading is none. -/
  | object (members : List (Option String × Json))
  /-- A text with half a surrogate pair, a number beyond all doubles, or a value nested too deep. -/
  | unreadable

namespace Json

instance : Inhabited Json := ⟨.null⟩

def ofInt (n : Int) : Json := .integer (decide (n < 0)) n.natAbs

/-- An object with readable keys. -/
def ofMembers (members : List (String × Json)) : Json :=
  .object (members.map fun (key, value) => (some key, value))

mutual

def isReadable : Json → Bool
  | .array items => allReadable items
  | .object members => allMembersReadable members
  | .unreadable => false
  | _ => true

def allReadable : List Json → Bool
  | [] => true
  | item :: rest => item.isReadable && allReadable rest

def allMembersReadable : List (Option String × Json) → Bool
  | [] => true
  | (key, value) :: rest => key.isSome && value.isReadable && allMembersReadable rest

end

/-! ### Text -/

def hexDigit (n : Nat) : Char :=
  if n < 10 then Char.ofNat ('0'.toNat + n) else Char.ofNat ('a'.toNat + (n - 10))

/-- A character inside quotes: quote, backslash and control characters are escaped. -/
def escape (c : Char) : List Char :=
  if c = '"' then ['\\', '"']
  else if c = '\\' then ['\\', '\\']
  else if c = '\n' then ['\\', 'n']
  else if c = '\r' then ['\\', 'r']
  else if c = '\t' then ['\\', 't']
  else if c.toNat = 8 then ['\\', 'b']
  else if c.toNat = 12 then ['\\', 'f']
  else if c.toNat < 32 then ['\\', 'u', '0', '0', hexDigit (c.toNat / 16), hexDigit (c.toNat % 16)]
  else [c]

def quoted (s : String) : List Char := '"' :: s.toList.flatMap escape ++ ['"']

mutual

/-- The compact text of a value. -/
def render : Json → List Char
  | .null => "null".toList
  | .bool true => "true".toList
  | .bool false => "false".toList
  | .integer negative magnitude =>
    (if negative then ['-'] else []) ++ (toString magnitude).toList
  | .real => "null".toList
  | .text s => quoted s
  | .array items => '[' :: renderItems items ++ [']']
  | .object members => '\x7b' :: renderMembers members ++ ['\x7d']
  | .unreadable => "null".toList

def renderItems : List Json → List Char
  | [] => []
  | [item] => item.render
  | item :: rest => item.render ++ ',' :: renderItems rest

def renderMembers : List (Option String × Json) → List Char
  | [] => []
  | [(key, value)] => quoted (key.getD "") ++ ':' :: value.render
  | (key, value) :: rest =>
    quoted (key.getD "") ++ ':' :: (value.render ++ ',' :: renderMembers rest)

end

def print (v : Json) : String := String.ofList v.render

end Json

end PerpExchange
