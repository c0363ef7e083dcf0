import PerpExchange.Json.Library
import PerpExchange.Json.Reader

/-!
A JSON library to run with.

It reads a little more than it writes: the members of a record may come in any order and among
others, a record may be given as the array of its fields, and the name of a case may be the key of a
null.
-/

namespace PerpExchange

/-- The first letter in lower case, or for `snakeCase` every letter, with an underscore in front of
each capital but the first. -/
def NameStyle.apply (style : NameStyle) (name : String) : String :=
  match style, name.toList with
  | .camelCase, c :: rest => .ofList (c.toLower :: rest)
  | .snakeCase, c :: rest =>
    .ofList (c.toLower :: rest.flatMap fun c => if c.isUpper then ['_', c.toLower] else [c])
  | _, _ => name

namespace JsonCodec

def bool : JsonCodec Bool where
  encode b := .bool b
  decode
    | .bool b => some b
    | _ => none

/-- Only an integer of 128 bits may be a zero with a sign. -/
def integer (kind : IntegerKind) : JsonCodec Int where
  encode := .ofInt
  decode
    | .integer negative magnitude =>
      let n : Int := if negative then -magnitude else magnitude
      if negative ∧ magnitude = 0 ∧ kind.bits ≠ 128 then none
      else if kind.Fits n then some n
      else none
    | _ => none

variable {α β : Type}

/-- Every item decoded, if all of them can be. -/
def decodeAll (decode : Json → Option α) : List Json → Option (List α)
  | [] => some []
  | item :: rest =>
    match decode item, decodeAll decode rest with
    | some a, some others => some (a :: others)
    | _, _ => none

def list (codec : JsonCodec α) : JsonCodec (List α) where
  encode as := .array (as.map codec.encode)
  decode
    | .array items => decodeAll codec.decode items
    | _ => none

def transparent (codec : JsonCodec β) (field : α → β) (make : β → α) : JsonCodec α where
  encode a := codec.encode (field a)
  decode v := (codec.decode v).map make

def member (members : List (Option String × Json)) (name : String) : Option Json :=
  match members.filter (·.1 == some name) with
  | [(_, value)] => some value
  | _ => none

/-- The members of these names, each of which there must be exactly once. No key may be unreadable;
keys beyond the names are passed over. -/
def pick (members : List (Option String × Json)) : List String → Option (List Json)
  | [] => if members.all (·.1.isSome) then some [] else none
  | name :: rest =>
    match member members name, pick members rest with
    | some value, some others => some (value :: others)
    | _, _ => none

def record (names : List String) (values : α → List Json) (make : List Json → Option α) :
    JsonCodec α where
  encode a := .ofMembers (names.zip (values a))
  decode
    | .object members => (pick members names).bind make
    | .array items => make items
    | _ => none

/-- The first case of a name. -/
def caseOf {γ : Type} (style : NameStyle) (cases : List (String × γ)) (name : String) : Option γ :=
  (cases.find? fun c => style.apply c.1 == name).map (·.2)

def choice (style : NameStyle) (form : α → String × Option Json)
    (cases : List (String × JsonCase α)) : JsonCodec α where
  encode a :=
    match form a with
    | (name, none) => .text (style.apply name)
    | (name, some content) => .ofMembers [(style.apply name, content)]
  decode
    | .text name =>
      match caseOf style cases name with
      | some (.unit a) => some a
      | _ => none
    | .object [(some name, v)] =>
      match caseOf style cases name, v with
      | some (.unit a), .null => some a
      | some (.content make), v => make v
      | _, _ => none
    | _ => none

/-- The tag may stand anywhere among the members, and first in an array. Nothing in it may be
unreadable. -/
def tagged (tag : String) (style : NameStyle) (form : α → String × List (String × Json))
    (cases : List (String × List String × (List Json → Option α))) : JsonCodec α where
  encode a :=
    match form a with
    | (name, fields) => .ofMembers ((tag, .text (style.apply name)) :: fields)
  decode v :=
    if v.isReadable then
      match v with
      | .object members =>
        match member members tag with
        | some (.text name) =>
          match caseOf style cases name with
          | some (names, make) => (pick members names).bind make
          | none => none
        | _ => none
      | .array (.text name :: items) =>
        match caseOf style cases name with
        | some (_, make) => make items
        | none => none
      | _ => none
    else none

end JsonCodec

def JsonLibrary.standard : JsonLibrary where
  print := Json.print
  parse? := Json.parse?
  writtenName := NameStyle.apply
  readName := NameStyle.apply
  bool := JsonCodec.bool
  integer := JsonCodec.integer
  list := JsonCodec.list
  transparent := JsonCodec.transparent
  record := JsonCodec.record
  choice := JsonCodec.choice
  tagged := JsonCodec.tagged

end PerpExchange
