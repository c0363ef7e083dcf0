import PerpExchange.Json.Value
import PerpExchange.Number.Double

/-!
Reading JSON text.

Each reader takes the characters ahead and returns what it read and the rest. Containers nest to any
depth; from the one hundred and twenty-eighth level on they are read but not kept.
-/

namespace PerpExchange.Json

def isBlank (c : Char) : Bool := c = ' ' || c = '\t' || c = '\n' || c = '\r'

def skipBlanks (s : List Char) : List Char := s.dropWhile isBlank

/-! ### Numbers -/

def digitsValue (ds : List Char) : Nat := ds.foldl (fun n c => 10 * n + (c.toNat - '0'.toNat)) 0

def spanDigits (s : List Char) : List Char × List Char :=
  (s.takeWhile Char.isDigit, s.dropWhile Char.isDigit)

/-- The digits before a fraction: no zero in front of another digit. -/
def wholeDigits? (s : List Char) : Option (List Char × List Char) :=
  match spanDigits s with
  | ([], _) => none
  | (['0'], rest) => some (['0'], rest)
  | (ds, rest) => if ds.head? = some '0' then none else some (ds, rest)

def fraction? (s : List Char) : Option (Option (List Char) × List Char) :=
  match s with
  | '.' :: rest =>
    match spanDigits rest with
    | ([], _) => none
    | (ds, rest) => some (some ds, rest)
  | _ => some (none, s)

def exponentSign (s : List Char) : Bool × List Char :=
  match s with
  | '-' :: rest => (true, rest)
  | '+' :: rest => (false, rest)
  | _ => (false, s)

def exponent? (s : List Char) : Option (Option Int × List Char) :=
  match s with
  | c :: rest =>
    if c = 'e' ∨ c = 'E' then
      let (negative, rest) := exponentSign rest
      match spanDigits rest with
      | ([], _) => none
      | (ds, rest) =>
        let size : Int := digitsValue ds
        some (some (if negative then -size else size), rest)
    else some (none, s)
  | [] => some (none, s)

/-- The first number that does not fit in 64 bits. -/
def significandLimit : Nat := 18446744073709551616

/-- Appends digits to `n` for as long as the number fits in 64 bits; with the digits left out. -/
def significand (n : Nat) : List Char → Nat × List Char
  | [] => (n, [])
  | c :: rest =>
    let next := 10 * n + (c.toNat - '0'.toNat)
    if next < significandLimit then significand next rest else (n, c :: rest)

/-- Whether a number is beyond all doubles as it is read: from the digits that fit in 64 bits and a
power of ten. Each whole digit left out raises the power and each place taken in lowers it; a place
left out counts for nothing. A negative power is never beyond. -/
def isBeyondDoubles (whole places : List Char) (exponent : Int) : Bool :=
  let (n, wholeLeft) := significand 0 whole
  let (n, placesLeft) := significand n places
  let power := wholeLeft.length - (places.length - placesLeft.length) + exponent
  0 ≤ power && Double.isInfinite n power.toNat

/-- A number literal: an integer if it has neither fraction nor exponent. -/
def number? (s : List Char) : Option (Json × List Char) :=
  let (negative, s) := match s with
    | '-' :: rest => (true, rest)
    | _ => (false, s)
  match wholeDigits? s with
  | none => none
  | some (whole, s) =>
    match fraction? s with
    | none => none
    | some (fraction, s) =>
      match exponent? s with
      | none => none
      | some (exponent, s) =>
        if isBeyondDoubles whole (fraction.getD []) (exponent.getD 0) then some (.unreadable, s)
        else if fraction.isNone ∧ exponent.isNone then
          some (.integer negative (digitsValue whole), s)
        else some (.real, s)

/-! ### Texts -/

/-- A part of a quoted text: a character, or a unit given by its code. -/
inductive Piece where
  | char (c : Char)
  | unit (code : Nat)
deriving DecidableEq

def hexValue? (c : Char) : Option Nat :=
  if '0' ≤ c ∧ c ≤ '9' then some (c.toNat - '0'.toNat)
  else if 'a' ≤ c ∧ c ≤ 'f' then some (c.toNat - 'a'.toNat + 10)
  else if 'A' ≤ c ∧ c ≤ 'F' then some (c.toNat - 'A'.toNat + 10)
  else none

/-- The code that four digits of base sixteen give. -/
def unit? (a b c d : Char) : Option Nat := do
  let a ← hexValue? a
  let b ← hexValue? b
  let c ← hexValue? c
  let d ← hexValue? d
  pure (((a * 16 + b) * 16 + c) * 16 + d)

def shortEscape? (c : Char) : Option Char :=
  if c = '"' then some '"'
  else if c = '\\' then some '\\'
  else if c = '/' then some '/'
  else if c = 'b' then some (Char.ofNat 8)
  else if c = 'f' then some (Char.ofNat 12)
  else if c = 'n' then some '\n'
  else if c = 'r' then some '\r'
  else if c = 't' then some '\t'
  else none

def pieces? : List Char → Option (List Piece × List Char)
  | [] => none
  | '"' :: rest => some ([], rest)
  | '\\' :: 'u' :: a :: b :: c :: d :: rest =>
    match unit? a b c d, pieces? rest with
    | some code, some (ps, rest) => some (.unit code :: ps, rest)
    | _, _ => none
  | '\\' :: c :: rest =>
    match shortEscape? c, pieces? rest with
    | some c, some (ps, rest) => some (.char c :: ps, rest)
    | _, _ => none
  | c :: rest =>
    if c.toNat < 32 ∨ c = '\\' then none
    else match pieces? rest with
      | some (ps, rest) => some (.char c :: ps, rest)
      | none => none

def isHighSurrogate (code : Nat) : Bool := 0xD800 ≤ code && code < 0xDC00

def isLowSurrogate (code : Nat) : Bool := 0xDC00 ≤ code && code < 0xE000

/-- The characters of a text. A high surrogate must be followed by a low one, and the two give one
character. -/
def assemble? : List Piece → Option (List Char)
  | [] => some []
  | .char c :: rest => (assemble? rest).map (c :: ·)
  | .unit high :: .unit low :: rest =>
    if isHighSurrogate high then
      if isLowSurrogate low then
        (assemble? rest).map
          (Char.ofNat (0x10000 + (high - 0xD800) * 0x400 + (low - 0xDC00)) :: ·)
      else none
    else if isLowSurrogate high then none
    else (assemble? (.unit low :: rest)).map (Char.ofNat high :: ·)
  | .unit code :: rest =>
    if isHighSurrogate code || isLowSurrogate code then none
    else (assemble? rest).map (Char.ofNat code :: ·)

/-- A text after its opening quote; none inside if it has no reading. -/
def string? (s : List Char) : Option (Option String × List Char) :=
  match pieces? s with
  | some (ps, rest) => some ((assemble? ps).map String.ofList, rest)
  | none => none

/-! ### Values -/

/-- The depth from which containers are not kept. -/
def depthLimit : Nat := 128

def contained (depth : Nat) (v : Json) : Json := if depth < depthLimit then v else .unreadable

def key? (s : List Char) : Option (Option String × List Char) :=
  match skipBlanks s with
  | '"' :: rest =>
    match string? rest with
    | some (key, rest) =>
      match skipBlanks rest with
      | ':' :: rest => some (key, rest)
      | _ => none
    | none => none
  | _ => none

mutual

def value? : Nat → Nat → List Char → Option (Json × List Char)
  | 0, _, _ => none
  | fuel + 1, depth, s =>
    match skipBlanks s with
    | 'n' :: 'u' :: 'l' :: 'l' :: rest => some (.null, rest)
    | 't' :: 'r' :: 'u' :: 'e' :: rest => some (.bool true, rest)
    | 'f' :: 'a' :: 'l' :: 's' :: 'e' :: rest => some (.bool false, rest)
    | '"' :: rest =>
      match string? rest with
      | some (some content, rest) => some (.text content, rest)
      | some (none, rest) => some (.unreadable, rest)
      | none => none
    | '[' :: rest =>
      match skipBlanks rest with
      | ']' :: rest => some (contained (depth + 1) (.array []), rest)
      | rest =>
        match items? fuel (depth + 1) rest with
        | some (items, rest) => some (contained (depth + 1) (.array items), rest)
        | none => none
    | '\x7b' :: rest =>
      match skipBlanks rest with
      | '\x7d' :: rest => some (contained (depth + 1) (.object []), rest)
      | rest =>
        match members? fuel (depth + 1) rest with
        | some (members, rest) => some (contained (depth + 1) (.object members), rest)
        | none => none
    | rest => number? rest

def items? : Nat → Nat → List Char → Option (List Json × List Char)
  | 0, _, _ => none
  | fuel + 1, depth, s =>
    match value? fuel depth s with
    | none => none
    | some (item, rest) =>
      match skipBlanks rest with
      | ']' :: rest => some ([item], rest)
      | ',' :: rest =>
        match items? fuel depth rest with
        | some (items, rest) => some (item :: items, rest)
        | none => none
      | _ => none

def members? : Nat → Nat → List Char → Option (List (Option String × Json) × List Char)
  | 0, _, _ => none
  | fuel + 1, depth, s =>
    match key? s with
    | none => none
    | some (key, rest) =>
      match value? fuel depth rest with
      | none => none
      | some (value, rest) =>
        match skipBlanks rest with
        | '\x7d' :: rest => some ([(key, value)], rest)
        | ',' :: rest =>
          match members? fuel depth rest with
          | some (members, rest) => some ((key, value) :: members, rest)
          | none => none
        | _ => none

end

/-- The value that a text consists of, with white space around it. Every call on the way down takes
a character or a step of two, so twice the length is fuel enough. -/
def parse? (s : String) : Option Json :=
  match value? (2 * s.length + 2) 0 s.toList with
  | some (v, rest) => if (skipBlanks rest).isEmpty then some v else none
  | none => none

end PerpExchange.Json
