import Mathlib.Algebra.Order.Ring.Nat
import Mathlib.Data.List.Forall2
import PerpExchange.Json.Codec

/-!
What is relied on of a JSON library.

Each law is what such a library says of one way to declare a type, of names, or of texts. What is
written and what is read have laws of their own; that the two fit together is not one of them.
-/

namespace PerpExchange

namespace Json

/-- A value of the kind that codecs write, in which no more than `levels` containers are inside each
other. -/
inductive Written : ℕ → Json → Prop where
  | null {levels : ℕ} : Written levels .null
  | bool {levels : ℕ} (b : Bool) : Written levels (.bool b)
  | integer {levels : ℕ} (negative : Bool) {magnitude : ℕ} (h : magnitude < 2 ^ 128) :
    Written levels (.integer negative magnitude)
  | text {levels : ℕ} (s : String) : Written levels (.text s)
  | array {levels : ℕ} {items : List Json} (h : ∀ item ∈ items, Written levels item) :
    Written (levels + 1) (.array items)
  | object {levels : ℕ} {members : List (String × Json)} (h : ∀ m ∈ members, Written levels m.2) :
    Written (levels + 1) (.ofMembers members)

lemma Written.mono {levels more : ℕ} {v : Json} (h : Written levels v) (hle : levels ≤ more) :
    Written more v := by
  induction h generalizing more with
  | null => exact .null
  | bool b => exact .bool b
  | integer negative h => exact .integer negative h
  | text s => exact .text s
  | array h ih =>
    obtain ⟨more, rfl⟩ := Nat.exists_eq_add_of_le' (Nat.one_le_of_lt hle)
    exact .array fun item hitem => ih item hitem (by omega)
  | object h ih =>
    obtain ⟨more, rfl⟩ := Nat.exists_eq_add_of_le' (Nat.one_le_of_lt hle)
    exact .object fun m hm => ih m hm (by omega)

/-- Exactly one member has this name, and this is its value. -/
def HasOnce (members : List (String × Json)) (name : String) (v : Json) : Prop :=
  members.filter (·.1 == name) = [(name, v)]

end Json

open Json (Written HasOnce)

/-- What becomes of the names of cases, which start with a capital. -/
structure Renames (rename : NameStyle → String → String) : Prop where
  plain : ∀ name, rename .plain name = name
  camelCase : ∀ c rest, rename .camelCase (.ofList (c :: rest)) = .ofList (c.toLower :: rest)
  /-- For names of one word. -/
  snakeCase : ∀ c rest, (∀ c ∈ rest, c.isUpper = false) →
    rename .snakeCase (.ofList (c :: rest)) = .ofList (c.toLower :: rest)

/-- A name of which it is known what it becomes: not empty, and for `snakeCase` of one word. -/
def NameStyle.Covers (style : NameStyle) (name : String) : Prop :=
  name.toList ≠ [] ∧ (style = .snakeCase → name.toList.tail.any Char.isUpper = false)

instance (style : NameStyle) (name : String) : Decidable (style.Covers name) := by
  unfold NameStyle.Covers
  infer_instance

lemma flatMap_of_isUpper {cs : List Char} (h : ∀ c ∈ cs, c.isUpper = false) :
    (cs.flatMap fun c => if c.isUpper then ['_', c.toLower] else [c]) = cs := by
  induction cs with
  | nil => rfl
  | cons c cs ih =>
    obtain ⟨hc, hcs⟩ := List.forall_mem_cons.mp h
    rw [List.flatMap_cons, ih hcs, hc]
    rfl

lemma renames_apply : Renames NameStyle.apply where
  plain _ := rfl
  camelCase c rest := by simp only [NameStyle.apply, String.toList_ofList]
  snakeCase c rest h := by simp only [NameStyle.apply, String.toList_ofList, flatMap_of_isUpper h]

lemma Renames.eq_apply {rename : NameStyle → String → String} (h : Renames rename)
    {style : NameStyle} {name : String} (hname : style.Covers name) :
    rename style name = style.apply name := by
  obtain ⟨hne, hword⟩ := hname
  obtain ⟨c, rest, hchars⟩ := List.exists_cons_of_ne_nil hne
  have hlist : name = .ofList (c :: rest) := by rw [← hchars, String.ofList_toList]
  have hrest : style = .snakeCase → ∀ c ∈ rest, c.isUpper = false := fun hstyle => by
    simpa [hchars] using hword hstyle
  subst hlist
  cases style with
  | plain => rw [h.plain, renames_apply.plain]
  | camelCase => rw [h.camelCase, renames_apply.camelCase]
  | snakeCase => rw [h.snakeCase c rest (hrest rfl), renames_apply.snakeCase c rest (hrest rfl)]

/-- The laws of a library. -/
class JsonLibrary.Documented (lib : JsonLibrary) : Prop where
  print_eq : ∀ levels v, Written levels v → levels < 128 → lib.print v = .ofList v.render
  parse?_eq : ∀ levels v, Written levels v → levels < 128 →
    lib.parse? (.ofList v.render) = some v
  writtenName : Renames lib.writtenName
  readName : Renames lib.readName
  encode_bool : ∀ b, lib.bool.encode b = .bool b
  decode_bool : ∀ b, lib.bool.decode (.bool b) = some b
  encode_integer : ∀ kind n, kind.bits ≤ 128 → kind.Fits n →
    (lib.integer kind).encode n = .ofInt n
  decode_integer : ∀ kind n, kind.bits ≤ 128 → kind.Fits n →
    (lib.integer kind).decode (.ofInt n) = some n
  encode_list : ∀ {α} (c : JsonCodec α) as, (lib.list c).encode as = .array (as.map c.encode)
  decode_list : ∀ {α} (c : JsonCodec α) items as,
    List.Forall₂ (fun v a => c.decode v = some a) items as →
      (lib.list c).decode (.array items) = some as
  encode_transparent : ∀ {α β} (c : JsonCodec β) (field : α → β) make a,
    (lib.transparent c field make).encode a = c.encode (field a)
  decode_transparent : ∀ {α β} (c : JsonCodec β) (field : α → β) make v,
    (lib.transparent c field make).decode v = (c.decode v).map make
  /-- Fields are written in the order of their declaration. -/
  encode_record : ∀ {α} names values (make : List Json → Option α) a,
    (lib.record names values make).encode a = .ofMembers (names.zip (values a))
  /-- Fields are read in any order, and among others. -/
  decode_record : ∀ {α} names values (make : List Json → Option α) members vs,
    List.Forall₂ (HasOnce members) names vs →
      (lib.record names values make).decode (.ofMembers members) = make vs
  encode_choice_unit : ∀ {α} style form (cases : List (String × JsonCase α)) a name,
    form a = (name, none) →
      (lib.choice style form cases).encode a = .text (lib.writtenName style name)
  encode_choice_content : ∀ {α} style form (cases : List (String × JsonCase α)) a name v,
    form a = (name, some v) →
      (lib.choice style form cases).encode a = .ofMembers [(lib.writtenName style name, v)]
  decode_choice_unit : ∀ {α} style form (cases : List (String × JsonCase α)) name a,
    (cases.map fun c => lib.readName style c.1).Nodup → (name, .unit a) ∈ cases →
      (lib.choice style form cases).decode (.text (lib.readName style name)) = some a
  decode_choice_content : ∀ {α} style form (cases : List (String × JsonCase α)) name make v,
    (cases.map fun c => lib.readName style c.1).Nodup → (name, .content make) ∈ cases →
      (lib.choice style form cases).decode (.ofMembers [(lib.readName style name, v)]) = make v
  /-- The tag is written first. -/
  encode_tagged : ∀ {α} tag style form (cases : List (String × List String × (List Json → Option α)))
    a name fields, form a = (name, fields) →
      (lib.tagged tag style form cases).encode a =
        .ofMembers ((tag, .text (lib.writtenName style name)) :: fields)
  /-- The tag may come anywhere. -/
  decode_tagged : ∀ {α} tag style form (cases : List (String × List String × (List Json → Option α)))
    name names make members vs levels,
    (cases.map fun c => lib.readName style c.1).Nodup → (name, names, make) ∈ cases →
      tag ∉ names → Written levels (.ofMembers members) →
      HasOnce members tag (.text (lib.readName style name)) →
      List.Forall₂ (HasOnce members) names vs →
        (lib.tagged tag style form cases).decode (.ofMembers members) = make vs

end PerpExchange
