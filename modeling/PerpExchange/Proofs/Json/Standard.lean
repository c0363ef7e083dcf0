import Mathlib.Data.List.Nodup
import PerpExchange.Json.Codec
import PerpExchange.Proofs.Json.Written

/-!
The library that is defined here keeps to the laws.
-/

namespace PerpExchange

open Json (Written HasOnce keyed)

namespace Json

variable {levels : ℕ} {v : Json}

lemma allReadable_iff {items : List Json} : allReadable items ↔ ∀ item ∈ items, item.isReadable := by
  induction items with
  | nil => simp [allReadable]
  | cons item rest ih => simp [allReadable, ih]

lemma allMembersReadable_keyed {members : List (String × Json)} :
    allMembersReadable (keyed members) ↔ ∀ m ∈ members, m.2.isReadable := by
  induction members with
  | nil => simp [keyed, allMembersReadable]
  | cons m rest ih =>
    rw [keyed, List.map_cons, allMembersReadable]
    simpa [keyed] using fun _ => ih

lemma Written.isReadable (h : Written levels v) : v.isReadable := by
  induction h with
  | null | bool | integer | text => rfl
  | array h ih => exact allReadable_iff.mpr ih
  | object h ih => exact allMembersReadable_keyed.mpr ih

end Json

namespace JsonCodec

variable {α γ : Type} {members : List (String × Json)} {names : List String} {values : List Json}
  {name : String} {v : Json} {style : NameStyle} {cases : List (String × γ)} {c : γ}

lemma decodeAll_of_forall₂ {decode : Json → Option α} {items : List Json} {as : List α}
    (h : List.Forall₂ (fun v a => decode v = some a) items as) : decodeAll decode items = some as := by
  induction h with
  | nil => rfl
  | cons hitem _ ih => rw [decodeAll, hitem, ih]

lemma member_keyed (h : HasOnce members name v) : member (keyed members) name = some v := by
  have hfilter : (keyed members).filter (·.1 == some name) =
      (members.filter (·.1 == name)).map fun m => (some m.1, m.2) := by
    rw [keyed, List.filter_map]
    rfl
  rw [member, hfilter, h]
  rfl

lemma pick_keyed (h : List.Forall₂ (HasOnce members) names values) :
    pick (keyed members) names = some values := by
  induction h with
  | nil => simp [pick, keyed]
  | cons hfirst _ ih => rw [pick, member_keyed hfirst, ih]

lemma caseOf_of_mem (hnames : (cases.map fun c => style.apply c.1).Nodup) (h : (name, c) ∈ cases) :
    caseOf style cases (style.apply name) = some c := by
  induction cases with
  | nil => cases h
  | cons first others ih =>
    rw [List.map_cons, List.nodup_cons] at hnames
    obtain ⟨hfirst, hothers⟩ := hnames
    rcases List.mem_cons.mp h with rfl | h
    · simp [caseOf]
    · have hne : style.apply first.1 ≠ style.apply name := fun hsame =>
        hfirst (List.mem_map.mpr ⟨_, h, hsame.symm⟩)
      rw [caseOf, List.find?_cons_of_neg (by simpa using hne)]
      exact ih hothers h

variable {kind : IntegerKind} {n : ℤ}

lemma decode_integer (h : kind.Fits n) : (integer kind).decode (.ofInt n) = some n := by
  have hsigned : (if decide (n < 0) then -(n.natAbs : ℤ) else n.natAbs) = n := by
    rcases lt_or_ge n 0 with hneg | hpos
    · rw [if_pos (by simpa using hneg)]
      omega
    · rw [if_neg (by simpa using hpos)]
      omega
  have hzero : ¬(decide (n < 0) ∧ n.natAbs = 0 ∧ kind.bits ≠ 128) := by
    rintro ⟨hneg, habs, -⟩
    simp only [decide_eq_true_eq] at hneg
    omega
  simp only [integer, Json.ofInt]
  rw [if_neg hzero, hsigned, if_pos h]

section Cases

variable {form : α → String × Option Json} {cases : List (String × JsonCase α)} {a : α}
  {make : Json → Option α}

lemma decode_choice_unit (hnames : (cases.map fun c => style.apply c.1).Nodup)
    (h : (name, .unit a) ∈ cases) :
    (choice style form cases).decode (.text (style.apply name)) = some a := by
  simp only [choice, caseOf_of_mem hnames h]

lemma decode_choice_content (hnames : (cases.map fun c => style.apply c.1).Nodup)
    (h : (name, .content make) ∈ cases) :
    (choice style form cases).decode (.ofMembers [(style.apply name, v)]) = make v := by
  simp only [choice, Json.ofMembers, List.map_cons, List.map_nil, caseOf_of_mem hnames h]

end Cases

lemma decode_tagged {tag : String} {form : α → String × List (String × Json)}
    {cases : List (String × List String × (List Json → Option α))} {make : List Json → Option α}
    {levels : ℕ} (hnames : (cases.map fun c => style.apply c.1).Nodup)
    (h : (name, names, make) ∈ cases) (hwritten : Written levels (.ofMembers members))
    (htag : HasOnce members tag (.text (style.apply name)))
    (hvalues : List.Forall₂ (HasOnce members) names values) :
    (tagged tag style form cases).decode (.ofMembers members) = make values := by
  have hmembers : Json.ofMembers members = .object (keyed members) := rfl
  simp only [tagged, hwritten.isReadable, if_true]
  simp only [hmembers, member_keyed htag, caseOf_of_mem hnames h, pick_keyed hvalues,
    Option.bind_some]

end JsonCodec

open JsonCodec

/-- The standard library keeps to the laws. -/
instance : JsonLibrary.standard.Documented where
  print_eq _ _ _ _ := rfl
  parse?_eq _ _ h hlevels := Json.parse?_print h hlevels
  writtenName := renames_apply
  readName := renames_apply
  encode_bool _ := rfl
  decode_bool _ := rfl
  encode_integer _ _ _ _ := rfl
  decode_integer _ _ _ h := decode_integer h
  encode_list _ _ := rfl
  decode_list _ _ _ h := decodeAll_of_forall₂ h
  encode_transparent _ _ _ _ := rfl
  decode_transparent _ _ _ _ := rfl
  encode_record _ _ _ _ := rfl
  decode_record names values make members vs h := by
    change (pick (keyed members) names).bind make = make vs
    rw [pick_keyed h, Option.bind_some]
  encode_choice_unit _ _ _ _ _ h := by simp only [JsonLibrary.standard, choice, h]
  encode_choice_content _ _ _ _ _ _ h := by simp only [JsonLibrary.standard, choice, h]
  decode_choice_unit _ _ _ _ _ hnames h := decode_choice_unit hnames h
  decode_choice_content _ _ _ _ _ _ hnames h := decode_choice_content hnames h
  encode_tagged _ _ _ _ _ _ _ h := by simp only [JsonLibrary.standard, tagged, h]
  decode_tagged _ _ _ _ _ _ _ _ _ _ hnames h _ hwritten htag hvalues :=
    decode_tagged hnames h hwritten htag hvalues

end PerpExchange
