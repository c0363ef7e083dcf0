import Mathlib.Algebra.Order.Ring.Nat
import Mathlib.Data.Int.Notation
import Mathlib.Tactic.NormNum
import PerpExchange.Json.Documents
import PerpExchange.Proofs.Json.Library

/-!
Codecs that read back what they write.

What makes a codec lawful is proved once for each way to declare a type, from the laws of the
library: for numbers, for lists, for cases, which are found again by their names, and for records,
whose members are found again because no two fields have one name.
-/

namespace PerpExchange

open Json (Written HasOnce)
open JsonLibrary (Documented)

/-- A type whose codec, whatever the library, decodes what it encodes, and encodes values that can
be written, in which no more than `levels` containers are inside each other. -/
class Lawful (α : Type) [Declared α] (levels : outParam ℕ) : Prop where
  decode_encode (lib : JsonLibrary) [lib.Documented] (a : α) : decode lib (encode lib a) = some a
  written (lib : JsonLibrary) [lib.Documented] (a : α) : Written levels (encode lib a)

variable {lib : JsonLibrary} [lib.Documented] {α β : Type} {levels : ℕ}

@[simp] lemma decode_encode [Declared α] [Lawful α levels] (a : α) :
    decode lib (encode lib a) = some a :=
  Lawful.decode_encode lib a

lemma written_encode [Declared α] [Lawful α levels] {more : ℕ} (a : α) (h : levels ≤ more) :
    Written more (encode lib a) :=
  (Lawful.written lib a).mono h

lemma Lawful.mono [Declared α] {more : ℕ} (h : Lawful α levels) (hle : levels ≤ more) :
    Lawful α more where
  decode_encode := h.decode_encode
  written lib _ a := (h.written lib a).mono hle

/-! ### Numbers, lists and types with one field -/

instance : Lawful Bool 0 where
  decode_encode lib _ b := by
    have hencode : encode lib b = .bool b := Documented.encode_bool b
    rw [hencode]
    exact Documented.decode_bool b
  written lib _ b := by
    have hencode : encode lib b = .bool b := Documented.encode_bool b
    rw [hencode]
    exact .bool b

lemma IntegerKind.Fits.natAbs_lt {kind : IntegerKind} {n : ℤ} (h : kind.Fits n)
    (hbits : kind.bits ≤ 128) : n.natAbs < 2 ^ 128 := by
  have hpow : Nat.pow 2 kind.bits ≤ 2 ^ 128 := Nat.pow_le_pow_right (by norm_num) hbits
  have hhalf : Nat.pow 2 (kind.bits - 1) ≤ 2 ^ 127 := Nat.pow_le_pow_right (by norm_num) (by omega)
  unfold IntegerKind.Fits at h
  split at h <;> omega

section Number

variable [Declared α] {kind : IntegerKind} {toInt : α → ℤ} {ofInt? : ℤ → Option α}

lemma encode_of_number (hcodec : ∀ lib, Declared.codec lib = lib.number kind toInt ofInt?)
    (hbits : kind.bits ≤ 128) {a : α} (hfits : kind.Fits (toInt a)) :
    encode lib a = .ofInt (toInt a) := by
  rw [encode, hcodec]
  exact Documented.encode_integer kind _ hbits hfits

lemma lawful_number (hcodec : ∀ lib, Declared.codec lib = lib.number kind toInt ofInt?)
    (hbits : kind.bits ≤ 128) (hfits : ∀ a, kind.Fits (toInt a))
    (hof : ∀ a, ofInt? (toInt a) = some a) : Lawful α 0 := by
  refine ⟨fun lib _ a => ?_, fun lib _ a => ?_⟩
  · have hdecode : (lib.integer kind).decode (.ofInt (toInt a)) = some (toInt a) :=
      Documented.decode_integer kind _ hbits (hfits a)
    rw [encode_of_number hcodec hbits (hfits a), decode, hcodec]
    simp only [JsonLibrary.number, hdecode, Option.bind_some, hof]
  · rw [encode_of_number hcodec hbits (hfits a)]
    exact .integer _ ((hfits a).natAbs_lt hbits)

end Number

lemma Int128.fits_kind (n : Int128) : IntegerKind.Fits ⟨true, 128⟩ n.raw :=
  ⟨n.fits.1, Int.lt_of_le_sub_one n.fits.2⟩

instance : Lawful Int128 0 :=
  lawful_number (fun _ => rfl) le_rfl Int128.fits_kind fun n => dif_pos n.fits

instance : Lawful Int64 0 :=
  lawful_number (fun _ => rfl) (by norm_num) (fun n => ⟨n.le_toInt, n.toInt_lt⟩)
    fun n => congrArg some (Int64.ofInt_toInt n)

instance : Lawful UInt8 0 :=
  lawful_number (fun _ => rfl) (by norm_num)
    (fun n => ⟨Int.natCast_nonneg _, Int.ofNat_lt.mpr n.toNat_lt⟩)
    fun n => congrArg some UInt8.ofNat_toNat

instance : Lawful UInt16 0 :=
  lawful_number (fun _ => rfl) (by norm_num)
    (fun n => ⟨Int.natCast_nonneg _, Int.ofNat_lt.mpr n.toNat_lt⟩)
    fun n => congrArg some UInt16.ofNat_toNat

instance : Lawful UInt32 0 :=
  lawful_number (fun _ => rfl) (by norm_num)
    (fun n => ⟨Int.natCast_nonneg _, Int.ofNat_lt.mpr n.toNat_lt⟩)
    fun n => congrArg some UInt32.ofNat_toNat

lemma fits_uint64 (n : UInt64) : IntegerKind.Fits ⟨false, 64⟩ n.toNat :=
  ⟨Int.natCast_nonneg _, Int.ofNat_lt.mpr n.toNat_lt⟩

instance : Lawful UInt64 0 :=
  lawful_number (fun _ => rfl) (by norm_num) fits_uint64 fun n => congrArg some UInt64.ofNat_toNat

instance [Declared α] [Lawful α levels] : Lawful (List α) (levels + 1) := by
  have hencode : ∀ (lib : JsonLibrary) [lib.Documented] (as : List α),
      encode lib as = .array (as.map (encode lib)) := fun lib _ as =>
    Documented.encode_list _ as
  refine ⟨fun lib _ as => ?_, fun lib _ as => ?_⟩
  · rw [hencode]
    refine Documented.decode_list (Declared.codec lib) _ as ?_
    rw [List.forall₂_map_left_iff, List.forall₂_same]
    exact fun a _ => decode_encode a
  · rw [hencode]
    refine .array fun item hitem => ?_
    obtain ⟨a, -, rfl⟩ := List.mem_map.mp hitem
    exact Lawful.written lib a

section Transparent

variable [Declared α] [Declared β] {field : α → β} {make : β → α}

lemma encode_of_transparent
    (hcodec : ∀ lib, Declared.codec lib = lib.transparent (Declared.codec lib) field make) (a : α) :
    encode lib a = encode lib (field a) := by
  rw [encode, hcodec]
  exact Documented.encode_transparent _ field make a

lemma lawful_transparent [Lawful β levels]
    (hcodec : ∀ lib, Declared.codec lib = lib.transparent (Declared.codec lib) field make)
    (hmake : ∀ a, make (field a) = a) : Lawful α levels := by
  refine ⟨fun lib _ a => ?_, fun lib _ a => ?_⟩
  · rw [encode_of_transparent hcodec, decode, hcodec, Documented.decode_transparent]
    exact (congrArg (Option.map make) (decode_encode (field a))).trans (congrArg some (hmake a))
  · rw [encode_of_transparent hcodec]
    exact Lawful.written lib (field a)

end Transparent

/-! ### Names -/

section Names

variable {γ : Type} {style : NameStyle} {names : List String} {name : String}
  {cases : List (String × γ)} {c : γ}

/-- Names that differ once they are turned into what is written also differ in what is read. -/
lemma nodup_readName (hnames : cases.map (·.1) = names)
    (hcovers : ∀ name ∈ names, style.Covers name) (hdistinct : (names.map style.apply).Nodup) :
    (cases.map fun c => lib.readName style c.1).Nodup := by
  have hsame : names.map (lib.readName style) = names.map style.apply :=
    List.map_congr_left fun name hname => Documented.readName.eq_apply (hcovers name hname)
  rw [← hsame, ← hnames, List.map_map] at hdistinct
  exact hdistinct

lemma writtenName_eq_readName (hnames : cases.map (·.1) = names)
    (hcovers : ∀ name ∈ names, style.Covers name) (h : (name, c) ∈ cases) :
    lib.writtenName style name = lib.readName style name := by
  have hname : style.Covers name := hcovers name (hnames ▸ List.mem_map_of_mem h)
  have hwritten : Renames lib.writtenName := Documented.writtenName
  have hread : Renames lib.readName := Documented.readName
  rw [hwritten.eq_apply hname, hread.eq_apply hname]

end Names

/-! ### Cases -/

/-- What a value is encoded with is one of the cases, from which it is made again. -/
inductive Found (cases : List (String × JsonCase α)) (a : α) : ℕ → String × Option Json → Prop where
  | unit {levels : ℕ} {name : String} (h : (name, .unit a) ∈ cases) :
    Found cases a levels (name, none)
  | content {levels : ℕ} {name : String} {v : Json} {make : Json → Option α}
    (h : (name, .content make) ∈ cases) (hmake : make v = some a) (hv : Written levels v) :
    Found cases a (levels + 1) (name, some v)

lemma lawful_choice [Declared α] {style : NameStyle} {form : JsonLibrary → α → String × Option Json}
    {cases : JsonLibrary → List (String × JsonCase α)} (names : List String)
    (hcodec : ∀ lib, Declared.codec lib = lib.choice style (form lib) (cases lib))
    (hnames : ∀ lib, (cases lib).map (·.1) = names)
    (hcovers : ∀ name ∈ names, style.Covers name) (hdistinct : (names.map style.apply).Nodup)
    (hform : ∀ (lib : JsonLibrary) [lib.Documented] a, Found (cases lib) a levels (form lib a)) :
    Lawful α levels := by
  refine ⟨fun lib _ a => ?_, fun lib _ a => ?_⟩
  all_goals
    rw [encode, hcodec]
    have hfound := hform lib a
    generalize hvalue : form lib a = value at hfound
  · have hread : ((cases lib).map fun c => lib.readName style c.1).Nodup :=
      nodup_readName (hnames lib) hcovers hdistinct
    rw [decode, hcodec]
    cases hfound with
    | unit h =>
      rw [Documented.encode_choice_unit style (form lib) (cases lib) a _ hvalue,
        writtenName_eq_readName (hnames lib) hcovers h]
      exact Documented.decode_choice_unit style (form lib) (cases lib) _ a hread h
    | content h hmake hv =>
      rw [Documented.encode_choice_content style (form lib) (cases lib) a _ _ hvalue,
        writtenName_eq_readName (hnames lib) hcovers h,
        Documented.decode_choice_content style (form lib) (cases lib) _ _ _ hread h, hmake]
  · cases hfound with
    | unit h =>
      rw [Documented.encode_choice_unit style (form lib) (cases lib) a _ hvalue]
      exact .text _
    | content h hmake hv =>
      rw [Documented.encode_choice_content style (form lib) (cases lib) a _ _ hvalue]
      exact .object (by simpa using hv)

/-- The cases of a type of names are told apart by them. -/
lemma lawful_names [Declared α] {style : NameStyle} {all : List α} {name : α → String}
    (hcodec : ∀ lib, Declared.codec lib = lib.names style all name := by exact fun _ => rfl)
    (hall : ∀ a, a ∈ all := by intro a; cases a <;> decide)
    (hcovers : ∀ n ∈ all.map name, style.Covers n := by decide)
    (hdistinct : ((all.map name).map style.apply).Nodup := by decide) : Lawful α 0 :=
  lawful_choice (all.map name) hcodec (fun _ => by rw [List.map_map]; rfl) hcovers hdistinct
    fun _ _ a => .unit (List.mem_map_of_mem (hall a))

/-! ### Records -/

variable {names : List String} {values : List Json} {name : String} {v : Json}
  {members : List (String × Json)}

lemma hasOnce_of_mem (hnames : (members.map (·.1)).Nodup) (h : (name, v) ∈ members) :
    HasOnce members name v := by
  unfold HasOnce
  induction members with
  | nil => cases h
  | cons m others ih =>
    rw [List.map_cons, List.nodup_cons] at hnames
    obtain ⟨hm, hothers⟩ := hnames
    rcases List.mem_cons.mp h with rfl | h
    · rw [List.filter_cons_of_pos (by simp)]
      refine congrArg _ (List.filter_eq_nil_iff.mpr fun other hother hsame => hm ?_)
      exact List.mem_map.mpr ⟨other, hother, by simpa using hsame⟩
    · have hne : m.1 ≠ name := by
        rintro rfl
        exact hm (List.mem_map.mpr ⟨_, h, rfl⟩)
      rw [List.filter_cons_of_neg (by simpa using hne)]
      exact ih hothers h

lemma hasOnce_zip (hnames : names.Nodup) (hlength : values.length = names.length) :
    List.Forall₂ (HasOnce (names.zip values)) names values := by
  rw [List.forall₂_iff_zip]
  refine ⟨hlength.symm, fun hmem => hasOnce_of_mem ?_ hmem⟩
  have hkeys : (names.zip values).map (·.1) = names := List.map_fst_zip hlength.ge
  rwa [hkeys]

/-- A record is read back from its fields, if their types are lawful. -/
lemma lawful_record [Declared α] {names : List String} {values : JsonLibrary → α → List Json}
    {make : JsonLibrary → List Json → Option α}
    (hcodec : ∀ lib, Declared.codec lib = lib.record names (values lib) (make lib) := by
      exact fun _ => rfl)
    (hnames : names.Nodup := by decide)
    (hlength : ∀ lib a, (values lib a).length = names.length := by exact fun _ _ => rfl)
    (hvalues : ∀ (lib : JsonLibrary) [lib.Documented] a, make lib (values lib a) = some a := by
      intro _ _ _; simp)
    (hwritten : ∀ (lib : JsonLibrary) [lib.Documented] a, ∀ v ∈ values lib a, Written levels v := by
      intro _ _ _; simp [written_encode]) : Lawful α (levels + 1) := by
  have hencode : ∀ (lib : JsonLibrary) [lib.Documented] (a : α),
      encode lib a = .ofMembers (names.zip (values lib a)) := fun lib _ a => by
    rw [encode, hcodec]
    exact Documented.encode_record names (values lib) (make lib) a
  refine ⟨fun lib _ a => ?_, fun lib _ a => ?_⟩
  · rw [hencode, decode, hcodec, Documented.decode_record names (values lib) (make lib) _ _
      (hasOnce_zip hnames (hlength lib a)), hvalues lib a]
  · rw [hencode]
    exact .object fun m hm => hwritten lib a m.2 (List.of_mem_zip hm).2

/-! ### Cases with fields -/

/-- What a value is encoded with are the fields of one of the cases, from which it is made again. -/
structure FoundFields (tag : String) (levels : ℕ)
    (cases : List (String × List String × (List Json → Option α))) (a : α)
    (form : String × List (String × Json)) : Prop where
  exists_case : ∃ make, (form.1, form.2.map (·.1), make) ∈ cases ∧ make (form.2.map (·.2)) = some a
  nodup : (tag :: form.2.map (·.1)).Nodup
  written : ∀ field ∈ form.2, Written levels field.2

section Tagged

variable [Declared α] {tag : String} {style : NameStyle}
  {form : JsonLibrary → α → String × List (String × Json)}
  {cases : JsonLibrary → List (String × List String × (List Json → Option α))}

lemma encode_of_tagged
    (hcodec : ∀ lib, Declared.codec lib = lib.tagged tag style (form lib) (cases lib)) (a : α) :
    encode lib a =
      .ofMembers ((tag, .text (lib.writtenName style (form lib a).1)) :: (form lib a).2) := by
  rw [encode, hcodec]
  exact Documented.encode_tagged tag style (form lib) (cases lib) a _ _ rfl

lemma lawful_tagged (names : List String)
    (hcodec : ∀ lib, Declared.codec lib = lib.tagged tag style (form lib) (cases lib))
    (hnames : ∀ lib, (cases lib).map (·.1) = names)
    (hcovers : ∀ name ∈ names, style.Covers name) (hdistinct : (names.map style.apply).Nodup)
    (hform : ∀ (lib : JsonLibrary) [lib.Documented] a,
      FoundFields tag levels (cases lib) a (form lib a)) : Lawful α (levels + 1) := by
  have hwritten : ∀ (lib : JsonLibrary) [lib.Documented] (a : α),
      Written (levels + 1) (encode lib a) := fun lib _ a => by
    rw [encode_of_tagged hcodec]
    exact .object (List.forall_mem_cons.mpr ⟨.text _, (hform lib a).written⟩)
  refine ⟨fun lib _ a => ?_, hwritten⟩
  obtain ⟨⟨make, hcase, hmake⟩, hnodup, -⟩ := hform lib a
  have hread : ((cases lib).map fun c => lib.readName style c.1).Nodup :=
    nodup_readName (hnames lib) hcovers hdistinct
  have hform := hwritten lib a
  rw [encode_of_tagged hcodec, writtenName_eq_readName (hnames lib) hcovers hcase] at hform ⊢
  rw [decode, hcodec, Documented.decode_tagged tag style (form lib) (cases lib) _ _ _ _ _ _ hread
    hcase (List.nodup_cons.mp hnodup).1 hform, hmake]
  · exact hasOnce_of_mem (by simpa using hnodup) List.mem_cons_self
  · rw [List.forall₂_map_left_iff, List.forall₂_map_right_iff, List.forall₂_same]
    exact fun field hfield =>
      hasOnce_of_mem (by simpa using hnodup) (List.mem_cons_of_mem _ hfield)

end Tagged

end PerpExchange
