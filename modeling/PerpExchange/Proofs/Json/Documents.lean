import PerpExchange.Json.Kind
import PerpExchange.Proofs.Json.Codec
import PerpExchange.Proofs.Json.Standard

/-!
Documents that are written and read.

Every type with a JSON form is lawful. So the text of any document reads as what it holds, and a text
that was accepted in another form is the same document once it is written.
-/

namespace PerpExchange

/-! ### Types with one field -/

instance {p : Precision} : Lawful (Fixed p) 0 := lawful_transparent (fun _ => rfl) fun _ => rfl

instance : Lawful MarketIndex 0 := lawful_transparent (fun _ => rfl) fun _ => rfl

instance : Lawful AccountId 0 := lawful_transparent (fun _ => rfl) fun _ => rfl

instance : Lawful Timestamp 0 := lawful_transparent (fun _ => rfl) fun _ => rfl

/-! ### Cases -/

instance : Lawful Direction 0 := lawful_names

instance : Lawful SwapDirection 0 := lawful_names

instance : Lawful MarginKind 0 := lawful_names

instance : Lawful BalanceSide 0 := lawful_names

instance : Lawful MarketStatus 0 := lawful_names

instance : Lawful AccountStatus 0 := lawful_names

instance : Lawful OracleValidity 0 := lawful_names

instance : Lawful PositionChange 0 := lawful_names

instance : Lawful NoFill 0 := lawful_names

instance : Lawful NoLiquidation 0 := lawful_names

instance : Lawful Environment 0 := lawful_names

/-! ### Markets -/

instance : Lawful TokenAmount 1 := lawful_record

instance : Lawful Amm 1 := lawful_record

instance : Lawful PoolBalance 1 := lawful_record

instance : Lawful PerpMarket 2 := lawful_record

instance : Lawful SpotMarket 1 := lawful_record

/-! ### Oracles -/

instance : Lawful OracleReading 1 := lawful_record

instance : Lawful DivergenceRails 1 := lawful_record

instance : Lawful ValidityRails 1 := lawful_record

instance : Lawful OracleRails 2 := lawful_record

/-! ### Positions and accounts -/

instance : Lawful PerpPosition 1 := lawful_record

instance : Lawful PositionDelta 1 := lawful_record

instance : Lawful SpotPosition 1 := lawful_record

instance : Lawful Account 3 := lawful_record

/-! ### Orders and margins -/

instance : Lawful OrderPrice 1 :=
  lawful_choice ["Market", "Limit", "OracleOffset"] (fun _ => rfl) (fun _ => rfl) (by decide)
    (by decide) fun lib _ a => by
    cases a with
    | market => exact .unit (.head _)
    | limit price =>
      exact .content (.tail _ (.head _)) (by simp) (Lawful.written lib price)
    | oracleOffset offset =>
      exact .content (.tail _ (.tail _ (.head _))) (by simp) (Lawful.written lib offset)

instance : Lawful Order 2 := lawful_record

instance : Lawful MarginTotal 1 := lawful_record

/-! ### Fees and settings -/

instance : Lawful FeeSample 1 := lawful_record

instance : Lawful FeeStrategy 1 :=
  lawful_tagged ["Average", "Max", "MaxOverSlots", "Ewma"] (fun _ => rfl) (fun _ => rfl) (by decide)
    (by decide) fun lib _ a => by
    cases a with
    | average => exact ⟨⟨_, .head _, rfl⟩, by simp, by simp⟩
    | max => exact ⟨⟨_, .tail _ (.head _), rfl⟩, by simp, by simp⟩
    | maxOverSlots lookback =>
      exact ⟨⟨_, .tail _ (.tail _ (.head _)), by simp⟩, by simp, by simp [written_encode]⟩
    | ewma halfLife =>
      exact ⟨⟨_, .tail _ (.tail _ (.tail _ (.head _))), by simp⟩, by simp, by simp [written_encode]⟩

instance : Lawful FeePolicy 2 := lawful_record

instance : Lawful LiquidationCaps 1 := lawful_record

instance : Lawful Config 3 := lawful_record

namespace DocumentKind

/-- Every kind of document is lawful, and no document nests deeper than settings do. -/
instance lawful (k : DocumentKind) : Lawful k.Value 3 := by
  cases k <;>
  · dsimp only [Value, declared]
    exact Lawful.mono inferInstance (by decide)

variable {lib : JsonLibrary} [lib.Documented]

lemma write_eq (k : DocumentKind) (v : k.Value) : k.write lib v = .ofList (encode lib v).render :=
  JsonLibrary.Documented.print_eq 3 _ (Lawful.written lib v) (by norm_num)

lemma read?_write (k : DocumentKind) (v : k.Value) : k.read? lib (k.write lib v) = some v := by
  have hparse : lib.parse? (.ofList (encode lib v).render) = some (encode lib v) :=
    JsonLibrary.Documented.parse?_eq 3 _ (Lawful.written lib v) (by norm_num)
  rw [write_eq, read?, hparse, Option.bind_some, decode_encode]

lemma toString_eq_integerChars (n : ℤ) :
    toString n = .ofList (Json.integerChars (decide (n < 0)) n.natAbs) := by
  cases n with
  | ofNat m =>
    have hsign : decide (Int.ofNat m < 0) = false := decide_eq_false (by simp)
    rw [hsign]
    rfl
  | negSucc m =>
    have hsign : decide (Int.negSucc m < 0) = true := decide_eq_true (Int.negSucc_lt_zero m)
    rw [hsign, Json.integerChars, String.ofList_append]
    rfl

lemma ofList_render_ofInt (n : ℤ) : String.ofList (Json.ofInt n).render = toString n := by
  rw [Json.ofInt, Json.render_integer, toString_eq_integerChars]

/-- A number is written with its digits and nothing else. -/
lemma write_fixed {p : Precision} (x : Fixed p) : (fixed p).write lib x = toString x.raw := by
  have hencode : encode lib x = .ofInt x.raw :=
    (encode_of_transparent (fun _ => rfl) x).trans
      (encode_of_number (fun _ => rfl) le_rfl x.toInt128.fits_kind)
  refine (write_eq (fixed p) x).trans ?_
  rw [← ofList_render_ofInt]
  exact congrArg (fun v => String.ofList (Json.render v)) hencode

lemma ofList_render_maxOverSlots (v : Json) :
    String.ofList (Json.ofMembers [("type", .text "maxOverSlots"), ("lookback_slots", v)]).render =
      "\x7b\"type\":\"maxOverSlots\",\"lookback_slots\":" ++ .ofList v.render ++ "\x7d" := by
  have hhead : "\x7b\"type\":\"maxOverSlots\",\"lookback_slots\":".toList =
      '\x7b' :: (Json.quoted "type" ++ ':' :: (Json.quoted "maxOverSlots" ++
        ',' :: (Json.quoted "lookback_slots" ++ [':']))) := by decide
  rw [← String.toList_inj]
  simp only [String.toList_append, String.toList_ofList, hhead]
  simp [Json.ofMembers, Json.render, Json.renderMembers]

/-- The type comes first, and of the names only that of the type is changed. -/
lemma write_maxOverSlots (lookback : UInt64) :
    feeStrategy.write lib (.maxOverSlots lookback) =
      "\x7b\"type\":\"maxOverSlots\",\"lookback_slots\":" ++ toString (lookback.toNat : ℤ) ++
        "\x7d" := by
  have hrenames : Renames lib.writtenName := JsonLibrary.Documented.writtenName
  have hname : lib.writtenName .camelCase "MaxOverSlots" = "maxOverSlots" :=
    hrenames.eq_apply (by decide)
  have hcount : encode lib lookback = .ofInt lookback.toNat :=
    encode_of_number (a := lookback) (fun _ => rfl) (by norm_num) (fits_uint64 lookback)
  have hencode : encode lib (FeeStrategy.maxOverSlots lookback) =
      .ofMembers [("type", .text "maxOverSlots"), ("lookback_slots", .ofInt lookback.toNat)] := by
    rw [encode_of_tagged (fun _ => rfl)]
    simp only [hname, hcount]
  refine (write_eq feeStrategy (.maxOverSlots lookback)).trans ?_
  refine (congrArg (fun v => String.ofList (Json.render v)) hencode).trans ?_
  rw [ofList_render_maxOverSlots, ofList_render_ofInt]

/-- **Documents survive being written and read.** The text of a document reads as what it holds, and
a text that was read says the same once it is written in the one form that documents have. -/
theorem read?_write_exact (lib : JsonLibrary) [lib.Documented] (k : DocumentKind) :
    (∀ v : k.Value, k.read? lib (k.write lib v) = some v) ∧
      ∀ text, (k.normalize? lib text).bind (k.read? lib) = k.read? lib text := by
  refine ⟨k.read?_write, fun text => ?_⟩
  rw [normalize?]
  cases k.read? lib text with
  | none => rfl
  | some v => exact k.read?_write v

/-- A strategy whose type comes last, with blanks, and the text that it is written as. -/
theorem read?_write_exact_type_last :
    let given := "\x7b \"lookback_slots\": 1, \"type\": \"maxOverSlots\" \x7d"
    let written := "\x7b\"type\":\"maxOverSlots\",\"lookback_slots\":1\x7d"
    feeStrategy.normalize? .standard given = some written ∧
      feeStrategy.read? .standard written = some (.maxOverSlots 1) ∧
      feeStrategy.read? .standard given = some (.maxOverSlots 1) := by
  intro given written
  have hwritten : feeStrategy.write .standard (.maxOverSlots 1) = written := write_maxOverSlots 1
  have hgiven : feeStrategy.normalize? .standard given = some written := by decide +kernel
  obtain ⟨hread, hnormal⟩ := read?_write_exact .standard feeStrategy
  have hread := hread (.maxOverSlots 1)
  rw [hwritten] at hread
  refine ⟨hgiven, hread, ?_⟩
  rw [← hnormal given, hgiven, Option.bind_some, hread]

end DocumentKind

end PerpExchange
