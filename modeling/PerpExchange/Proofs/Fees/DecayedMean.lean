import PerpExchange.Proofs.Fees.Strategy
import PerpExchange.Proofs.Number.Decimal

/-!
The mean in which a sample counts half for every half-life of age.

Whatever the weights are, a mean lies between the smallest fee and the largest. The arithmetic rounds
each product and each total, and over `2 ^ 24` samples that adds up to less than half a unit of the
mean, which the last rounding takes away. What can fail is a single weight: where the arithmetic has
no power for the age of a sample, there is no fee.
-/

namespace PerpExchange

variable {low high f : ℕ} {δ exact fees weights w p fees' weights' q : ℚ}

lemma RoundedTo.le {x y : ℚ} (h : RoundedTo x y) (hx : 0 ≤ x) : y ≤ x + (1 + x) / 10 ^ 28 := by
  have hnear := (abs_le.mp h.near).2
  rw [abs_of_nonneg hx] at hnear
  linarith

lemma RoundedTo.ge {x y : ℚ} (h : RoundedTo x y) (hx : 0 ≤ x) : x - (1 + x) / 10 ^ 28 ≤ y := by
  have hnear := (abs_le.mp h.near).1
  rw [abs_of_nonneg hx] at hnear
  linarith

lemma scaled_le {n : ℕ} {x y r : ℚ} (hn : (n : ℚ) ≤ 2 ^ 64) (hr : 0 ≤ r) (h : x ≤ y + r) :
    n * x ≤ n * y + 2 ^ 64 * r :=
  calc (n : ℚ) * x ≤ n * (y + r) := mul_le_mul_of_nonneg_left h n.cast_nonneg
    _ = n * y + n * r := mul_add _ _ _
    _ ≤ n * y + 2 ^ 64 * r := add_le_add_right (mul_le_mul_of_nonneg_right hn hr) _

/-- The whole number nearest to the mean is between the fees. -/
lemma RoundedTo.floor_mem {mean : ℚ} (hq : RoundedTo mean q) (hmean : 0 ≤ mean)
    (hlow : (low : ℚ) - 3 / 10 ≤ mean) (hhigh : mean ≤ high + 3 / 10) (hlimit : high < 2 ^ 64) :
    (low : ℤ) ≤ ⌊q + 1 / 2⌋ ∧ ⌊q + 1 / 2⌋ ≤ high := by
  have hlimit' : (high : ℚ) ≤ 2 ^ 64 := by exact_mod_cast hlimit.le
  have hle := hq.le hmean
  have hge := hq.ge hmean
  constructor
  · rw [Int.le_floor]
    push_cast
    linarith
  · rw [← Int.lt_add_one_iff, Int.floor_lt]
    push_cast
    linarith

/-- What is known of the totals of samples with fees from `low` to `high`, and with weights that
would add up to `exact`. The totals are off by no more than a part `δ`. -/
structure Totals (low high : ℕ) (δ exact fees weights : ℚ) : Prop where
  exact_nonneg : 0 ≤ exact
  fees_nonneg : 0 ≤ fees
  weights_nonneg : 0 ≤ weights
  weights_le : weights ≤ exact + δ * (1 + exact)
  le_weights : exact ≤ weights + δ * (1 + exact)
  low_le : low * weights ≤ fees + δ * 2 ^ 64 * (1 + exact)
  le_high : fees ≤ high * weights + δ * 2 ^ 64 * (1 + exact)

namespace Totals

lemma fees_le (h : Totals low high δ exact fees weights) (hδ : δ ≤ 1 / 100) (hhigh : high < 2 ^ 64) :
    fees ≤ 2 ^ 64 * (103 / 100) * (1 + exact) := by
  have hhigh' : (high : ℚ) ≤ 2 ^ 64 := by exact_mod_cast hhigh.le
  have hbound := mul_le_mul_of_nonneg_right hhigh' h.weights_nonneg
  have hpart := mul_le_mul_of_nonneg_right hδ (by linarith [h.exact_nonneg] : 0 ≤ 1 + exact)
  linarith [h.le_high, h.weights_le, h.exact_nonneg]

/-- One sample more adds less than `4 / 10 ^ 28` to what the totals are off by. -/
lemma step (h : Totals low high δ exact fees weights) (hδ₀ : 0 ≤ δ) (hδ : δ ≤ 1 / 100)
    (hlow : low ≤ f) (hhigh : f ≤ high) (hlimit : high < 2 ^ 64) (hw₀ : 0 ≤ w)
    (hp : RoundedTo (w * f) p) (hfees : RoundedTo (fees + p) fees')
    (hweights : RoundedTo (weights + w) weights') :
    Totals low high (δ + 4 / 10 ^ 28) (exact + w) fees' weights' := by
  obtain ⟨hexact, hfees₀, hweights₀, hle, hge, hlowle, hlehigh⟩ := id h
  have hroom := h.fees_le hδ hlimit
  have hf₀ : (0 : ℚ) ≤ f := f.cast_nonneg
  have hhigh' : (high : ℚ) ≤ 2 ^ 64 := by exact_mod_cast hlimit.le
  have hf : (f : ℚ) ≤ high := by exact_mod_cast hhigh
  have hlow' : (low : ℚ) ≤ f := by exact_mod_cast hlow
  have hproduct₀ : 0 ≤ w * f := mul_nonneg hw₀ hf₀
  have hproduct : w * f ≤ w * 2 ^ 64 := mul_le_mul_of_nonneg_left (hf.trans hhigh') hw₀
  have hlowproduct : w * low ≤ w * f := mul_le_mul_of_nonneg_left hlow' hw₀
  have hhighproduct : w * f ≤ w * high := mul_le_mul_of_nonneg_left hf hw₀
  have hp₀ := hp.nonneg hproduct₀
  have hgrown : 0 ≤ δ * w := mul_nonneg hδ₀ hw₀
  have hpart : δ * (1 + exact) ≤ 1 / 100 * (1 + exact) :=
    mul_le_mul_of_nonneg_right hδ (by linarith)
  have hsum₀ : 0 ≤ weights + w := add_nonneg hweights₀ hw₀
  have htop := hweights.le hsum₀
  have hbottom := hweights.ge hsum₀
  -- what the rounding of the weights makes of the bounds on the fees
  have hoff : 0 ≤ (1 + (weights + w)) / 10 ^ 28 := by positivity
  have hlowtop := scaled_le (hlow'.trans (hf.trans hhigh')) hoff htop
  have hhighbottom := scaled_le hhigh' hoff (sub_le_iff_le_add.mp hbottom)
  have hple := hp.le hproduct₀
  have hpge := hp.ge hproduct₀
  have hfeesle := hfees.le (add_nonneg hfees₀ hp₀)
  have hfeesge := hfees.ge (add_nonneg hfees₀ hp₀)
  refine ⟨add_nonneg hexact hw₀, hfees.nonneg (add_nonneg hfees₀ hp₀), hweights.nonneg hsum₀,
    ?_, ?_, ?_, ?_⟩
  · linarith
  · linarith
  · linarith
  · linarith

lemma mean_bounds (h : Totals low high δ exact fees weights) (hδ : δ * 2 ^ 64 ≤ 1 / 8) (hδ₀ : 0 ≤ δ)
    (hexact : 1 ≤ exact) :
    0 < weights ∧ (low : ℚ) - 3 / 10 ≤ fees / weights ∧ fees / weights ≤ high + 3 / 10 := by
  have hdouble : δ * (1 + exact) ≤ δ * (2 * exact) := by gcongr; linarith
  have hsmall : δ * 2 ^ 64 * exact ≤ 1 / 8 * exact := by gcongr
  have hweights : exact ≤ 101 / 100 * weights := by linarith [h.le_weights]
  have hpos : 0 < weights := by linarith
  rw [le_div_iff₀ hpos, div_le_iff₀ hpos]
  refine ⟨hpos, ?_, ?_⟩
  · linarith [h.low_le]
  · linarith [h.le_high]

end Totals

namespace FeeSample

variable {d : DecimalArithmetic} {value : d.Number → ℚ} {halfLife : UInt64} {first s : FeeSample}
  {samples : List FeeSample} {totals : d.Number × d.Number}

/-- There is a power of one half for the age of a sample in half-lives. -/
def Weighable (d : DecimalArithmetic) (halfLife : UInt64) (first s : FeeSample) : Prop :=
  ∃ halfLives power, d.div (d.ofUInt64 (first.slot - s.slot)) (d.ofUInt64 halfLife) = some halfLives ∧
    d.pow d.half halfLives = some power

lemma weighable_iff_isSome : Weighable d halfLife first s ↔
    ((d.div (d.ofUInt64 (first.slot - s.slot)) (d.ofUInt64 halfLife)).bind (d.pow d.half)).isSome := by
  simp only [Weighable, Option.isSome_iff_exists, Option.bind_eq_some_iff]
  rw [exists_comm]

instance : Decidable (Weighable d halfLife first s) := decidable_of_iff _ weighable_iff_isSome.symm

lemma exists_halfLives (h : d.Documented value) (hhalf : halfLife ≠ 0) (age : UInt64) :
    ∃ halfLives, d.div (d.ofUInt64 age) (d.ofUInt64 halfLife) = some halfLives ∧
      0 ≤ value halfLives ∧ (age = 0 → value halfLives = 0) := by
  have hpos : (1 : ℚ) ≤ halfLife.toNat := by
    have hne : halfLife.toNat ≠ 0 := fun hzero => hhalf (UInt64.toNat_inj.mp hzero)
    exact_mod_cast Nat.one_le_iff_ne_zero.mpr hne
  have hratio : (0 : ℚ) ≤ age.toNat / halfLife.toNat := by positivity
  have hroom : |value (d.ofUInt64 age) / value (d.ofUInt64 halfLife)| ≤ DecimalText.limit := by
    rw [h.value_ofUInt64, h.value_ofUInt64, abs_of_nonneg hratio, div_le_iff₀ (by linarith)]
    have hage : (age.toNat : ℚ) ≤ DecimalText.limit := by
      exact_mod_cast age.toNat_lt.le.trans (by decide)
    exact hage.trans (le_mul_of_one_le_right (by positivity) hpos)
  have hne : value (d.ofUInt64 halfLife) ≠ 0 := by
    rw [h.value_ofUInt64]
    linarith
  obtain ⟨halfLives, hdiv, hrounded⟩ := h.div _ _ hne hroom
  rw [h.value_ofUInt64, h.value_ofUInt64] at hrounded
  refine ⟨halfLives, hdiv, hrounded.nonneg hratio, ?_⟩
  rintro rfl
  have hzero : ((0 : UInt64).toNat : ℚ) / halfLife.toNat = 0 := by simp
  rw [hzero] at hrounded
  exact le_antisymm (hrounded.nonpos le_rfl) (hrounded.nonneg le_rfl)

lemma weight_eq_ok {halfLives power : d.Number}
    (hdiv : d.div (d.ofUInt64 (first.slot - s.slot)) (d.ofUInt64 halfLife) = some halfLives)
    (hpow : d.pow d.half halfLives = some power) :
    FeeSample.weight d halfLife first s = .ok power := by
  rw [weight, hdiv]
  simp [Failure.orStop, hpow]

lemma weight_of_weighable (h : d.Documented value) (hhalf : halfLife ≠ 0)
    (hs : Weighable d halfLife first s) :
    ∃ weight, FeeSample.weight d halfLife first s = .ok weight ∧
      0 ≤ value weight ∧ value weight ≤ 1 := by
  obtain ⟨halfLives, power, hdiv, hpow⟩ := hs
  obtain ⟨halfLives', hdiv', hnonneg, -⟩ := exists_halfLives h hhalf (first.slot - s.slot)
  cases hdiv.symm.trans hdiv'
  exact ⟨power, weight_eq_ok hdiv hpow, h.pow_half_mem halfLives power hnonneg hpow⟩

/-- The newest sample weighs one. -/
lemma weight_self (h : d.Documented value) (hhalf : halfLife ≠ 0) (s : FeeSample) :
    ∃ weight, FeeSample.weight d halfLife s s = .ok weight ∧ value weight = 1 := by
  obtain ⟨halfLives, hdiv, -, hzero⟩ := exists_halfLives h hhalf (s.slot - s.slot)
  obtain ⟨power, hpow, hone⟩ := h.pow_zero halfLives (hzero (UInt64.sub_self _))
  exact ⟨power, weight_eq_ok hdiv hpow, hone⟩

lemma weight_of_not_weighable (h : d.Documented value) (hhalf : halfLife ≠ 0)
    (hs : ¬Weighable d halfLife first s) :
    FeeSample.weight d halfLife first s = .error (.violation (.overflow "ewma weight")) := by
  obtain ⟨halfLives, hdiv, -⟩ := exists_halfLives h hhalf (first.slot - s.slot)
  have hpow : d.pow d.half halfLives = none := by
    by_contra hsome
    obtain ⟨power, hpower⟩ := Option.ne_none_iff_exists'.mp hsome
    exact hs ⟨halfLives, power, hdiv, hpower⟩
  rw [weight, hdiv]
  simp only [Failure.orStop, ok_bind, hpow]

lemma weighable_self (h : d.Documented value) (hhalf : halfLife ≠ 0) (s : FeeSample) :
    Weighable d halfLife s s := by
  by_contra hnot
  obtain ⟨weight, hweight, -⟩ := weight_self h hhalf s
  rw [weight_of_not_weighable h hhalf hnot] at hweight
  cases hweight

def TotalsOf (value : d.Number → ℚ) (low high count : ℕ) (exact : ℚ) (totals : d.Number × d.Number) :
    Prop :=
  Totals low high (4 * count / 10 ^ 28) exact (value totals.1) (value totals.2) ∧ exact ≤ count

lemma addWeighted_cons (h : d.Documented value) {weight : d.Number} {count : ℕ}
    (hweight : FeeSample.weight d halfLife first s = .ok weight) (hw₀ : 0 ≤ value weight)
    (hw : value weight ≤ 1) (htotals : TotalsOf value low high count exact totals)
    (hcount : count ≤ 2 ^ 24) (hlow : low ≤ s.fee.toNat) (hhigh : s.fee.toNat ≤ high)
    (hlimit : high < 2 ^ 64) (rest : List FeeSample) :
    ∃ totals', addWeighted d halfLife first totals (s :: rest) =
        addWeighted d halfLife first totals' rest ∧
      TotalsOf value low high (count + 1) (exact + value weight) totals' := by
  obtain ⟨htotals, hexact⟩ := htotals
  have hcount' : (count : ℚ) ≤ 2 ^ 24 := by exact_mod_cast hcount
  have hδ₀ : (0 : ℚ) ≤ 4 * count / 10 ^ 28 := by positivity
  have hδ : (4 : ℚ) * count / 10 ^ 28 ≤ 1 / 100 := by linarith
  have hroom : (2 : ℚ) ^ 90 ≤ DecimalText.limit := by norm_num [DecimalText.limit]
  have hfee : (s.fee.toNat : ℚ) ≤ 2 ^ 64 := by exact_mod_cast s.fee.toNat_lt.le
  have hproduct₀ : 0 ≤ value weight * (s.fee.toNat : ℚ) := by positivity
  have hproduct : value weight * (s.fee.toNat : ℚ) ≤ 2 ^ 64 :=
    (mul_le_of_le_one_left (by positivity) hw).trans hfee
  obtain ⟨fee, hmul, hfeeRounded⟩ := h.mul weight (d.ofUInt64 s.fee) (by
    rw [h.value_ofUInt64, abs_of_nonneg hproduct₀]
    linarith)
  rw [h.value_ofUInt64] at hfeeRounded
  have hfee₀ := hfeeRounded.nonneg hproduct₀
  have hfees := htotals.fees_le hδ hlimit
  have hle := hfeeRounded.le hproduct₀
  obtain ⟨fees, hfeesAdd, hfeesRounded⟩ := h.add totals.1 fee (by
    rw [abs_of_nonneg (add_nonneg htotals.fees_nonneg hfee₀)]
    linarith)
  obtain ⟨weights, hweightsAdd, hweightsRounded⟩ := h.add totals.2 weight (by
    rw [abs_of_nonneg (add_nonneg htotals.weights_nonneg hw₀)]
    have := mul_le_mul_of_nonneg_right hδ (by linarith [htotals.exact_nonneg] : 0 ≤ 1 + exact)
    linarith [htotals.weights_le])
  have hstep := htotals.step hδ₀ hδ hlow hhigh hlimit hw₀ hfeeRounded hfeesRounded hweightsRounded
  have hgrown : (4 : ℚ) * count / 10 ^ 28 + 4 / 10 ^ 28 = 4 * (count + 1 : ℕ) / 10 ^ 28 := by
    push_cast
    ring
  rw [hgrown] at hstep
  refine ⟨(fees, weights), ?_, hstep, by push_cast; linarith⟩
  obtain ⟨totals₁, totals₂⟩ := totals
  simp only [addWeighted, hweight, hmul, hfeesAdd, hweightsAdd, Failure.orStop, ok_bind]

lemma addWeighted_of_weighable (h : d.Documented value) (hhalf : halfLife ≠ 0) {count : ℕ}
    (htotals : TotalsOf value low high count exact totals)
    (hlength : count + samples.length ≤ 2 ^ 24) (hlimit : high < 2 ^ 64)
    (hbounds : ∀ s ∈ samples, low ≤ s.fee.toNat ∧ s.fee.toNat ≤ high)
    (hweighable : ∀ s ∈ samples, Weighable d halfLife first s) :
    ∃ totals' exact', addWeighted d halfLife first totals samples = .ok totals' ∧ exact ≤ exact' ∧
      TotalsOf value low high (count + samples.length) exact' totals' := by
  induction samples generalizing totals count exact with
  | nil => exact ⟨totals, exact, rfl, le_rfl, htotals⟩
  | cons s rest ih =>
    obtain ⟨hs, hrest⟩ := List.forall_mem_cons.mp hweighable
    obtain ⟨⟨hlow, hhigh⟩, hrestBounds⟩ := List.forall_mem_cons.mp hbounds
    rw [List.length_cons] at hlength
    obtain ⟨weight, hweight, hw₀, hw⟩ := weight_of_weighable h hhalf hs
    obtain ⟨totals', hcons, htotals'⟩ :=
      addWeighted_cons h hweight hw₀ hw htotals (by omega) hlow hhigh hlimit rest
    obtain ⟨totals'', exact'', hrun, hle, htotals''⟩ :=
      ih htotals' (by omega) hrestBounds hrest
    rw [List.length_cons, Nat.add_comm rest.length, ← Nat.add_assoc]
    exact ⟨totals'', exact'', hcons.trans hrun, by linarith, htotals''⟩

/-- One sample without a weight is enough. -/
lemma addWeighted_of_not_weighable (h : d.Documented value) (hhalf : halfLife ≠ 0) {count : ℕ}
    (htotals : TotalsOf value low high count exact totals)
    (hlength : count + samples.length ≤ 2 ^ 24) (hlimit : high < 2 ^ 64)
    (hbounds : ∀ s ∈ samples, low ≤ s.fee.toNat ∧ s.fee.toNat ≤ high)
    (hweight : ∃ s ∈ samples, ¬Weighable d halfLife first s) :
    addWeighted d halfLife first totals samples = .error (.violation (.overflow "ewma weight")) := by
  induction samples generalizing totals count exact with
  | nil => simp at hweight
  | cons s rest ih =>
    obtain ⟨⟨hlow, hhigh⟩, hrestBounds⟩ := List.forall_mem_cons.mp hbounds
    rw [List.length_cons] at hlength
    by_cases hs : Weighable d halfLife first s
    · obtain ⟨weight, hweight', hw₀, hw⟩ := weight_of_weighable h hhalf hs
      obtain ⟨totals', hcons, htotals'⟩ :=
        addWeighted_cons h hweight' hw₀ hw htotals (by omega) hlow hhigh hlimit rest
      have hrest : ∃ t ∈ rest, ¬Weighable d halfLife first t := by simpa [hs] using hweight
      rw [hcons]
      exact ih htotals' (by omega) hrestBounds hrest
    · obtain ⟨totals₁, totals₂⟩ := totals
      rw [addWeighted, weight_of_not_weighable h hhalf hs]
      rfl

lemma totalsOf_zero (h : d.Documented value) (low high : ℕ) :
    TotalsOf value low high 0 0 (d.zero, d.zero) := by
  refine ⟨⟨le_rfl, ?_, ?_, ?_, ?_, ?_, ?_⟩, by simp⟩ <;> simp [h.value_zero]

end FeeSample

namespace FeeStrategy

open FeeSample

variable {d : DecimalArithmetic} {value : d.Number → ℚ} {halfLife : UInt64} {first : FeeSample}
  {older : List FeeSample}

lemma fee_ewma_of_totals {totals : d.Number × d.Number} (hhalf : halfLife ≠ 0)
    (horder : NewestFirst (first :: older))
    (htotals : addWeighted d halfLife first (d.zero, d.zero) (first :: older) = .ok totals)
    (hweights : d.isZero totals.2 = false) {mean : d.Number} {fee : UInt64}
    (hmean : d.div totals.1 totals.2 = some mean) (hfee : d.toUInt64? (d.round mean) = some fee) :
    (FeeStrategy.ewma halfLife).fee d (first :: older) = .ok fee.toNat := by
  have hguard : Refusal.guard (halfLife ≠ 0) .halfLifeZero = .ok () := Refusal.guard_eq_ok.mpr hhalf
  obtain ⟨fees, weights⟩ := totals
  simp [FeeStrategy.fee, decayedMean, hguard, liftM_newest horder, htotals, hweights, hmean, hfee,
    Failure.orStop]

/-- Where every sample has a weight, there is a fee, within any bounds on the samples. -/
lemma exists_fee_ewma (h : d.Documented value) (hhalf : halfLife ≠ 0)
    (horder : NewestFirst (first :: older)) (hlength : (first :: older).length ≤ 2 ^ 24)
    (hweighable : ∀ s ∈ first :: older, Weighable d halfLife first s) (hlimit : high < 2 ^ 64)
    (hbounds : ∀ s ∈ first :: older, low ≤ s.fee.toNat ∧ s.fee.toNat ≤ high) :
    ∃ fee, (FeeStrategy.ewma halfLife).fee d (first :: older) = .ok fee ∧ low ≤ fee ∧ fee ≤ high := by
  obtain ⟨⟨hlow, hhigh⟩, holder⟩ := List.forall_mem_cons.mp hbounds
  rw [List.length_cons] at hlength
  obtain ⟨weight, hweight, hone⟩ := weight_self h hhalf first
  obtain ⟨newest, hcons, hnewest⟩ := addWeighted_cons h hweight (by simp [hone]) hone.le
    (totalsOf_zero h low high) (by norm_num) hlow hhigh hlimit older
  obtain ⟨totals, exact, hrun, hexact, htotals, -⟩ := addWeighted_of_weighable h hhalf hnewest
    (by omega) hlimit holder fun s hs => hweighable s (List.mem_cons_of_mem _ hs)
  rw [hone, zero_add] at hexact
  have hcount : ((0 + 1 + older.length : ℕ) : ℚ) ≤ 2 ^ 24 := by
    exact_mod_cast (by omega : 0 + 1 + older.length ≤ 2 ^ 24)
  generalize (0 + 1 + older.length : ℕ) = count at hcount htotals
  have hδ₀ : (0 : ℚ) ≤ 4 * count / 10 ^ 28 := by positivity
  have hδ : (4 : ℚ) * count / 10 ^ 28 * 2 ^ 64 ≤ 1 / 8 := by linarith
  obtain ⟨hpos, hlowMean, hhighMean⟩ := htotals.mean_bounds hδ hδ₀ hexact
  have hratio := div_nonneg htotals.fees_nonneg hpos.le
  obtain ⟨mean, hmean, hrounded⟩ := h.div totals.1 totals.2 hpos.ne' (by
    have hlimit' : (high : ℚ) ≤ 2 ^ 64 := by exact_mod_cast hlimit.le
    have hroom : (2 : ℚ) ^ 65 ≤ DecimalText.limit := by norm_num [DecimalText.limit]
    rw [abs_of_nonneg hratio]
    linarith)
  obtain ⟨hlowFee, hhighFee⟩ := hrounded.floor_mem hratio hlowMean hhighMean hlimit
  obtain ⟨fee, hfee⟩ := Int.eq_ofNat_of_zero_le ((Int.natCast_nonneg low).trans hlowFee)
  rw [hfee] at hlowFee hhighFee
  have hfits : fee < 2 ^ 64 := by omega
  have hround : d.toUInt64? (d.round mean) = some (UInt64.ofNat fee) := by
    apply h.toUInt64?_eq_some
    rw [h.value_round mean (hrounded.nonneg hratio), hfee, UInt64.toNat_ofNat_of_lt' hfits]
    rfl
  have hzero : d.isZero totals.2 = false := by
    rw [← Bool.not_eq_true, h.isZero_iff]
    exact hpos.ne'
  have htotal := hcons.trans hrun
  refine ⟨_, fee_ewma_of_totals hhalf horder htotal hzero hmean hround, ?_⟩
  rw [UInt64.toNat_ofNat_of_lt' hfits]
  omega

lemma maxFee_lt (samples : List FeeSample) : maxFee samples < 2 ^ 64 := by
  rcases eq_or_ne samples [] with rfl | hne
  · simp [maxFee]
  · obtain ⟨s, -, hs⟩ := maxFee_mem hne
    exact hs ▸ s.fee.toNat_lt

lemma fee_ewma_of_weighable (h : d.Documented value) (hhalf : halfLife ≠ 0)
    (horder : NewestFirst (first :: older)) (hlength : (first :: older).length ≤ 2 ^ 24)
    (hweighable : ∀ s ∈ first :: older, Weighable d halfLife first s) :
    ∃ fee, (FeeStrategy.ewma halfLife).fee d (first :: older) = .ok fee ∧
      Between (first :: older) fee := by
  -- the same fee, whatever bounds it is compared with
  have hwithin : ∀ low high, high < 2 ^ 64 →
      (∀ s ∈ first :: older, low ≤ s.fee.toNat ∧ s.fee.toNat ≤ high) → _ :=
    fun _ _ => exists_fee_ewma h hhalf horder hlength hweighable
  obtain ⟨fee, hfee, -⟩ := hwithin 0 (maxFee (first :: older)) (maxFee_lt _) fun s hs =>
    ⟨Nat.zero_le _, le_maxFee hs⟩
  refine ⟨fee, hfee, between_of_bounds nofun (fun bound hbound => ?_) fun bound hbound => ?_⟩
  · obtain ⟨fee', hfee', hle, -⟩ := hwithin bound (maxFee (first :: older)) (maxFee_lt _)
      fun s hs => ⟨hbound s hs, le_maxFee hs⟩
    cases hfee.symm.trans hfee'
    exact hle
  · obtain ⟨fee', hfee', -, hle⟩ := hwithin 0 (min bound (2 ^ 64 - 1)) (by omega)
      fun s hs => ⟨Nat.zero_le _, le_min (hbound s hs) (Nat.le_sub_one_of_lt s.fee.toNat_lt)⟩
    cases hfee.symm.trans hfee'
    exact hle.trans (min_le_left _ _)

lemma fee_ewma_of_not_weighable (h : d.Documented value) (hhalf : halfLife ≠ 0)
    (horder : NewestFirst (first :: older)) (hlength : (first :: older).length ≤ 2 ^ 24)
    (hweight : ∃ s ∈ first :: older, ¬Weighable d halfLife first s) :
    (FeeStrategy.ewma halfLife).fee d (first :: older) =
      .error (.violation (.overflow "ewma weight")) := by
  have hguard : Refusal.guard (halfLife ≠ 0) .halfLifeZero = .ok () := Refusal.guard_eq_ok.mpr hhalf
  have htotals := addWeighted_of_not_weighable h hhalf (totalsOf_zero h 0 (2 ^ 64 - 1)) (by omega)
    (by norm_num)
    (fun s _ => ⟨Nat.zero_le _, Nat.le_sub_one_of_lt s.fee.toNat_lt⟩) hweight
  simp only [FeeStrategy.fee, decayedMean, hguard, liftM_newest horder, ok_bind, htotals]
  rfl

/-- **The decayed mean is a mean.** For samples in order and a half-life that is not zero, there is a
fee, and it lies between the smallest and the largest, exactly if one half has a power for the age of
each sample. Otherwise the computation of a weight overflows. -/
theorem ewma_is_mean_iff (h : d.Documented value) (hhalf : halfLife ≠ 0)
    (horder : NewestFirst (first :: older)) (hlength : (first :: older).length ≤ 2 ^ 24) :
    ((∃ fee, (FeeStrategy.ewma halfLife).fee d (first :: older) = .ok fee ∧
        Between (first :: older) fee) ↔
      ∀ s ∈ first :: older, Weighable d halfLife first s) ∧
      ((∃ s ∈ first :: older, ¬Weighable d halfLife first s) →
        (FeeStrategy.ewma halfLife).fee d (first :: older) =
          .error (.violation (.overflow "ewma weight"))) := by
  refine ⟨⟨?_, fee_ewma_of_weighable h hhalf horder hlength⟩,
    fee_ewma_of_not_weighable h hhalf horder hlength⟩
  rintro ⟨fee, hfee, -⟩
  by_contra hall
  push Not at hall
  rw [fee_ewma_of_not_weighable h hhalf horder hlength hall] at hfee
  cases hfee

/-- Two samples with the same fee, ninety-seven half-lives apart: the older one counts for nothing. -/
theorem ewma_is_mean_iff_old :
    ∃ fee, (FeeStrategy.ewma 2).fee Decimal96.arithmetic [⟨194, 500⟩, ⟨0, 500⟩] = .ok fee ∧
      Between [⟨194, 500⟩, ⟨0, 500⟩] fee ∧ fee = 500 := by
  have horder : NewestFirst [⟨194, 500⟩, ⟨0, 500⟩] := by simp [NewestFirst]
  have hweighable :
      ∀ s ∈ [⟨194, 500⟩, ⟨0, 500⟩], Weighable Decimal96.arithmetic 2 ⟨194, 500⟩ s := by
    have hnewest := weighable_self Decimal96.arithmetic_documented (by decide : (2 : UInt64) ≠ 0)
      ⟨194, 500⟩
    have hold : Weighable Decimal96.arithmetic 2 ⟨194, 500⟩ ⟨0, 500⟩ := by decide +kernel
    simp [hnewest, hold]
  obtain ⟨fee, hfee, hbetween⟩ := (ewma_is_mean_iff Decimal96.arithmetic_documented (by decide) horder
    (by simp)).1.mpr hweighable
  obtain ⟨⟨s, hs, hle⟩, t, ht, hge⟩ := id hbetween
  refine ⟨fee, hfee, hbetween, ?_⟩
  simp at hs ht
  rcases hs with rfl | rfl <;> rcases ht with rfl | rfl <;> exact le_antisymm hge hle

/-- Half a half-life less, and there is no fee. -/
theorem ewma_fails_between_half_lives :
    Decimal96.arithmetic.Documented Decimal96.value ∧
      NewestFirst [⟨193, 500⟩, ⟨0, 500⟩] ∧
      (FeeStrategy.ewma 2).fee Decimal96.arithmetic [⟨193, 500⟩, ⟨0, 500⟩] =
        .error (.violation (.overflow "ewma weight")) := by
  refine ⟨Decimal96.arithmetic_documented, by simp [NewestFirst], ?_⟩
  decide +kernel

end FeeStrategy

end PerpExchange
