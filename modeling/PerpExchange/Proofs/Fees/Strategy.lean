import Mathlib.Algebra.Order.Floor.Semifield
import Mathlib.Data.List.Chain
import Mathlib.Data.Rat.Floor
import Mathlib.Order.Bounds.Defs
import Mathlib.Tactic.Linarith
import PerpExchange.Fees.Strategy
import PerpExchange.Number.Decimal96
import PerpExchange.Proofs.Checked

/-!
The fees that the strategies without weights make of recent samples.

They refuse the lists that are empty or out of order, and no other. On a list in order the mean lies
between the smallest fee and the largest, and the largest fee of a window is that of all samples in
it: the slots fall, so that no sample behind the first old one is recent.
-/

namespace PerpExchange

namespace FeeSample

variable {samples older : List FeeSample} {s first : FeeSample} {index fee oldest : ℕ}

/-! ### Order -/

/-- Each sample is of a slot before that of the sample in front of it. -/
def NewestFirst (samples : List FeeSample) : Prop := samples.IsChain fun a b => b.slot < a.slot

/-- The sample behind this index is not of a slot before that of the sample at it. -/
def Disordered (samples : List FeeSample) (index : ℕ) : Prop :=
  ∃ a b, samples[index]? = some a ∧ samples[index + 1]? = some b ∧ a.slot ≤ b.slot

lemma NewestFirst.pairwise (h : NewestFirst samples) :
    samples.Pairwise fun a b => b.slot < a.slot :=
  have : IsTrans FeeSample fun a b => b.slot < a.slot := ⟨fun _ _ _ hab hbc => UInt64.lt_trans hbc hab⟩
  List.isChain_iff_pairwise.mp h

lemma outOfOrder?_eq_none_iff : outOfOrder? samples = none ↔ NewestFirst samples := by
  fun_induction outOfOrder? samples with
  | case1 a b rest hle => simp [NewestFirst, hle]
  | case2 a b rest hlt ih => simpa [NewestFirst, UInt64.not_le.mp hlt] using ih
  | case3 samples hshort =>
    rcases samples with _ | ⟨a, _ | ⟨b, rest⟩⟩
    · simp [NewestFirst]
    · simp [NewestFirst]
    · exact absurd rfl (hshort a b rest)

lemma isLeast_of_outOfOrder? (h : outOfOrder? samples = some index) :
    ∃ i, IsLeast {i | Disordered samples i} i ∧ index = i + 1 := by
  fun_induction outOfOrder? samples generalizing index with
  | case1 a b rest hle =>
    cases h
    exact ⟨0, ⟨⟨a, b, rfl, rfl, hle⟩, fun _ _ => Nat.zero_le _⟩, rfl⟩
  | case2 a b rest hlt ih =>
    obtain ⟨j, hj, rfl⟩ := Option.map_eq_some_iff.mp h
    obtain ⟨i, ⟨hmem, hleast⟩, rfl⟩ := ih hj
    refine ⟨i + 1, ⟨hmem, ?_⟩, rfl⟩
    rintro (_ | k) ⟨c, d, hc, hd, hle⟩
    · cases hc
      cases hd
      exact absurd hle hlt
    · exact Nat.succ_le_succ (hleast ⟨c, d, hc, hd, hle⟩)
  | case3 => cases h

lemma not_disordered (h : NewestFirst samples) (i : ℕ) : ¬Disordered samples i := by
  rintro ⟨a, b, ha, hb, hle⟩
  obtain ⟨hi, rfl⟩ := List.getElem?_eq_some_iff.mp hb
  obtain ⟨_, rfl⟩ := List.getElem?_eq_some_iff.mp ha
  exact UInt64.not_le.mpr (List.isChain_iff_getElem.mp h i hi) hle

/-- The index that is reported is that of the first sample out of order. -/
lemma outOfOrder?_eq_some_iff :
    outOfOrder? samples = some index ↔ ∃ i, IsLeast {i | Disordered samples i} i ∧ index = i + 1 := by
  refine ⟨isLeast_of_outOfOrder?, ?_⟩
  rintro ⟨i, hi, rfl⟩
  cases hj : outOfOrder? samples with
  | none => exact absurd hi.1 (not_disordered (outOfOrder?_eq_none_iff.mp hj) i)
  | some j =>
    obtain ⟨i', hi', rfl⟩ := isLeast_of_outOfOrder? hj
    rw [hi.unique hi']

lemma newest_eq_ok_iff :
    newest samples = .ok s ↔ ∃ older, samples = s :: older ∧ NewestFirst samples := by
  cases samples with
  | nil => simp [newest]
  | cons a rest =>
    rw [← outOfOrder?_eq_none_iff, newest]
    cases outOfOrder? (a :: rest) <;> simp

lemma newest_eq_noSamples_iff : newest samples = .error .noSamples ↔ samples = [] := by
  cases samples with
  | nil => simp [newest]
  | cons a rest =>
    rw [newest]
    cases outOfOrder? (a :: rest) <;> simp

lemma newest_eq_samplesOutOfOrder_iff :
    newest samples = .error (.samplesOutOfOrder index) ↔
      ∃ i, IsLeast {i | Disordered samples i} i ∧ index = i + 1 := by
  rw [← outOfOrder?_eq_some_iff]
  cases samples with
  | nil => simp [newest, outOfOrder?]
  | cons a rest =>
    rw [newest]
    cases outOfOrder? (a :: rest) <;> simp

/-! ### Fees between the smallest and the largest -/

/-- A sample has this fee or less, and a sample has it or more. -/
def Between (samples : List FeeSample) (fee : ℕ) : Prop :=
  (∃ s ∈ samples, s.fee.toNat ≤ fee) ∧ ∃ s ∈ samples, fee ≤ s.fee.toNat

/-- A fee that keeps to every bound on all samples is between them. -/
lemma between_of_bounds (hne : samples ≠ [])
    (hlow : ∀ bound, (∀ s ∈ samples, bound ≤ s.fee.toNat) → bound ≤ fee)
    (hhigh : ∀ bound, (∀ s ∈ samples, s.fee.toNat ≤ bound) → fee ≤ bound) :
    Between samples fee := by
  constructor
  · by_contra hall
    push Not at hall
    exact absurd (hlow (fee + 1) hall) (by omega)
  · by_contra hall
    push Not at hall
    obtain ⟨s, hs⟩ := List.exists_mem_of_ne_nil samples hne
    have hpos := hall s hs
    exact absurd (hhigh (fee - 1) fun t ht => Nat.le_sub_one_of_lt (hall t ht)) (by omega)

lemma le_totalFee {bound : ℕ} (h : ∀ s ∈ samples, bound ≤ s.fee.toNat) :
    bound * samples.length ≤ totalFee samples := by
  induction samples with
  | nil => rfl
  | cons s rest ih =>
    have := ih fun t ht => h t (List.mem_cons_of_mem _ ht)
    have := h s List.mem_cons_self
    rw [totalFee, List.length_cons]
    linarith

lemma totalFee_le {bound : ℕ} (h : ∀ s ∈ samples, s.fee.toNat ≤ bound) :
    totalFee samples ≤ bound * samples.length := by
  induction samples with
  | nil => rfl
  | cons s rest ih =>
    have := ih fun t ht => h t (List.mem_cons_of_mem _ ht)
    have := h s List.mem_cons_self
    rw [totalFee, List.length_cons]
    linarith

def mean (samples : List FeeSample) : ℚ :=
  (samples.map fun s => (s.fee.toNat : ℚ)).sum / samples.length

lemma cast_totalFee (samples : List FeeSample) :
    (totalFee samples : ℚ) = (samples.map fun s => (s.fee.toNat : ℚ)).sum := by
  induction samples with
  | nil => rfl
  | cons s rest ih => simp [totalFee, ih]

lemma floor_mean (samples : List FeeSample) :
    ⌊mean samples⌋₊ = totalFee samples / samples.length := by
  rw [mean, ← cast_totalFee, Nat.floor_div_eq_div]

lemma between_mean (hne : samples ≠ []) : Between samples (totalFee samples / samples.length) := by
  have hlength : 0 < samples.length := List.length_pos_iff.mpr hne
  refine between_of_bounds hne (fun bound h => ?_) fun bound h => ?_
  · exact (Nat.le_div_iff_mul_le hlength).mpr (le_totalFee h)
  · exact Nat.div_le_of_le_mul ((totalFee_le h).trans_eq (Nat.mul_comm _ _))

/-! ### The largest fee -/

def feesSince (oldest : ℕ) (samples : List FeeSample) : Set ℕ :=
  {fee | ∃ s ∈ samples, oldest ≤ s.slot.toNat ∧ s.fee.toNat = fee}

lemma feesSince_subset {earlier : ℕ} (hle : earlier ≤ oldest) :
    feesSince oldest samples ⊆ feesSince earlier samples :=
  fun _ ⟨s, hs, hslot, hfee⟩ => ⟨s, hs, hle.trans hslot, hfee⟩

/-- Every sample is recent if the last one is. -/
lemma feesSince_eq_of_le_last {last : FeeSample} (h : NewestFirst samples)
    (hlast : samples.getLast? = some last) (hle : oldest ≤ last.slot.toNat) :
    feesSince oldest samples = feesSince 0 samples := by
  refine (feesSince_subset (Nat.zero_le oldest)).antisymm ?_
  rintro _ ⟨s, hs, -, rfl⟩
  refine ⟨s, hs, hle.trans ?_, rfl⟩
  obtain ⟨front, rfl⟩ := List.getLast?_eq_some_iff.mp hlast
  rcases List.mem_append.mp hs with hfront | hs
  · have hlt := (List.pairwise_append.mp h.pairwise).2.2 s hfront last (by simp)
    exact (UInt64.lt_iff_toNat_lt.mp hlt).le
  · rw [List.mem_singleton.mp hs]

lemma le_maxFee (h : s ∈ samples) : s.fee.toNat ≤ maxFee samples := by
  induction samples with
  | nil => cases h
  | cons a rest ih =>
    rcases List.mem_cons.mp h with rfl | h
    · exact Nat.le_max_left _ _
    · exact (ih h).trans (Nat.le_max_right _ _)

lemma maxFee_mem (hne : samples ≠ []) : ∃ s ∈ samples, s.fee.toNat = maxFee samples := by
  induction samples with
  | nil => exact absurd rfl hne
  | cons a rest ih =>
    rcases le_total (maxFee rest) a.fee.toNat with hle | hle
    · exact ⟨a, List.mem_cons_self, (Nat.max_eq_left hle).symm⟩
    · rcases eq_or_ne rest [] with rfl | hrest
      · exact ⟨a, List.mem_cons_self, (Nat.max_eq_left (Nat.zero_le _)).symm⟩
      · obtain ⟨s, hs, hfee⟩ := ih hrest
        exact ⟨s, List.mem_cons_of_mem _ hs, hfee.trans (Nat.max_eq_right hle).symm⟩

lemma isGreatest_maxFee (hne : samples ≠ []) : IsGreatest (feesSince 0 samples) (maxFee samples) := by
  obtain ⟨s, hs, hfee⟩ := maxFee_mem hne
  refine ⟨⟨s, hs, Nat.zero_le _, hfee⟩, ?_⟩
  rintro _ ⟨t, ht, -, rfl⟩
  exact le_maxFee ht

/-- Slots fall, so what comes up to the first old sample is everything that is not old. -/
lemma takeWhile_recent (h : NewestFirst samples) (oldest : ℕ) :
    samples.takeWhile (fun s => oldest ≤ s.slot.toNat) =
      samples.filter fun s => oldest ≤ s.slot.toNat := by
  induction samples with
  | nil => rfl
  | cons a rest ih =>
    obtain ⟨holder, hrest⟩ := List.pairwise_cons.mp h.pairwise
    by_cases ha : oldest ≤ a.slot.toNat
    · rw [List.takeWhile_cons_of_pos (by simpa using ha), List.filter_cons_of_pos (by simpa using ha),
        ih (List.isChain_of_isChain_cons h)]
    · rw [List.takeWhile_cons_of_neg (by simpa using ha), List.filter_cons_of_neg (by simpa using ha)]
      symm
      rw [List.filter_eq_nil_iff]
      intro b hb
      have := UInt64.lt_iff_toNat_lt.mp (holder b hb)
      simp
      omega

/-- The largest fee of a window that reaches back from the first sample. -/
lemma isGreatest_windowMax (h : NewestFirst (first :: older)) (holdest : oldest ≤ first.slot.toNat) :
    IsGreatest (feesSince oldest (first :: older))
      (maxFee ((first :: older).takeWhile fun s => oldest ≤ s.slot.toNat)) := by
  rw [takeWhile_recent h]
  have hset : feesSince 0 ((first :: older).filter fun s => oldest ≤ s.slot.toNat) =
      feesSince oldest (first :: older) := by
    ext fee
    simp [feesSince, and_assoc]
  rw [← hset]
  refine isGreatest_maxFee (List.ne_nil_of_mem (a := first) ?_)
  simp [holdest]

end FeeSample

namespace FeeStrategy

open FeeSample

variable (d : DecimalArithmetic) {strategy : FeeStrategy} {samples older : List FeeSample}
  {first : FeeSample}

lemma fee_eq_newest (hplain : ∀ halfLife, strategy ≠ .ewma halfLife) (samples : List FeeSample) :
    ∃ reduce : FeeSample → ℕ, strategy.fee d samples =
      (liftM (newest samples) : Except Failure FeeSample) >>= fun s => pure (reduce s) := by
  cases strategy with
  | average => exact ⟨_, rfl⟩
  | max => exact ⟨_, rfl⟩
  | maxOverSlots lookback => exact ⟨_, rfl⟩
  | ewma halfLife => exact absurd rfl (hplain halfLife)

/-- A strategy refuses exactly the lists of samples that are empty or out of order, and names the
first sample that is. -/
structure RefusesDisorder (strategy : FeeStrategy) (samples : List FeeSample) : Prop where
  accepts_iff : (∃ fee, strategy.fee d samples = .ok fee) ↔ samples ≠ [] ∧ NewestFirst samples
  noSamples_iff : strategy.fee d samples = .error (.refusal .noSamples) ↔ samples = []
  outOfOrder_iff : ∀ index, strategy.fee d samples = .error (.refusal (.samplesOutOfOrder index)) ↔
    ∃ i, IsLeast {i | Disordered samples i} i ∧ index = i + 1

lemma refusesDisorder (hplain : ∀ halfLife, strategy ≠ .ewma halfLife) (samples : List FeeSample) :
    strategy.RefusesDisorder d samples := by
  obtain ⟨reduce, hfee⟩ := fee_eq_newest d hplain samples
  have herror : ∀ e, strategy.fee d samples = .error (.refusal e) ↔ newest samples = .error e := by
    intro e
    rw [hfee]
    cases newest samples with
    | error e' =>
      constructor <;> intro h <;> cases h <;> rfl
    | ok s => constructor <;> intro h <;> cases h
  refine ⟨?_, ?_, fun index => ?_⟩
  · simp only [hfee, bind_eq_ok, Failure.liftM_refusal_eq_ok, pure_eq_ok, newest_eq_ok_iff]
    constructor
    · rintro ⟨fee, s, ⟨older, rfl, horder⟩, -⟩
      exact ⟨List.cons_ne_nil s older, horder⟩
    · rintro ⟨hne, horder⟩
      obtain ⟨s, older, rfl⟩ := List.exists_cons_of_ne_nil hne
      exact ⟨_, s, ⟨older, rfl, horder⟩, rfl⟩
  · rw [herror, newest_eq_noSamples_iff]
  · rw [herror, newest_eq_samplesOutOfOrder_iff]

/-- What the strategies make of a list in order, and how their fees compare. -/
structure OrderedFees (first : FeeSample) (older : List FeeSample) : Prop where
  average : ∃ fee, FeeStrategy.average.fee d (first :: older) = .ok fee ∧
    fee = ⌊mean (first :: older)⌋₊ ∧ Between (first :: older) fee
  max : ∃ fee, FeeStrategy.max.fee d (first :: older) = .ok fee ∧
    IsGreatest (feesSince 0 (first :: older)) fee
  /-- A window that would reach back before the first slot takes in all samples. -/
  window : ∀ lookback, ∃ fee, (FeeStrategy.maxOverSlots lookback).fee d (first :: older) = .ok fee ∧
    IsGreatest (feesSince (first.slot.toNat - lookback.toNat) (first :: older)) fee ∧
    first.fee.toNat ≤ fee
  window_mono : ∀ lookback longer fee more, lookback ≤ longer →
    (FeeStrategy.maxOverSlots lookback).fee d (first :: older) = .ok fee →
    (FeeStrategy.maxOverSlots longer).fee d (first :: older) = .ok more → fee ≤ more
  window_eq_max : ∀ lookback last, (first :: older).getLast? = some last →
    first.slot.toNat - last.slot.toNat ≤ lookback.toNat →
    (FeeStrategy.maxOverSlots lookback).fee d (first :: older) =
      FeeStrategy.max.fee d (first :: older)

lemma liftM_newest (h : NewestFirst (first :: older)) :
    (liftM (newest (first :: older)) : Except Failure FeeSample) = .ok first :=
  Failure.liftM_refusal_eq_ok.mpr (newest_eq_ok_iff.mpr ⟨older, rfl, h⟩)

lemma fee_average (h : NewestFirst (first :: older)) :
    FeeStrategy.average.fee d (first :: older) =
      .ok (totalFee (first :: older) / (first :: older).length) :=
  bind_eq_ok.mpr ⟨first, liftM_newest h, rfl⟩

lemma fee_max (h : NewestFirst (first :: older)) :
    FeeStrategy.max.fee d (first :: older) = .ok (maxFee (first :: older)) :=
  bind_eq_ok.mpr ⟨first, liftM_newest h, rfl⟩

lemma fee_window (h : NewestFirst (first :: older)) (lookback : UInt64) :
    ∃ fee, (FeeStrategy.maxOverSlots lookback).fee d (first :: older) = .ok fee ∧
      IsGreatest (feesSince (first.slot.toNat - lookback.toNat) (first :: older)) fee :=
  ⟨_, bind_eq_ok.mpr ⟨first, liftM_newest h, rfl⟩, isGreatest_windowMax h (Nat.sub_le _ _)⟩

lemma orderedFees (h : NewestFirst (first :: older)) : OrderedFees d first older where
  average := ⟨_, fee_average d h, (floor_mean _).symm, between_mean nofun⟩
  max := ⟨_, fee_max d h, isGreatest_maxFee nofun⟩
  window lookback := by
    obtain ⟨fee, hfee, hgreatest⟩ := fee_window d h lookback
    exact ⟨fee, hfee, hgreatest, hgreatest.2 ⟨first, List.mem_cons_self, Nat.sub_le _ _, rfl⟩⟩
  window_mono lookback longer fee more hle hfee hmore := by
    obtain ⟨fee', hfee', hgreatest⟩ := fee_window d h lookback
    obtain ⟨more', hmore', hgreatest'⟩ := fee_window d h longer
    cases hfee.symm.trans hfee'
    cases hmore.symm.trans hmore'
    have hle' := UInt64.le_iff_toNat_le.mp hle
    exact hgreatest.mono hgreatest' (feesSince_subset (by omega))
  window_eq_max lookback last hlast hle := by
    obtain ⟨fee, hfee, hgreatest⟩ := fee_window d h lookback
    rw [feesSince_eq_of_le_last h hlast (by omega)] at hgreatest
    rw [hfee, fee_max d h, hgreatest.unique (isGreatest_maxFee nofun)]

/-- **The strategies without weights are exact.** They refuse what is empty or out of order and
nothing else; the average is the mean rounded down, and the largest fee of a window is that of all
samples in it, grows with the window, and ends as the largest fee of all. -/
theorem plain_fees_exact (samples : List FeeSample) :
    (∀ strategy : FeeStrategy, (∀ halfLife, strategy ≠ .ewma halfLife) →
        strategy.RefusesDisorder d samples) ∧
      ∀ first older, samples = first :: older → NewestFirst samples → OrderedFees d first older := by
  refine ⟨fun strategy hplain => refusesDisorder d hplain samples, ?_⟩
  rintro first older rfl h
  exact orderedFees d h

/-- A window that stops between the second sample and the third, and one over all of them. -/
theorem plain_fees_exact_gap :
    let samples : List FeeSample := [⟨10, 100⟩, ⟨9, 200⟩, ⟨7, 601⟩]
    let d := Decimal96.arithmetic
    NewestFirst samples ∧ FeeStrategy.average.RefusesDisorder d samples ∧
      (FeeStrategy.maxOverSlots 2).fee d samples = .ok 200 ∧
      (FeeStrategy.maxOverSlots 3).fee d samples = FeeStrategy.max.fee d samples ∧
      ∃ fee, FeeStrategy.average.fee d samples = .ok fee ∧ fee = ⌊mean samples⌋₊ ∧ fee = 300 := by
  intro samples d
  have h : NewestFirst samples := by simp [NewestFirst, samples]
  obtain ⟨hrefuses, hordered⟩ := plain_fees_exact d samples
  have hfees := hordered ⟨10, 100⟩ [⟨9, 200⟩, ⟨7, 601⟩] rfl h
  obtain ⟨fee, hfee, hfloor, -⟩ := hfees.average
  refine ⟨h, hrefuses .average nofun, rfl, hfees.window_eq_max 3 ⟨7, 601⟩ rfl (by decide), fee, hfee,
    hfloor, ?_⟩
  cases hfee
  rfl

end FeeStrategy

end PerpExchange
