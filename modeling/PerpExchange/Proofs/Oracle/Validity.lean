import PerpExchange.Oracle.Rails
import PerpExchange.Proofs.Number.Fixed

/-!
Verdicts on oracle readings, from the worst to the best.

A reading is judged by tests in a fixed order, and its verdict is that of the first test it fails. A
reading of the same price that is more certain, fresher and better supported passes every test that
the other one passes. So it fails none earlier, whatever the rails are.
-/

namespace PerpExchange

/-- The place of a verdict in the order of the tests. The best one is last. -/
def OracleValidity.rank : OracleValidity → ℕ
  | .invalid => 0
  | .tooVolatile => 1
  | .tooUncertain => 2
  | .staleForMargin => 3
  | .insufficientDataPoints => 4
  | .staleForAmm => 5
  | .valid => 6

/-- A verdict is at most another one if its test comes no later. -/
instance : LE OracleValidity := ⟨fun v w => v.rank ≤ w.rank⟩

instance : DecidableLE OracleValidity := fun v w => inferInstanceAs (Decidable (v.rank ≤ w.rank))

namespace OracleValidity

variable {v w : OracleValidity}

lemma le_def : v ≤ w ↔ v.rank ≤ w.rank := Iff.rfl

lemma eq_of_rank_eq (h : v.rank = w.rank) : v = w := by
  cases v <;> cases w <;> first | rfl | cases h

lemma ne_valid_of_lt (h : v.rank < w.rank) : v ≠ .valid := by
  rintro rfl
  cases w <;> simp [rank] at h

lemma isValidForMargin_iff : v.isValidForMargin = true ↔ insufficientDataPoints ≤ v := by
  cases v <;> decide

lemma isValidForAmm_iff : v.isValidForAmm = true ↔ valid ≤ v := by
  cases v <;> decide

end OracleValidity

/-- A reading of the same price that is no more certain than the other one, no fresher and no better
supported. -/
structure OracleReading.NoBetter (worse better : OracleReading) : Prop where
  price_eq : worse.price = better.price
  confidence_le : better.confidence ≤ worse.confidence
  delay_le : better.delay ≤ worse.delay
  supported : worse.hasEnoughDataPoints = true → better.hasEnoughDataPoints = true

namespace ValidityRails

variable {rails : ValidityRails} {reading worse better : OracleReading} {average : Price}
  {v w : OracleValidity}

/-- The test that a verdict is given for is failed. The best verdict is given for none. -/
def Fails (rails : ValidityRails) (reading : OracleReading) (average : Price) :
    OracleValidity → Prop
  | .invalid => reading.price.raw ≤ 0
  | .tooVolatile => rails.isTooVolatile reading.price average = .ok true
  | .tooUncertain =>
    rails.maxConfidence.raw < (reading.confidence.raw * 10 ^ 6).tdiv reading.price.raw
  | .staleForMargin => rails.slotsBeforeStaleForMargin < reading.delay
  | .insufficientDataPoints => reading.hasEnoughDataPoints = false
  | .staleForAmm => rails.slotsBeforeStaleForAmm < reading.delay
  | .valid => False

def Passes (rails : ValidityRails) (reading : OracleReading) (average : Price)
    (v : OracleValidity) : Prop :=
  ∀ w : OracleValidity, w.rank < v.rank → ¬rails.Fails reading average w

lemma passes_invalid : rails.Passes reading average .invalid := fun w hw =>
  absurd hw (Nat.not_lt_zero w.rank)

lemma Passes.next (h : rails.Passes reading average v) (hv : ¬rails.Fails reading average v)
    (hnext : w.rank = v.rank + 1) : rails.Passes reading average w := by
  intro u hu
  rcases (Nat.lt_succ_iff.mp (hnext ▸ hu)).lt_or_eq with hbefore | hsame
  · exact h u hbefore
  · rwa [OracleValidity.eq_of_rank_eq hsame]

structure FirstFailed (rails : ValidityRails) (reading : OracleReading) (average : Price)
    (v : OracleValidity) : Prop where
  passed : rails.Passes reading average v
  failed : v ≠ .valid → rails.Fails reading average v

lemma firstFailed_of_judge (h : rails.judge reading average = .ok v) :
    rails.FirstFailed reading average v := by
  -- test by test: a failed one gives its verdict at once, a passed one is kept for the next
  by_cases hprice : reading.price.raw ≤ 0
  · rw [judge, if_pos hprice] at h
    cases h
    exact ⟨passes_invalid, fun _ => hprice⟩
  rw [judge, if_neg hprice] at h
  have hpriced : rails.Passes reading average .tooVolatile := passes_invalid.next hprice rfl
  obtain ⟨volatile, hvolatile, h⟩ := bind_eq_ok.mp h
  cases volatile with
  | true =>
    cases h
    exact ⟨hpriced, fun _ => hvolatile⟩
  | false =>
    have hcalm : rails.Passes reading average .tooUncertain :=
      hpriced.next (fun hfar => by cases hvolatile.symm.trans hfar) rfl
    obtain ⟨confidence, hconfidence, h⟩ := bind_eq_ok.mp h
    rw [Fixed.divTo_eq_ok (p := .price) (q := .price) (r := .percentage) (n := 6) rfl
      (by norm_num)] at hconfidence
    obtain ⟨-, -, hconfidence⟩ := hconfidence
    simp only [Fixed.lt_def, hconfidence] at h
    split at h
    · next huncertain =>
      cases h
      exact ⟨hcalm, fun _ => huncertain⟩
    next huncertain =>
    have hcertain : rails.Passes reading average .staleForMargin := hcalm.next huncertain rfl
    split at h
    · next hmargin =>
      cases h
      exact ⟨hcertain, fun _ => hmargin⟩
    next hmargin =>
    have hfresh : rails.Passes reading average .insufficientDataPoints := hcertain.next hmargin rfl
    split at h
    · next hpoints =>
      cases h
      exact ⟨hfresh, fun _ => Bool.not_eq_true _ |>.mp hpoints⟩
    next hpoints =>
    have henough : rails.Passes reading average .staleForAmm :=
      hfresh.next (fun hfew => hpoints (Bool.not_eq_true _ |>.mpr hfew)) rfl
    split at h
    · next hamm =>
      cases h
      exact ⟨henough, fun _ => hamm⟩
    · next hamm =>
      cases h
      exact ⟨henough.next hamm rfl, fun hbest => absurd rfl hbest⟩

/-- A better reading fails no test that the other one passes. -/
lemma Fails.of_noBetter (h : worse.NoBetter better) (hprice : 0 < better.price.raw)
    (hfails : rails.Fails better average v) : rails.Fails worse average v := by
  cases v with
  | invalid => exact absurd hprice (not_lt.mpr hfails)
  | tooVolatile =>
    show rails.isTooVolatile worse.price average = .ok true
    rw [h.price_eq]
    exact hfails
  | tooUncertain =>
    show _ < (worse.confidence.raw * 10 ^ 6).tdiv worse.price.raw
    rw [h.price_eq]
    refine lt_of_lt_of_le hfails (Int.tdiv_le_tdiv hprice ?_)
    exact mul_le_mul_of_nonneg_right h.confidence_le (by norm_num)
  | staleForMargin => exact Int64.lt_of_lt_of_le hfails h.delay_le
  | insufficientDataPoints =>
    show worse.hasEnoughDataPoints = false
    by_contra henough
    have := h.supported (by simpa using henough)
    exact absurd hfails (by simp [Fails, this])
  | staleForAmm => exact Int64.lt_of_lt_of_le hfails h.delay_le
  | valid => exact hfails

lemma judge_le (h : worse.NoBetter better) (hworse : rails.judge worse average = .ok w)
    (hbetter : rails.judge better average = .ok v) : w ≤ v := by
  obtain ⟨hpassed, -⟩ := firstFailed_of_judge hworse
  obtain ⟨-, hfailed⟩ := firstFailed_of_judge hbetter
  by_contra hlater
  rw [OracleValidity.le_def, not_le] at hlater
  have hfails := hfailed (OracleValidity.ne_valid_of_lt hlater)
  by_cases hprice : 0 < better.price.raw
  · exact hpassed v hlater (hfails.of_noBetter h hprice)
  · -- a price that is not positive is the first thing to fail for both
    refine hpassed .invalid (lt_of_le_of_lt (Nat.zero_le _) hlater) ?_
    show worse.price.raw ≤ 0
    rw [h.price_eq]
    exact not_lt.mp hprice

lemma judge_succeeds (h : worse.NoBetter better) (hconfidence : 0 ≤ better.confidence.raw)
    (hworse : rails.judge worse average = .ok w) : ∃ v, rails.judge better average = .ok v := by
  unfold judge at hworse ⊢
  rw [h.price_eq] at hworse
  by_cases hprice : better.price.raw ≤ 0
  · rw [if_pos hprice]
    exact ⟨_, rfl⟩
  rw [if_neg hprice] at hworse ⊢
  obtain ⟨volatile, hvolatile, hworse⟩ := bind_eq_ok.mp hworse
  refine bind_succeeds ⟨volatile, hvolatile⟩ fun volatile' hvolatile' => ?_
  cases hvolatile.symm.trans hvolatile'
  cases volatile with
  | true => exact ⟨_, rfl⟩
  | false =>
    simp only [Bool.false_eq_true, if_false] at hworse ⊢
    obtain ⟨size, hsize, -⟩ := bind_eq_ok.mp hworse
    rw [Fixed.divTo_eq_ok (p := .price) (q := .price) (r := .percentage) (n := 6) rfl
      (by norm_num)] at hsize
    obtain ⟨hfits, -, -⟩ := hsize
    have hscaled : 0 ≤ better.confidence.raw * 10 ^ 6 := mul_nonneg hconfidence (by norm_num)
    have hscaled_le : better.confidence.raw * 10 ^ 6 ≤ worse.confidence.raw * 10 ^ 6 :=
      mul_le_mul_of_nonneg_right h.confidence_le (by norm_num)
    refine bind_succeeds (Fixed.divTo_succeeds (n := 6) rfl (by norm_num) hconfidence
      (Int128.fits_of_nonneg_of_le hfits hscaled hscaled_le) (not_le.mp hprice)) fun _ _ => ?_
    split_ifs <;> exact ⟨_, rfl⟩

/-- **Verdicts only degrade.** A reading that is no better than another one of the same price gets
no better verdict, and is not accepted for margin or for the pool where the other one is refused. A
better reading whose confidence is not negative can be judged wherever the worse one can. -/
theorem judge_degrades (rails : ValidityRails) (average : Price) (h : worse.NoBetter better) :
    (∀ v w, rails.judge better average = .ok v → rails.judge worse average = .ok w →
      w ≤ v ∧ (w.isValidForMargin = true → v.isValidForMargin = true) ∧
        (w.isValidForAmm = true → v.isValidForAmm = true)) ∧
      (0 ≤ better.confidence.raw → ∀ w, rails.judge worse average = .ok w →
        ∃ v, rails.judge better average = .ok v) := by
  refine ⟨fun v w hbetter hworse => ?_, fun hconfidence w hworse =>
    judge_succeeds h hconfidence hworse⟩
  have hle : w ≤ v := judge_le h hworse hbetter
  refine ⟨hle, fun hmargin => ?_, fun hamm => ?_⟩
  · rw [OracleValidity.isValidForMargin_iff] at hmargin ⊢
    exact Nat.le_trans hmargin hle
  · rw [OracleValidity.isValidForAmm_iff] at hamm ⊢
    exact Nat.le_trans hamm hle

end ValidityRails

def OracleReading.late : OracleReading := { OracleReading.of Fixed.one with delay := 50 }

/-- A reading as late that is uncertain by more than a percent and has too few data points. -/
def OracleReading.lateAndThin : OracleReading :=
  { OracleReading.late with confidence := .ofRaw 13000, hasEnoughDataPoints := false }

/-- Rails under which the pool would use older readings than margins do. -/
theorem ValidityRails.judge_degrades_thin :
    let rails : ValidityRails := { ValidityRails.standard with slotsBeforeStaleForAmm := 200 }
    OracleReading.lateAndThin.NoBetter .late ∧
      rails.judge .late Fixed.one = .ok .valid ∧
      rails.judge .lateAndThin Fixed.one = .ok .insufficientDataPoints ∧
      OracleValidity.insufficientDataPoints ≤ .valid ∧
      OracleValidity.valid.isValidForMargin = true := by
  intro rails
  have hworse : OracleReading.lateAndThin.NoBetter .late :=
    ⟨rfl, by decide, by decide, by decide⟩
  have hlate : rails.judge .late Fixed.one = .ok .valid := by decide +kernel
  have hthin : rails.judge .lateAndThin Fixed.one = .ok .insufficientDataPoints := by decide +kernel
  obtain ⟨hdegrades, -⟩ := ValidityRails.judge_degrades rails Fixed.one hworse
  obtain ⟨hle, hmargin, -⟩ := hdegrades _ _ hlate hthin
  exact ⟨hworse, hlate, hthin, hle, hmargin rfl⟩

end PerpExchange
