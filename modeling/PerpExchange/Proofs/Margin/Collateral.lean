import PerpExchange.Proofs.Margin.FaceValue

/-!
How the collateral of a deposit follows its balance.

The value of a deposit grows with the balance while its initial weight shrinks along the discount
curve. The exact product would only grow, since the curve follows the root of the size. The weight
has four decimals, though, and where a larger balance drops it by a unit the product falls. What is
lost that way is less than a unit of weight on the smaller value and two quote units, unless the
weight falls to nothing and takes all collateral with it.
-/

namespace PerpExchange

namespace SizeCurve

variable {size size' : BaseAmount} {imf : ImfFactor} {weight w w' : Weight}

lemma mul_fallDivisor_le (h : discount size imf weight = .ok w) (himf : 0 < imf.raw) :
    w.raw * fallDivisor imf size.raw ≤ fallDividend .weight := by
  have hpos := fallDivisor_pos himf.le size.raw
  rw [← Int.le_ediv_iff_mul_le hpos, raw_discount h himf]
  exact min_le_left _ _

lemma lt_mul_fallDivisor (h : discount size imf weight = .ok w) (himf : 0 < imf.raw)
    (hless : w.raw < weight.raw) :
    fallDividend .weight < (w.raw + 1) * fallDivisor imf size.raw := by
  have hraw := raw_discount h himf
  have hfalling : w.raw = fallDividend .weight / fallDivisor imf size.raw := by omega
  rw [hfalling]
  exact Int.lt_ediv_add_one_mul_self _ (fallDivisor_pos himf.le size.raw)

/-- A weight that drops by two units and more comes from a root that has grown by as large a factor,
and by some 100,000 for each unit above the first. -/
lemma root_gap (h : discount size imf weight = .ok w) (h' : discount size' imf weight = .ok w')
    (himf : 0 < imf.raw) (himf_lt : imf.raw < 10 ^ 6) (hweight : weight.raw ≤ 10 ^ 4)
    (hw' : 0 ≤ w'.raw) (hdrop : w'.raw + 2 ≤ w.raw) :
    w.raw * rootOf size.raw + 99000 * (w.raw - w'.raw - 1) ≤
      (w'.raw + 1) * rootOf size'.raw := by
  have hmost := discount_le h
  have hle := mul_fallDivisor_le h himf
  have hlt := lt_mul_fallDivisor h' himf (by omega)
  obtain ⟨r, hr⟩ : ∃ r, r = rootOf size.raw := ⟨_, rfl⟩
  obtain ⟨r', hr'⟩ : ∃ r', r' = rootOf size'.raw := ⟨_, rfl⟩
  have hdivisor : 10 ^ 11 + r * imf.raw - 10 ^ 5 ≤ 10 ^ 5 * fallDivisor imf size.raw := by
    rw [fallDivisor, ← hr]
    omega
  have hdivisor' : 10 ^ 5 * fallDivisor imf size'.raw ≤ 10 ^ 11 + r' * imf.raw := by
    rw [fallDivisor, ← hr']
    omega
  -- the two divisors against the one dividend
  have hcross : w.raw * (10 ^ 11 + r * imf.raw - 10 ^ 5) <
      (w'.raw + 1) * (10 ^ 11 + r' * imf.raw) := by
    calc w.raw * (10 ^ 11 + r * imf.raw - 10 ^ 5)
        ≤ w.raw * (10 ^ 5 * fallDivisor imf size.raw) :=
          mul_le_mul_of_nonneg_left hdivisor (by omega)
      _ = 10 ^ 5 * (w.raw * fallDivisor imf size.raw) := by ring
      _ ≤ 10 ^ 5 * fallDividend .weight := mul_le_mul_of_nonneg_left hle (by norm_num)
      _ < 10 ^ 5 * ((w'.raw + 1) * fallDivisor imf size'.raw) :=
          mul_lt_mul_of_pos_left hlt (by norm_num)
      _ = (w'.raw + 1) * (10 ^ 5 * fallDivisor imf size'.raw) := by ring
      _ ≤ (w'.raw + 1) * (10 ^ 11 + r' * imf.raw) :=
          mul_le_mul_of_nonneg_left hdivisor' (by omega)
  have hgrowth : 99 * 10 ^ 9 * (w.raw - w'.raw - 1) <
      imf.raw * ((w'.raw + 1) * r' - w.raw * r) := by
    have hexpand : imf.raw * ((w'.raw + 1) * r' - w.raw * r) =
        (w'.raw + 1) * (10 ^ 11 + r' * imf.raw) - w.raw * (10 ^ 11 + r * imf.raw - 10 ^ 5)
          + 10 ^ 11 * (w.raw - w'.raw - 1) - 10 ^ 5 * w.raw := by ring
    omega
  rw [← hr, ← hr']
  by_contra hless
  have hsmall : imf.raw * ((w'.raw + 1) * r' - w.raw * r) ≤
      imf.raw * (99000 * (w.raw - w'.raw - 1)) :=
    mul_le_mul_of_nonneg_left (by omega) himf.le
  have hbound : imf.raw * (99000 * (w.raw - w'.raw - 1)) ≤
      10 ^ 6 * (99000 * (w.raw - w'.raw - 1)) :=
    mul_le_mul_of_nonneg_right himf_lt.le (by omega)
  omega

end SizeCurve

/-- Of two sizes whose roots are apart like two weights, the larger makes up for all of the smaller
weight that is lost but one unit. -/
lemma size_gap {r r' s s' w w' : ℤ} (hr : 0 ≤ r) (hw' : 1 ≤ w') (hdrop : w' + 2 ≤ w)
    (hw : w ≤ 10 ^ 4) (hgap : w * r + 99000 * (w - w' - 1) ≤ (w' + 1) * r')
    (hs : s * 10 + 1 < (r + 1) * (r + 1)) (hs' : r' * r' ≤ s' * 10 + 1) :
    (s + 1) * (w - 1) ≤ s' * w' := by
  obtain ⟨j, hj⟩ : ∃ j, j = w - w' - 1 := ⟨_, rfl⟩
  obtain ⟨d, hd⟩ : ∃ d, d = r' - r := ⟨_, rfl⟩
  obtain rfl : w = w' + 1 + j := by omega
  obtain rfl : r' = r + d := by omega
  have hshare : j * (r + 99000) ≤ (w' + 1) * d := by linarith
  have hstep : 10 ≤ d := by
    by_contra hless
    have hfew : (w' + 1) * d ≤ (w' + 1) * 9 := mul_le_mul_of_nonneg_left (by omega) (by omega)
    have hmany : 1 * 99000 ≤ j * (r + 99000) :=
      mul_le_mul (by omega) (by omega) (by norm_num) (by omega)
    omega
  have hdouble : j * (r + 99000) ≤ 2 * (w' * d) := by
    have : d ≤ w' * d := le_mul_of_one_le_left (by omega) hw'
    linarith
  have hfar : w' * (2 * r + 10) ≤ j * (99003 * r + 494991) := by
    calc w' * (2 * r + 10) ≤ 10 ^ 4 * (2 * r + 10) :=
          mul_le_mul_of_nonneg_right (by omega) (by omega)
      _ ≤ 1 * (99003 * r + 494991) := by omega
      _ ≤ j * (99003 * r + 494991) := mul_le_mul_of_nonneg_right (by omega) (by omega)
  have hkey : w' * (2 * r + 10) + j * ((r + 1) * (r + 1) + 8) ≤ w' * (d * (2 * r + d)) := by
    calc w' * (2 * r + 10) + j * ((r + 1) * (r + 1) + 8)
        ≤ j * (99003 * r + 494991) + j * ((r + 1) * (r + 1) + 8) := by omega
      _ = j * (r + 99000) * (r + 5) := by ring
      _ ≤ 2 * (w' * d) * (r + 5) := mul_le_mul_of_nonneg_right hdouble (by omega)
      _ = w' * d * (2 * r + 10) := by ring
      _ ≤ w' * d * (2 * r + d) :=
          mul_le_mul_of_nonneg_left (by omega) (mul_nonneg (by omega) (by omega))
      _ = w' * (d * (2 * r + d)) := by ring
  have hlower : (s + 1) * 10 * (w' + j) ≤ ((r + 1) * (r + 1) + 8) * (w' + j) :=
    mul_le_mul_of_nonneg_right (by omega) (by omega)
  have hupper : ((r + d) * (r + d) - 1) * w' ≤ s' * 10 * w' :=
    mul_le_mul_of_nonneg_right (by omega) (by omega)
  have hexpand : ((r + d) * (r + d) - 1) * w' - ((r + 1) * (r + 1) + 8) * (w' + j) =
      w' * (d * (2 * r + d)) - (w' * (2 * r + 10) + j * ((r + 1) * (r + 1) + 8)) := by ring
  have hgoal : (w' + 1 + j - 1) = w' + j := by ring
  rw [hgoal]
  linarith

/-- If the larger weight falls to nothing, the larger size makes up for all of the smaller one. -/
lemma size_gap_of_nothing {r r' s s' w : ℤ} (hr : 0 ≤ r) (hw : 2 ≤ w)
    (hgap : w * r + 99000 * (w - 1) ≤ r') (hs : s * 10 + 1 < (r + 1) * (r + 1))
    (hs' : r' * r' ≤ s' * 10 + 1) : (s + 1) * w ≤ s' := by
  have hroot : w * (r + 49500) ≤ r' := by linarith
  have hpos : 0 ≤ w * (r + 49500) := mul_nonneg (by omega) (by omega)
  have hless : (s + 1) * 10 + 1 ≤ (r + 49500) * (r + 49500) := by
    have hsquare : (r + 49500) * (r + 49500) = (r + 1) * (r + 1) + 98998 * r + 2450249999 := by ring
    omega
  have hlarge : w * ((s + 1) * 10 + 1) ≤ s' * 10 + 1 := by
    calc w * ((s + 1) * 10 + 1)
        ≤ w * ((r + 49500) * (r + 49500)) := mul_le_mul_of_nonneg_left hless (by omega)
      _ = 1 * (r + 49500) * (w * (r + 49500)) := by ring
      _ ≤ w * (r + 49500) * (w * (r + 49500)) :=
          mul_le_mul_of_nonneg_right (mul_le_mul_of_nonneg_right (by omega) (by omega)) hpos
      _ ≤ r' * r' := mul_le_mul hroot hroot hpos (hpos.trans hroot)
      _ ≤ s' * 10 + 1 := hs'
  linarith

namespace SpotMarket

variable {m : SpotMarket} {tokens tokens' : TokenAmount} {price : Price} {kind : MarginKind}
  {value value' : QuoteAmount} {weight weight' : Weight}

/-- Maintenance margin and markets without a curve weigh all deposits alike. -/
lemma assetWeight_of_flat (h : m.assetWeight tokens kind = .ok weight)
    (h' : m.assetWeight tokens' kind = .ok weight')
    (hflat : kind = .maintenance ∨ m.imf.raw = 0) : weight = weight' := by
  cases kind with
  | initial =>
    obtain ⟨size, -, h⟩ := assetWeight_initial h
    obtain ⟨size', -, h'⟩ := assetWeight_initial h'
    have hzero := hflat.resolve_left nofun
    rw [SizeCurve.discount_of_flat h hzero, SizeCurve.discount_of_flat h' hzero]
  | maintenance => rw [assetWeight_maintenance h, assetWeight_maintenance h']

/-- Where a weight drops by two units and more, the tokens behind it have grown enough to make up
for all of the loss but one unit, or for all of it if nothing is left of the weight. -/
lemma Listed.tokens_gap (hm : m.Listed) (h : m.assetWeight tokens kind = .ok weight)
    (h' : m.assetWeight tokens' kind = .ok weight') (hdecimals : tokens.decimals = tokens'.decimals)
    (htokens : 0 ≤ tokens.amount.raw) (hle : tokens.amount.raw ≤ tokens'.amount.raw)
    (hweight' : 0 ≤ weight'.raw) (hdrop : weight'.raw + 2 ≤ weight.raw) :
    (0 < weight'.raw →
      tokens.amount.raw * (weight.raw - 1) ≤ tokens'.amount.raw * weight'.raw) ∧
    (weight'.raw = 0 → tokens.amount.raw * weight.raw ≤ tokens'.amount.raw * 1) := by
  have hcurved : ¬(kind = .maintenance ∨ m.imf.raw = 0) := fun hflat => by
    rw [assetWeight_of_flat h h' hflat] at hdrop
    omega
  obtain ⟨hkind, himf⟩ := not_or.mp hcurved
  obtain rfl : kind = .initial := by cases kind <;> simp_all
  obtain ⟨size, hsize, h⟩ := assetWeight_initial h
  obtain ⟨size', hsize', h'⟩ := assetWeight_initial h'
  have hsize_nonneg := TokenAmount.rescale_nonneg hsize htokens
  have hsize_nonneg' := TokenAmount.rescale_nonneg hsize' (htokens.trans hle)
  have hpos : 0 < m.imf.raw := lt_of_le_of_ne hm.bounded.imf_nonneg (Ne.symm himf)
  have hfull := hm.bounded.initialAsset_le.trans hm.bounded.maintenanceAsset_le
  have hmost : weight.raw ≤ 10 ^ 4 := (SizeCurve.discount_le h).trans hfull
  have hgap := SizeCurve.root_gap h h' hpos hm.bounded.imf_lt hfull hweight' hdrop
  obtain ⟨-, hroot⟩ := SizeCurve.rootOf_bounds size.raw
  obtain ⟨hroot', -⟩ := SizeCurve.rootOf_bounds size'.raw
  rw [abs_of_nonneg hsize_nonneg] at hroot
  rw [abs_of_nonneg hsize_nonneg'] at hroot'
  have hr := SizeCurve.rootOf_nonneg size.raw
  constructor
  · intro hleft
    exact TokenAmount.amount_mul_le hsize hsize' hdecimals htokens (htokens.trans hle) (by omega)
      hweight' (size_gap hr (by omega) hdrop hmost hgap hroot hroot')
  · intro hnothing
    rw [hnothing, sub_zero, zero_add, one_mul] at hgap
    rw [hnothing] at hdrop
    refine TokenAmount.amount_mul_le hsize hsize' hdecimals htokens (htokens.trans hle) (by omega)
      zero_le_one ?_
    rw [mul_one]
    exact size_gap_of_nothing hr (by omega) hgap hroot hroot'

/-- The product of value and weight, for more tokens of the same kind. -/
lemma Listed.weighted_gap (hm : m.Listed) (h : m.assetWeight tokens kind = .ok weight)
    (h' : m.assetWeight tokens' kind = .ok weight')
    (hvalue : tokens.quoteValue price .truncate = .ok value)
    (hvalue' : tokens'.quoteValue price .truncate = .ok value') (hprice : 0 ≤ price.raw)
    (hdecimals : tokens.decimals = tokens'.decimals) (htokens : 0 ≤ tokens.amount.raw)
    (hle : tokens.amount.raw ≤ tokens'.amount.raw) (hweight' : 0 ≤ weight'.raw) :
    (0 < weight'.raw → value.raw * weight.raw ≤
      value'.raw * weight'.raw + value.raw + weight'.raw) ∧
    (weight'.raw = 0 → value.raw * weight.raw ≤ value'.raw + 1) := by
  have hworth := TokenAmount.quoteValue_nonneg hvalue htokens hprice
  have hmore := TokenAmount.quoteValue_mono hvalue hvalue' hprice hdecimals hle
  have hproduct := mul_le_mul_of_nonneg_right hmore hweight'
  rcases le_or_gt weight.raw (weight'.raw + 1) with hnear | hfar
  · have hunit := mul_le_mul_of_nonneg_left hnear hworth
    rw [mul_add, mul_one] at hunit
    refine ⟨fun _ => by omega, fun hnothing => ?_⟩
    rw [hnothing, mul_zero] at hunit
    omega
  · obtain ⟨hsome, hnone⟩ := hm.tokens_gap h h' hdecimals htokens hle hweight' (by omega)
    constructor
    · intro hleft
      have hbound := TokenAmount.quoteValue_mul_le hvalue hvalue' hprice hdecimals htokens
        (htokens.trans hle) (by omega) hweight' (hsome hleft)
      rw [mul_sub, add_mul] at hbound
      omega
    · intro hnothing
      have hbound := TokenAmount.quoteValue_mul_le hvalue hvalue' hprice hdecimals htokens
        (htokens.trans hle) (by omega) zero_le_one (hnone hnothing)
      omega

end SpotMarket

namespace SpotPosition

variable {p p' : SpotPosition} {m : SpotMarket} {price : Price} {kind : MarginKind}
  {x x' : PositionMargin}

/-- The weight that the tokens of a deposit count with. -/
def depositWeight (p : SpotPosition) (m : SpotMarket) (kind : MarginKind) :
    Except Violation Weight := do
  m.assetWeight (← p.tokens m) kind

lemma depositWeight_of_tokens {tokens : TokenAmount} (h : p.tokens m = .ok tokens) :
    p.depositWeight m kind = m.assetWeight tokens kind := by
  rw [depositWeight, h, ok_bind]

/-- **A larger deposit counts for less by a unit of weight at the most**, and two quote units, as
long as it weighs anything. At the same weight, which is always so for maintenance margin and
without a curve, it never counts for less. -/
theorem collateral_loss_bounded (hm : m.Listed) (hindexed : m.Indexed)
    (hsign : 0 ≤ m.initialAssetWeight.raw) (hprice : 0 < price.raw) (hside : p.side = .deposit)
    (hside' : p'.side = .deposit) (hbalance : 0 ≤ p.balance.raw) (hle : p.balance ≤ p'.balance)
    (h : p.margin m price kind = .ok x) (h' : p'.margin m price kind = .ok x') :
    ∃ value value' weight weight', p.faceValue m price = .ok value ∧
      p'.faceValue m price = .ok value' ∧ p.depositWeight m kind = .ok weight ∧
      p'.depositWeight m kind = .ok weight' ∧
      (kind = .maintenance ∨ m.imf.raw = 0 → weight = weight') ∧
      (weight = weight' → x.collateral ≤ x'.collateral) ∧
      (0 < weight'.raw → 10 ^ 4 * (x.collateral.raw - x'.collateral.raw - 2) < value.raw) ∧
      (weight'.raw = 0 →
        x'.collateral.raw = 0 ∧ 10 ^ 4 * x.collateral.raw ≤ value'.raw + 1) := by
  obtain ⟨tokens, value, weight, htokens, hvalue, hweight, -, hcollateral⟩ :=
    margin_of_deposit h hside
  obtain ⟨tokens', value', weight', htokens', hvalue', hweight', -, hcollateral'⟩ :=
    margin_of_deposit h' hside'
  obtain ⟨hdecimals, hamount, hamount_le⟩ :=
    tokens_mono htokens htokens' (hside.trans hside'.symm) hindexed hbalance hle
  have hworth := TokenAmount.quoteValue_nonneg hvalue hamount hprice.le
  have hworth_le := TokenAmount.quoteValue_mono hvalue hvalue' hprice.le hdecimals hamount_le
  have hcounts := hm.assetWeight_nonneg hweight (.inr hsign)
  have hcounts' := hm.assetWeight_nonneg hweight' (.inr hsign)
  have hfull' := hm.assetWeight_le_full hweight'
  obtain ⟨hsome, hnone⟩ := hm.weighted_gap hweight hweight' hvalue hvalue' hprice.le hdecimals
    hamount hamount_le hcounts'
  rw [Int.tdiv_eq_ediv_of_nonneg (mul_nonneg hworth hcounts)] at hcollateral
  rw [Int.tdiv_eq_ediv_of_nonneg (mul_nonneg (hworth.trans hworth_le) hcounts')] at hcollateral'
  refine ⟨value, value', weight, weight', ?_, ?_, ?_, ?_,
    SpotMarket.assetWeight_of_flat hweight hweight', ?_, ?_, ?_⟩
  · rw [faceValue_of_tokens htokens, hside]
    exact hvalue
  · rw [faceValue_of_tokens htokens', hside']
    exact hvalue'
  · rw [depositWeight_of_tokens htokens, hweight]
  · rw [depositWeight_of_tokens htokens', hweight']
  · rintro rfl
    rw [Fixed.le_def, hcollateral, hcollateral']
    exact Int.ediv_le_ediv (by norm_num) (mul_le_mul_of_nonneg_right hworth_le hcounts)
  · intro hleft
    have hbound := hsome hleft
    omega
  · intro hnothing
    have hbound := hnone hnothing
    rw [hnothing, mul_zero, Int.zero_ediv] at hcollateral'
    exact ⟨hcollateral', by omega⟩

/-- A market whose weights fall along a steep curve. -/
def steep : SpotMarket := { SpotMarket.volatile ⟨1⟩ 9 with imf := .ofRaw 100000 }

/-- The largest deposit that still has the plain weight in a steep market. -/
def largestFlat : SpotPosition := { new ⟨1⟩ with balance := .ofRaw 14062574999 }

/-- One unit of balance more. -/
def smallestCurved : SpotPosition := { new ⟨1⟩ with balance := .ofRaw 14062575000 }

theorem collateral_loss_bounded_steep : ∃ x x',
    largestFlat.margin steep (.ofRaw 23000000) .initial = .ok x ∧
    smallestCurved.margin steep (.ofRaw 23000000) .initial = .ok x' ∧
    x'.collateral < x.collateral ∧
    10 ^ 4 * (x.collateral.raw - x'.collateral.raw - 2) < 323439224 := by
  obtain ⟨x, hx, hcollateral⟩ : ∃ x,
      largestFlat.margin steep (.ofRaw 23000000) .initial = .ok x ∧
      x.collateral.raw = 258751379 := by decide +kernel
  obtain ⟨x', hx', hcollateral'⟩ : ∃ x',
      smallestCurved.margin steep (.ofRaw 23000000) .initial = .ok x' ∧
      x'.collateral.raw = 258719036 := by decide +kernel
  obtain ⟨value, hvalue, hworth⟩ : ∃ value,
      largestFlat.faceValue steep (.ofRaw 23000000) = .ok value ∧ value.raw = 323439224 := by
    decide +kernel
  obtain ⟨weight, hweight, hleft⟩ : ∃ weight,
      smallestCurved.depositWeight steep .initial = .ok weight ∧ 0 < weight.raw := by
    decide +kernel
  have hlisted : steep.Listed := rfl
  have hindexed : steep.Indexed := fun side => by cases side <;> decide
  obtain ⟨value', -, -, weight', hvalue', -, -, hweight', -, -, hloss, -⟩ :=
    collateral_loss_bounded hlisted hindexed (by decide) (by decide) rfl rfl (by decide)
      (by decide) hx hx'
  obtain rfl : value = value' := by simpa [hvalue] using hvalue'
  obtain rfl : weight = weight' := by simpa [hweight] using hweight'
  refine ⟨x, x', hx, hx', ?_, hworth ▸ hloss hleft⟩
  rw [Fixed.lt_def, hcollateral, hcollateral']
  decide

/-- A deposit of one unit more can count for less. -/
theorem more_deposit_counts_less : steep.Listed ∧ steep.Indexed ∧
    0 ≤ steep.initialAssetWeight.raw ∧ largestFlat.side = .deposit ∧
    smallestCurved.side = .deposit ∧ 0 ≤ largestFlat.balance.raw ∧
    largestFlat.balance ≤ smallestCurved.balance ∧
    ∃ x, largestFlat.margin steep (.ofRaw 23000000) .initial = .ok x ∧
      ∃ x', smallestCurved.margin steep (.ofRaw 23000000) .initial = .ok x' ∧
        x'.collateral < x.collateral := by
  refine ⟨rfl, fun side => ?_, by decide, rfl, rfl, by decide, by decide, by decide +kernel⟩
  cases side <;> decide

end SpotPosition

end PerpExchange
