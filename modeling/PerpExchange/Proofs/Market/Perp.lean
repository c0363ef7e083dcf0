import PerpExchange.Market.Perp
import PerpExchange.Proofs.Margin.SizeCurve
import PerpExchange.Settings.Listing

/-!
What a perp market charges and counts for margin, as integers.

The requirement is the notional times the ratio of the market, rounded up; a settled market has
none. Losses count as collateral in full and profits by their weight, so collateral follows the pnl
in its direction and never moves by more than the pnl does. A listed market charges 2% to 100%, and
more than its liquidator fee. For initial margin the ratio is no smaller and the weight of a profit
no larger. A larger position is charged no smaller ratio.
-/

namespace PerpExchange

lemma Listing.checkMargin_eq_ok {initial maintenance : MarginRatio} {fee : LiquidationFee}
    {spread : Spread} : checkMargin initial maintenance fee spread = .ok () ↔
      (200 ≤ initial.raw ∧ initial.raw ≤ 10000) ∧
      (200 ≤ maintenance.raw ∧ maintenance.raw ≤ 10000) ∧
      maintenance.raw ≤ initial.raw ∧ fee.raw < maintenance.raw * 100 ∧
      spread.raw < initial.raw * 100 := by
  simp only [checkMargin, bind_eq_ok, Refusal.guard_eq_ok, exists_const]
  rfl

namespace PerpMarket

variable {m : PerpMarket}

def chargedRatio (m : PerpMarket) : ℤ :=
  if m.status = .settlement then 0 else m.maintenanceRatio.raw

def required (m : PerpMarket) (notional : ℤ) : ℤ :=
  Rounding.ceil.quotient (notional * m.chargedRatio) (10 ^ 4)

def countedPnl (m : PerpMarket) (pnl : ℤ) : ℤ :=
  if pnl ≤ 0 then pnl else pnl * m.maintenancePnlWeight.raw / 10 ^ 4

/-- Unrealized profits count for nothing at the least and in full at the most. -/
def WeighsPnl (m : PerpMarket) : Prop :=
  0 ≤ m.maintenancePnlWeight.raw ∧ m.maintenancePnlWeight.raw ≤ 10 ^ 4

/-- A market whose margin parameters pass the check for a listing. -/
def Listed (m : PerpMarket) : Prop :=
  ∃ spread, Listing.checkMargin m.initialRatio m.maintenanceRatio m.liquidatorFee spread = .ok ()

lemma Listed.fee_lt (hm : m.Listed) : m.liquidatorFee.raw < 100 * m.maintenanceRatio.raw := by
  obtain ⟨spread, h⟩ := hm
  obtain ⟨-, -, -, hfee, -⟩ := Listing.checkMargin_eq_ok.mp h
  omega

lemma Listed.ratio_le (hm : m.Listed) : m.maintenanceRatio.raw ≤ 10 ^ 4 := by
  obtain ⟨spread, h⟩ := hm
  exact (Listing.checkMargin_eq_ok.mp h).2.1.2

lemma Listed.maintenance_le (hm : m.Listed) : m.maintenanceRatio.raw ≤ m.initialRatio.raw := by
  obtain ⟨spread, h⟩ := hm
  exact (Listing.checkMargin_eq_ok.mp h).2.2.1

lemma Listed.ratio_nonneg (hm : m.Listed) : 0 ≤ m.maintenanceRatio.raw := by
  obtain ⟨spread, h⟩ := hm
  have := (Listing.checkMargin_eq_ok.mp h).2.1.1
  omega

def feeOn (m : PerpMarket) (amount : ℤ) : ℤ :=
  Rounding.ceil.quotient (amount * m.liquidatorFee.raw) (10 ^ 6)

lemma add_feeOn (m : PerpMarket) (amount : ℤ) :
    Rounding.ceil.quotient (amount * (10 ^ 6 + m.liquidatorFee.raw)) (10 ^ 6) =
      amount + m.feeOn amount := by
  have e : amount * (10 ^ 6 + m.liquidatorFee.raw) =
      amount * m.liquidatorFee.raw + amount * 10 ^ 6 := by ring
  rw [e, Rounding.ceil_quotient_add_mul _ _ (by norm_num), feeOn, add_comm]

lemma sub_feeOn (m : PerpMarket) (amount : ℤ) :
    amount * (10 ^ 6 - m.liquidatorFee.raw) / 10 ^ 6 = amount - m.feeOn amount := by
  have e : amount * (10 ^ 6 - m.liquidatorFee.raw) =
      -(amount * m.liquidatorFee.raw) + amount * 10 ^ 6 := by ring
  rw [e, Int.add_mul_ediv_right _ _ (by norm_num), ← Rounding.neg_ceil_quotient _ (by norm_num),
    feeOn]
  ring

lemma feeOn_nonneg {amount : ℤ} (hfee : 0 ≤ m.liquidatorFee.raw) (h : 0 ≤ amount) :
    0 ≤ m.feeOn amount :=
  Rounding.quotient_nonneg .ceil (mul_nonneg h hfee) (by norm_num)

lemma required_bounds (m : PerpMarket) (notional : ℤ) :
    notional * m.chargedRatio ≤ m.required notional * 10 ^ 4 ∧
      m.required notional * 10 ^ 4 < notional * m.chargedRatio + 10 ^ 4 :=
  Rounding.ceil_quotient_bounds _ (by norm_num)

@[simp] lemma required_zero (m : PerpMarket) : m.required 0 = 0 := by
  rw [required, zero_mul]
  rfl

lemma required_of_settlement (h : m.status = .settlement) (notional : ℤ) :
    m.required notional = 0 := by
  rw [required, chargedRatio, if_pos h, mul_zero]
  rfl

lemma countedPnl_of_nonpos {pnl : ℤ} (h : pnl ≤ 0) : m.countedPnl pnl = pnl := if_pos h

lemma WeighsPnl.countedPnl_le (hm : m.WeighsPnl) {pnl : ℤ} (h : 0 ≤ pnl) :
    0 ≤ m.countedPnl pnl ∧ m.countedPnl pnl ≤ pnl := by
  unfold countedPnl
  split_ifs with hpnl
  · omega
  · have hnonneg : 0 ≤ pnl * m.maintenancePnlWeight.raw := mul_nonneg h hm.1
    have hle : pnl * m.maintenancePnlWeight.raw ≤ pnl * 10 ^ 4 := mul_le_mul_of_nonneg_left hm.2 h
    omega

/-- A smaller pnl counts for less, by no more than the difference. -/
lemma WeighsPnl.countedPnl_sub (hm : m.WeighsPnl) {pnl pnl' : ℤ} (h : pnl' ≤ pnl) :
    0 ≤ m.countedPnl pnl - m.countedPnl pnl' ∧
      m.countedPnl pnl - m.countedPnl pnl' ≤ pnl - pnl' := by
  rcases le_or_gt pnl 0 with hloss | hprofit
  · rw [countedPnl_of_nonpos hloss, countedPnl_of_nonpos (h.trans hloss)]
    omega
  · rcases le_or_gt pnl' 0 with hloss' | hprofit'
    · have := hm.countedPnl_le hprofit.le
      rw [countedPnl_of_nonpos hloss']
      omega
    · have hmore : 0 ≤ (pnl - pnl') * m.maintenancePnlWeight.raw :=
        mul_nonneg (sub_nonneg.mpr h) hm.1
      have hless : (pnl - pnl') * m.maintenancePnlWeight.raw ≤ (pnl - pnl') * 10 ^ 4 :=
        mul_le_mul_of_nonneg_left hm.2 (sub_nonneg.mpr h)
      rw [sub_mul] at hmore hless
      rw [countedPnl, countedPnl, if_neg hprofit.not_ge, if_neg hprofit'.not_ge]
      omega

lemma marginRatio_maintenance {size : BaseAmount} {ratio : MarginRatio}
    (h : m.marginRatio size .maintenance = .ok ratio) : ratio.raw = m.chargedRatio := by
  unfold marginRatio at h
  unfold chargedRatio
  split_ifs at h ⊢
  · cases h
    rfl
  · cases h
    rfl

lemma marginRatio_nonneg {size : BaseAmount} {kind : MarginKind} {ratio : MarginRatio}
    (h : m.marginRatio size kind = .ok ratio) (hinitial : 0 ≤ m.initialRatio.raw)
    (hmaintenance : 0 ≤ m.maintenanceRatio.raw) : 0 ≤ ratio.raw := by
  unfold marginRatio at h
  split_ifs at h
  · cases h
    exact le_rfl
  · cases kind with
    | initial =>
      simp only [bind_eq_ok, pure_eq_ok] at h
      obtain ⟨_, -, grown, -, rfl⟩ := h
      rw [Fixed.raw_max]
      exact hinitial.trans (le_max_right _ _)
    | maintenance =>
      cases h
      exact hmaintenance

lemma marginRatio_mono {size size' : BaseAmount} {kind : MarginKind} {ratio ratio' : MarginRatio}
    (h : m.marginRatio size kind = .ok ratio) (h' : m.marginRatio size' kind = .ok ratio')
    (himf : 0 ≤ m.imf.raw) (hsize : |size.raw| ≤ |size'.raw|) : ratio.raw ≤ ratio'.raw := by
  unfold marginRatio at h h'
  split_ifs at h h'
  · cases h
    cases h'
    exact le_rfl
  · cases kind with
    | initial =>
      simp only [bind_eq_ok, Fixed.abs_eq_ok, ← Int.abs_eq_natAbs, pure_eq_ok] at h h'
      obtain ⟨magnitude, hmagnitude, grown, hgrown, rfl⟩ := h
      obtain ⟨magnitude', hmagnitude', grown', hgrown', rfl⟩ := h'
      rw [Fixed.raw_max, Fixed.raw_max]
      refine max_le_max_right _ (SizeCurve.premium_mono hgrown hgrown' himf ?_)
      rwa [hmagnitude, hmagnitude', abs_abs, abs_abs]
    | maintenance =>
      cases h
      cases h'
      exact le_rfl

lemma Listed.chargedRatio_le {size : BaseAmount} {ratio : MarginRatio} (hm : m.Listed)
    (h : m.marginRatio size .initial = .ok ratio) : m.chargedRatio ≤ ratio.raw := by
  unfold marginRatio at h
  unfold chargedRatio
  split_ifs at h ⊢
  · cases h
    exact le_rfl
  · simp only [bind_eq_ok, pure_eq_ok] at h
    obtain ⟨_, -, grown, -, rfl⟩ := h
    rw [Fixed.raw_max]
    exact hm.maintenance_le.trans (le_max_right _ _)

lemma imbalancedWeight_le {weight : Weight} (h : m.imbalancedWeight = .ok weight) :
    weight.raw ≤ m.initialPnlWeight.raw := by
  unfold imbalancedWeight at h
  split_ifs at h with hscaled
  · rw [bind_eq_ok] at h
    obtain ⟨net, -, h⟩ := h
    split_ifs at h with hover
    · obtain ⟨hweight, hmost⟩ := hscaled
      rw [Fixed.lt_def] at hover
      simp only [Fixed.mulDiv, bind_eq_ok, Fixed.mul_eq_ok, Product.divTo_eq_ok (p := .weight)
        (q := .quote) (d := .quote) (r := .weight) rfl] at h
      obtain ⟨product, hproduct, -, h⟩ := h
      rw [h, hproduct, Int.tdiv_eq_ediv_of_nonneg (mul_nonneg hweight.le hmost.le)]
      exact Int.ediv_le_of_le_mul (hmost.trans hover)
        (mul_le_mul_of_nonneg_left hover.le hweight.le)
    · cases h
      exact le_rfl
  · cases h
    exact le_rfl

lemma pnlWeight_initial_le {pnl : QuoteAmount} {weight weight' : Weight}
    (h : m.pnlWeight pnl .initial = .ok weight) (h' : m.pnlWeight pnl .maintenance = .ok weight')
    (hpnl : 0 < pnl.raw) (hm : m.initialPnlWeight ≤ m.maintenancePnlWeight) :
    weight.raw ≤ weight'.raw := by
  unfold pnlWeight at h h'
  rw [if_neg hpnl.not_ge] at h h'
  cases h'
  refine le_trans ?_ hm
  simp only [bind_eq_ok] at h
  obtain ⟨scaled, hscaled, h⟩ := h
  have hle := imbalancedWeight_le hscaled
  split_ifs at h with hzero
  · cases h
    rwa [hzero] at hle
  · rw [bind_eq_ok] at h
    obtain ⟨size, -, h⟩ := h
    exact (SizeCurve.discount_le h).trans hle

lemma pnlWeight_of_nonpos {pnl : QuoteAmount} {kind : MarginKind} {weight : Weight}
    (h : m.pnlWeight pnl kind = .ok weight) (hpnl : pnl.raw ≤ 0) : weight = Fixed.one := by
  unfold pnlWeight at h
  rw [if_pos hpnl] at h
  cases h
  rfl

lemma countedPnl_of_pnlWeight {pnl : QuoteAmount} {weight : Weight}
    (h : m.pnlWeight pnl .maintenance = .ok weight) (hm : m.WeighsPnl) :
    (pnl.raw * weight.raw).tdiv (10 ^ 4) = m.countedPnl pnl.raw := by
  rcases le_or_gt pnl.raw 0 with hloss | hprofit
  · rw [pnlWeight_of_nonpos h hloss, countedPnl_of_nonpos hloss]
    exact Int.mul_tdiv_cancel _ (by decide)
  · unfold pnlWeight at h
    rw [if_neg hprofit.not_ge] at h
    cases h
    rw [countedPnl, if_neg hprofit.not_ge,
      Int.tdiv_eq_ediv_of_nonneg (mul_nonneg hprofit.le hm.1)]

end PerpMarket

end PerpExchange
