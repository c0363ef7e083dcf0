import PerpExchange.Proofs.Margin.Position

/-!
Requirements grow with the size of a position.

The curves are monotone in the size, and so are the notional of a perp position and the tokens of a
borrow. A requirement is the product of two such numbers, rounded up, so it never falls when the
position grows.
-/

namespace PerpExchange

/-- A product of two numbers that are not negative grows with them, rounded up. -/
lemma requirement_le {value value' ratio ratio' unit : ℤ} (hunit : 0 < unit) (hvalue : 0 ≤ value)
    (hratio : 0 ≤ ratio) (hvalue_le : value ≤ value') (hratio_le : ratio ≤ ratio') :
    Rounding.ceil.quotient (value * ratio) unit ≤ Rounding.ceil.quotient (value' * ratio') unit :=
  Rounding.ceil_quotient_mono hunit
    (mul_le_mul hvalue_le hratio_le hratio (hvalue.trans hvalue_le))

lemma PerpPosition.requirement_mono {m : PerpMarket} {oracle : Price} {kind : MarginKind}
    {p p' : PerpPosition} {x x' : PositionMargin} (h : p.margin m oracle kind = .ok x)
    (h' : p'.margin m oracle kind = .ok x') (himf : 0 ≤ m.imf.raw)
    (hinitial : 0 ≤ m.initialRatio.raw) (hmaintenance : 0 ≤ m.maintenanceRatio.raw)
    (hprice : 0 ≤ oracle.raw) (hsize : |p.base.raw| ≤ |p'.base.raw|) :
    x.requirement.raw ≤ x'.requirement.raw := by
  obtain ⟨value, ratio, -, -, hvalue, hratio, -, -, hrequirement, -⟩ := margin_eq_ok h
  obtain ⟨value', ratio', -, -, hvalue', hratio', -, -, hrequirement', -⟩ := margin_eq_ok h'
  rw [hrequirement, hrequirement', raw_baseValue hvalue hprice, raw_baseValue hvalue' hprice]
  exact requirement_le (by norm_num) (notional_nonneg _ hprice)
    (PerpMarket.marginRatio_nonneg hratio hinitial hmaintenance) (notional_mono hprice hsize)
    (PerpMarket.marginRatio_mono hratio hratio' himf hsize)

lemma SpotPosition.requirement_mono {m : SpotMarket} {price : Price} {kind : MarginKind}
    {p p' : SpotPosition} {x x' : PositionMargin} (h : p.margin m price kind = .ok x)
    (h' : p'.margin m price kind = .ok x') (hside : p.side = .borrow) (hside' : p'.side = .borrow)
    (himf : 0 ≤ m.imf.raw) (hinitial : 0 ≤ m.initialLiabilityWeight.raw)
    (hmaintenance : 0 ≤ m.maintenanceLiabilityWeight.raw) (hindexed : m.Indexed)
    (hprice : 0 ≤ price.raw) (hbalance : 0 ≤ p.balance.raw) (hle : p.balance ≤ p'.balance) :
    x.requirement.raw ≤ x'.requirement.raw := by
  obtain ⟨tokens, value, weight, htokens, hvalue, hweight, hrequirement, -⟩ :=
    margin_of_borrow h hside
  obtain ⟨tokens', value', weight', htokens', hvalue', hweight', hrequirement', -⟩ :=
    margin_of_borrow h' hside'
  obtain ⟨hdecimals, hamount, hamount_le⟩ :=
    tokens_mono htokens htokens' (hside.trans hside'.symm) hindexed hbalance hle
  rw [hrequirement, hrequirement']
  exact requirement_le (by norm_num) (TokenAmount.quoteValue_nonneg hvalue hamount hprice)
    (SpotMarket.liabilityWeight_nonneg hweight hinitial hmaintenance)
    (TokenAmount.quoteValue_mono hvalue hvalue' hprice hdecimals hamount_le)
    (SpotMarket.liabilityWeight_mono hweight hweight' himf hdecimals hamount hamount_le)

/-- **What is required grows with the size.** The premium curve rises and the discount curve falls,
and so the requirement of a perp position grows with its base and that of a borrow with its
balance. -/
theorem requirements_grow_with_size :
    (∀ {p : Precision} {imf : ImfFactor} {weight : Fixed p} {size size' : BaseAmount},
      0 ≤ imf.raw → 0 ≤ weight.raw → |size.raw| ≤ |size'.raw| →
      (∀ {w w'}, SizeCurve.premium size imf weight = .ok w →
        SizeCurve.premium size' imf weight = .ok w' → weight ≤ w ∧ w ≤ w') ∧
      (∀ {w w'}, SizeCurve.discount size imf weight = .ok w →
        SizeCurve.discount size' imf weight = .ok w' → 0 ≤ w'.raw ∧ w' ≤ w ∧ w ≤ weight)) ∧
    (∀ {m : PerpMarket} {oracle : Price} {kind : MarginKind} {p p' : PerpPosition}
      {x x' : PositionMargin}, 0 ≤ m.imf.raw → 0 ≤ m.initialRatio.raw →
      0 ≤ m.maintenanceRatio.raw → 0 < oracle.raw → |p.base.raw| ≤ |p'.base.raw| →
      p.margin m oracle kind = .ok x → p'.margin m oracle kind = .ok x' →
      x.requirement ≤ x'.requirement) ∧
    (∀ {m : SpotMarket} {price : Price} {kind : MarginKind} {p p' : SpotPosition}
      {x x' : PositionMargin}, 0 ≤ m.imf.raw → 0 ≤ m.initialLiabilityWeight.raw →
      0 ≤ m.maintenanceLiabilityWeight.raw → m.Indexed → 0 < price.raw → p.side = .borrow →
      p'.side = .borrow → 0 ≤ p.balance.raw → p.balance ≤ p'.balance →
      p.margin m price kind = .ok x → p'.margin m price kind = .ok x' →
      x.requirement ≤ x'.requirement) := by
  refine ⟨fun himf hweight hsize => ⟨fun h h' => ?_, fun h h' => ?_⟩,
    fun himf hinitial hmaintenance hprice hsize h h' => ?_,
    fun himf hinitial hmaintenance hindexed hprice hside hside' hbalance hle h h' => ?_⟩
  · exact ⟨SizeCurve.le_premium h, SizeCurve.premium_mono h h' himf hsize⟩
  · exact ⟨SizeCurve.discount_nonneg h' himf hweight, SizeCurve.discount_antitone h h' himf hsize,
      SizeCurve.discount_le h⟩
  · exact PerpPosition.requirement_mono h h' himf hinitial hmaintenance hprice.le hsize
  · exact SpotPosition.requirement_mono h h' hside hside' himf hinitial hmaintenance hindexed
      hprice.le hbalance hle

/-- A factor with which weights move at sizes of a few dozen units. -/
def sloped : ImfFactor := .ofRaw 75000

def PerpMarket.sloped : PerpMarket := { PerpMarket.new ⟨0⟩ (Amm.balanced 0 Fixed.one) with
  imf := PerpExchange.sloped }

def SpotMarket.sloped : SpotMarket := { SpotMarket.volatile ⟨1⟩ 12 with imf := PerpExchange.sloped }

/-- A short, and a long that is larger. -/
def PerpPosition.heldShort : PerpPosition := { new ⟨0⟩ with base := .ofRaw (-41000000000) }

def PerpPosition.heldLong : PerpPosition := { new ⟨0⟩ with base := .ofRaw 53000000000 }

/-- A borrow, and a larger one. -/
def SpotPosition.owed : SpotPosition :=
  { new ⟨1⟩ with side := .borrow, balance := .ofRaw 31000000007 }

def SpotPosition.owedMore : SpotPosition := { owed with balance := .ofRaw 87000000011 }

theorem requirements_grow_with_size_sloped :
    (∃ w w' : MarginRatio,
      SizeCurve.premium PerpPosition.heldShort.base sloped (.ofRaw 1300) = .ok w ∧
      SizeCurve.premium PerpPosition.heldLong.base sloped (.ofRaw 1300) = .ok w' ∧ w ≤ w') ∧
    (∃ w w' : Weight,
      SizeCurve.discount PerpPosition.heldShort.base sloped (.ofRaw 8900) = .ok w ∧
      SizeCurve.discount PerpPosition.heldLong.base sloped (.ofRaw 8900) = .ok w' ∧
      0 ≤ w'.raw ∧ w' ≤ w) ∧
    (∃ x x', PerpPosition.heldShort.margin .sloped (.ofRaw 8700000) .initial = .ok x ∧
      PerpPosition.heldLong.margin .sloped (.ofRaw 8700000) .initial = .ok x' ∧
      x.requirement ≤ x'.requirement) ∧
    ∃ x x', SpotPosition.owed.margin .sloped (.ofRaw 8700000) .initial = .ok x ∧
      SpotPosition.owedMore.margin .sloped (.ofRaw 8700000) .initial = .ok x' ∧
      x.requirement ≤ x'.requirement := by
  have hindexed : SpotMarket.sloped.Indexed := fun side => by cases side <;> decide
  obtain ⟨hcurves, hperp, hspot⟩ := requirements_grow_with_size
  refine ⟨?_, ?_, ?_, ?_⟩
  · obtain ⟨w, hw, -⟩ : ∃ w : MarginRatio,
        SizeCurve.premium PerpPosition.heldShort.base sloped (.ofRaw 1300) = .ok w ∧
        0 ≤ w.raw := by decide +kernel
    obtain ⟨w', hw', -⟩ : ∃ w' : MarginRatio,
        SizeCurve.premium PerpPosition.heldLong.base sloped (.ofRaw 1300) = .ok w' ∧
        0 ≤ w'.raw := by decide +kernel
    exact ⟨w, w', hw, hw', ((hcurves (by decide) (by decide) (by decide)).1 hw hw').2⟩
  · obtain ⟨w, hw, -⟩ : ∃ w : Weight,
        SizeCurve.discount PerpPosition.heldShort.base sloped (.ofRaw 8900) = .ok w ∧
        0 ≤ w.raw := by decide +kernel
    obtain ⟨w', hw', -⟩ : ∃ w' : Weight,
        SizeCurve.discount PerpPosition.heldLong.base sloped (.ofRaw 8900) = .ok w' ∧
        0 ≤ w'.raw := by decide +kernel
    obtain ⟨hpos, hle, -⟩ := (hcurves (by decide) (by decide) (by decide)).2 hw hw'
    exact ⟨w, w', hw, hw', hpos, hle⟩
  · obtain ⟨x, hx, -⟩ : ∃ x,
        PerpPosition.heldShort.margin .sloped (.ofRaw 8700000) .initial = .ok x ∧
        0 ≤ x.requirement.raw := by decide +kernel
    obtain ⟨x', hx', -⟩ : ∃ x',
        PerpPosition.heldLong.margin .sloped (.ofRaw 8700000) .initial = .ok x' ∧
        0 ≤ x'.requirement.raw := by decide +kernel
    exact ⟨x, x', hx, hx', hperp (by decide) (by decide) (by decide) (by decide) (by decide) hx hx'⟩
  · obtain ⟨x, hx, -⟩ : ∃ x,
        SpotPosition.owed.margin .sloped (.ofRaw 8700000) .initial = .ok x ∧
        0 ≤ x.requirement.raw := by decide +kernel
    obtain ⟨x', hx', -⟩ : ∃ x',
        SpotPosition.owedMore.margin .sloped (.ofRaw 8700000) .initial = .ok x' ∧
        0 ≤ x'.requirement.raw := by decide +kernel
    exact ⟨x, x', hx, hx', hspot (by decide) (by decide) (by decide) hindexed (by decide) rfl rfl
      (by decide) (by decide) hx hx'⟩

end PerpExchange
