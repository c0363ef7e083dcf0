import PerpExchange.Proofs.Margin.SizeCurve
import PerpExchange.Proofs.Market.Spot
import PerpExchange.Proofs.Token
import PerpExchange.Settings.Listing

/-!
What the deposits and borrows of a listed spot market weigh.

The weights are no milder for initial margin than for maintenance. A deposit never weighs more than
in full and a borrow never less, at any size. The maintenance weight of a deposit is positive, but
nothing holds the initial weight above zero: one below it is taken as it is, whatever the size. With
the size the weight of a borrow only rises.
-/

namespace PerpExchange

namespace Listing

/-- Weights on their side of 100%, no milder for initial margin than for maintenance. -/
structure SpotWeights.Bounded (w : SpotWeights) : Prop where
  initialAsset_le : w.initialAsset.raw ≤ w.maintenanceAsset.raw
  maintenanceAsset_pos : 0 < w.maintenanceAsset.raw
  maintenanceAsset_le : w.maintenanceAsset.raw ≤ 10 ^ 4
  maintenanceLiability_ge : 10 ^ 4 ≤ w.maintenanceLiability.raw
  initialLiability_ge : w.maintenanceLiability.raw ≤ w.initialLiability.raw
  imf_nonneg : 0 ≤ w.imf.raw
  imf_lt : w.imf.raw < 10 ^ 6

lemma bounded_of_checkWeights {i : MarketIndex} {w : SpotWeights}
    (h : checkWeights i w = .ok ()) : w.Bounded := by
  have hfull : (Fixed.one : Weight).raw = 10 ^ 4 := rfl
  unfold checkWeights at h
  split_ifs at h
  · simp only [checkQuoteWeights, bind_eq_ok, Refusal.guard_eq_ok, exists_const] at h
    obtain ⟨⟨hinitial, hmaintenance, hinitial', hmaintenance'⟩, himf⟩ := h
    exact {
      initialAsset_le := by rw [hinitial, hmaintenance]
      maintenanceAsset_pos := by rw [hmaintenance]; decide
      maintenanceAsset_le := by rw [hmaintenance, hfull]
      maintenanceLiability_ge := by rw [hmaintenance', hfull]
      initialLiability_ge := by rw [hinitial', hmaintenance']
      imf_nonneg := himf.1
      imf_lt := himf.2 }
  · simp only [checkVolatileWeights, bind_eq_ok, Refusal.guard_eq_ok, exists_const, Fixed.lt_def,
      Fixed.le_def, hfull] at h
    obtain ⟨⟨-, hasset, ⟨hpos, hless⟩, -, hliability, hmore⟩, himf⟩ := h
    exact ⟨hasset, hpos, hless.le, hmore.le, hliability, himf.1, himf.2⟩

end Listing

namespace SpotMarket

variable {m : SpotMarket} {tokens tokens' : TokenAmount} {kind : MarginKind}
  {weight weight' : Weight}

def weights (m : SpotMarket) : Listing.SpotWeights :=
  ⟨m.initialAssetWeight, m.maintenanceAssetWeight, m.initialLiabilityWeight,
    m.maintenanceLiabilityWeight, m.imf⟩

/-- A market whose weights pass the check for a listing. -/
def Listed (m : SpotMarket) : Prop :=
  Listing.checkWeights m.index
    ⟨m.initialAssetWeight, m.maintenanceAssetWeight, m.initialLiabilityWeight,
      m.maintenanceLiabilityWeight, m.imf⟩ = .ok ()

lemma Listed.bounded (hm : m.Listed) : m.weights.Bounded := Listing.bounded_of_checkWeights hm

lemma assetWeight_maintenance (h : m.assetWeight tokens .maintenance = .ok weight) :
    weight = m.maintenanceAssetWeight := by
  cases h
  rfl

lemma assetWeight_initial (h : m.assetWeight tokens .initial = .ok weight) :
    ∃ size, tokens.rescale = .ok size ∧
      SizeCurve.discount size m.imf m.initialAssetWeight = .ok weight := by
  simpa only [assetWeight, bind_eq_ok] using h

lemma liabilityWeight_maintenance (h : m.liabilityWeight tokens .maintenance = .ok weight) :
    weight = m.maintenanceLiabilityWeight := by
  cases h
  rfl

lemma liabilityWeight_initial (h : m.liabilityWeight tokens .initial = .ok weight) :
    ∃ size, tokens.rescale = .ok size ∧
      SizeCurve.premium size m.imf m.initialLiabilityWeight = .ok weight := by
  simpa only [liabilityWeight, bind_eq_ok] using h

lemma Listed.assetWeight_le (hm : m.Listed) (h : m.assetWeight tokens .initial = .ok weight)
    (h' : m.assetWeight tokens .maintenance = .ok weight') : weight.raw ≤ weight'.raw := by
  obtain ⟨size, -, h⟩ := assetWeight_initial h
  rw [assetWeight_maintenance h']
  exact (SizeCurve.discount_le h).trans hm.bounded.initialAsset_le

lemma Listed.le_liabilityWeight (hm : m.Listed)
    (h : m.liabilityWeight tokens .initial = .ok weight)
    (h' : m.liabilityWeight tokens .maintenance = .ok weight') : weight'.raw ≤ weight.raw := by
  obtain ⟨size, -, h⟩ := liabilityWeight_initial h
  rw [liabilityWeight_maintenance h']
  exact hm.bounded.initialLiability_ge.trans (SizeCurve.le_premium h)

lemma Listed.assetWeight_le_full (hm : m.Listed) (h : m.assetWeight tokens kind = .ok weight) :
    weight.raw ≤ 10 ^ 4 := by
  cases kind with
  | initial =>
    obtain ⟨size, -, h⟩ := assetWeight_initial h
    exact ((SizeCurve.discount_le h).trans hm.bounded.initialAsset_le).trans
      hm.bounded.maintenanceAsset_le
  | maintenance =>
    rw [assetWeight_maintenance h]
    exact hm.bounded.maintenanceAsset_le

lemma Listed.full_le_liabilityWeight (hm : m.Listed)
    (h : m.liabilityWeight tokens kind = .ok weight) : 10 ^ 4 ≤ weight.raw := by
  cases kind with
  | initial =>
    obtain ⟨size, -, h⟩ := liabilityWeight_initial h
    exact (hm.bounded.maintenanceLiability_ge.trans hm.bounded.initialLiability_ge).trans
      (SizeCurve.le_premium h)
  | maintenance =>
    rw [liabilityWeight_maintenance h]
    exact hm.bounded.maintenanceLiability_ge

lemma Listed.assetWeight_nonneg (hm : m.Listed) (h : m.assetWeight tokens kind = .ok weight)
    (hsign : kind = .maintenance ∨ 0 ≤ m.initialAssetWeight.raw) : 0 ≤ weight.raw := by
  cases kind with
  | initial =>
    obtain ⟨size, -, h⟩ := assetWeight_initial h
    exact SizeCurve.discount_nonneg h hm.bounded.imf_nonneg (hsign.resolve_left nofun)
  | maintenance =>
    rw [assetWeight_maintenance h]
    exact hm.bounded.maintenanceAsset_pos.le

/-- An initial weight that is not positive is that of deposits of any size. -/
lemma Listed.assetWeight_of_nonpos (hm : m.Listed)
    (h : m.assetWeight tokens .initial = .ok weight) (hsign : m.initialAssetWeight.raw ≤ 0) :
    weight.raw = m.initialAssetWeight.raw := by
  obtain ⟨size, -, h⟩ := assetWeight_initial h
  exact SizeCurve.discount_of_nonpos h hm.bounded.imf_nonneg hsign

lemma liabilityWeight_mono (h : m.liabilityWeight tokens kind = .ok weight)
    (h' : m.liabilityWeight tokens' kind = .ok weight') (himf : 0 ≤ m.imf.raw)
    (hdecimals : tokens.decimals = tokens'.decimals) (htokens : 0 ≤ tokens.amount.raw)
    (hle : tokens.amount.raw ≤ tokens'.amount.raw) : weight.raw ≤ weight'.raw := by
  cases kind with
  | initial =>
    obtain ⟨size, hsize, h⟩ := liabilityWeight_initial h
    obtain ⟨size', hsize', h'⟩ := liabilityWeight_initial h'
    refine SizeCurve.premium_mono h h' himf ?_
    rw [abs_of_nonneg (TokenAmount.rescale_nonneg hsize htokens),
      abs_of_nonneg (TokenAmount.rescale_nonneg hsize' (htokens.trans hle))]
    exact TokenAmount.rescale_mono hsize hsize' hdecimals hle
  | maintenance => rw [liabilityWeight_maintenance h, liabilityWeight_maintenance h']

lemma liabilityWeight_nonneg (h : m.liabilityWeight tokens kind = .ok weight)
    (hinitial : 0 ≤ m.initialLiabilityWeight.raw)
    (hmaintenance : 0 ≤ m.maintenanceLiabilityWeight.raw) : 0 ≤ weight.raw := by
  cases kind with
  | initial =>
    obtain ⟨size, -, h⟩ := liabilityWeight_initial h
    exact hinitial.trans (SizeCurve.le_premium h)
  | maintenance => rwa [liabilityWeight_maintenance h]

end SpotMarket

end PerpExchange
