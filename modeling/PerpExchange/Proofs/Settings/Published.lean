import PerpExchange.Proofs.Number.Quotient
import PerpExchange.Settings.Published

/-!
What clients are told is what the exchange goes by.

No two constants have one name, so that each can be looked up; and whoever tests the parameters of a
perp market with the constants that are published comes to the same answer as the exchange.
-/

namespace PerpExchange

namespace PublishedConstant

def value? (name : String) : Option Int := (all.find? (·.name == name)).map (·.value)

lemma nodup_names : (all.map (·.name)).Nodup := by decide

lemma value?_of_mem {c : PublishedConstant} (h : c ∈ all) : value? c.name = some c.value := by
  revert c
  decide

lemma value?_label (p : Precision) : value? p.label = some p.scale := by
  cases p <;> decide

end PublishedConstant

open PublishedConstant

namespace Listing

variable {initial maintenance : MarginRatio} {fee : LiquidationFee} {maxSpread : Spread}

/-- **The test of a perp market, from what is published.** -/
theorem checkMargin_iff_published {low high units : ℤ} (hlow : value? "MIN_MARGIN_RATIO" = some low)
    (hhigh : value? "MAX_MARGIN_RATIO" = some high)
    (hunits : value? "LIQUIDATION_FEE_TO_MARGIN" = some units) :
    checkMargin initial maintenance fee maxSpread = .ok () ↔
      (low ≤ initial.raw ∧ initial.raw ≤ high) ∧ (low ≤ maintenance.raw ∧ maintenance.raw ≤ high) ∧
        maintenance.raw ≤ initial.raw ∧ fee.raw < maintenance.raw * units ∧
        maxSpread.raw < initial.raw * units := by
  have hlow' : value? "MIN_MARGIN_RATIO" = some leastRatio := by decide
  have hhigh' : value? "MAX_MARGIN_RATIO" = some mostRatio := by decide
  have hunits' : value? "LIQUIDATION_FEE_TO_MARGIN" = some Precision.feeUnitsPerRatioUnit := by
    decide
  cases hlow'.symm.trans hlow
  cases hhigh'.symm.trans hhigh
  cases hunits'.symm.trans hunits
  simp only [checkMargin, bind_eq_ok, Refusal.guard_eq_ok, exists_const]
  rfl

lemma checkMargin_new_iff {index : MarketIndex} {amm : Amm} :
    checkMargin (PerpMarket.new index amm).initialRatio (PerpMarket.new index amm).maintenanceRatio
        (PerpMarket.new index amm).liquidatorFee amm.maxSpread = .ok () ↔
      amm.maxSpread.raw < 100000 := by
  have hlow : value? "MIN_MARGIN_RATIO" = some 200 := by decide
  have hhigh : value? "MAX_MARGIN_RATIO" = some 10000 := by decide
  have hunits : value? "LIQUIDATION_FEE_TO_MARGIN" = some 100 := by decide
  have hinitial : (PerpMarket.new index amm).initialRatio.raw = 1000 := rfl
  have hmaintenance : (PerpMarket.new index amm).maintenanceRatio.raw = 500 := rfl
  have hfee : (PerpMarket.new index amm).liquidatorFee.raw = 0 := rfl
  rw [checkMargin_iff_published hlow hhigh hunits, hinitial, hmaintenance, hfee]
  norm_num

end Listing

end PerpExchange
