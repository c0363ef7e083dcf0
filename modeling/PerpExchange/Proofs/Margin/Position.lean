import PerpExchange.Margin.Position
import PerpExchange.Proofs.Market.Perp
import PerpExchange.Proofs.Market.SpotWeights
import PerpExchange.Proofs.Position.Perp

/-!
What one position adds to margin.

Of a perp position the notional at the oracle price is charged and the pnl is counted, each as its
market does. A perp position that holds nothing adds nothing. A deposit is counted and a borrow is
charged, by the weight of its tokens, of which a larger balance has no fewer.
-/

namespace PerpExchange

namespace PerpPosition

variable {p : PerpPosition} {m : PerpMarket} {oracle : Price} {kind : MarginKind}
  {x : PositionMargin}

lemma margin_eq_ok (h : p.margin m oracle kind = .ok x) :
    ∃ (value : QuoteAmount) (ratio : MarginRatio) (pnl : QuoteAmount) (weight : Weight),
      baseValue p.base oracle = .ok value ∧ m.marginRatio p.base kind = .ok ratio ∧
      p.unrealizedPnl oracle = .ok pnl ∧ m.pnlWeight pnl kind = .ok weight ∧
      x.requirement.raw = Rounding.ceil.quotient (value.raw * ratio.raw) (10 ^ 4) ∧
      x.collateral.raw = (pnl.raw * weight.raw).tdiv (10 ^ 4) := by
  simp only [margin, bind_eq_ok, Fixed.mul_eq_ok, pure_eq_ok,
    Product.rescaleCeil_eq_ok (p := .quote) (q := .margin) (r := .quote) (n := 4) rfl (by norm_num),
    Product.rescale_eq_ok (p := .quote) (q := .weight) (r := .quote) (n := 4) rfl (by norm_num)]
    at h
  obtain ⟨value, hvalue, ratio, hratio, charged, hcharged, requirement, hrequirement, pnl, hpnl,
    weight, hweight, weighed, hweighed, collateral, hcollateral, rfl⟩ := h
  exact ⟨value, ratio, pnl, weight, hvalue, hratio, hpnl, hweight, by rw [hrequirement, hcharged],
    by rw [hcollateral, hweighed]⟩

lemma margin_maintenance (h : p.margin m oracle .maintenance = .ok x) (hprice : 0 ≤ oracle.raw)
    (hm : m.WeighsPnl) :
    x.requirement.raw = m.required (notional p.base.raw oracle.raw) ∧
      x.collateral.raw = m.countedPnl (p.exactPnl oracle) := by
  obtain ⟨value, ratio, pnl, weight, hvalue, hratio, hpnl, hweight, hrequirement, hcollateral⟩ :=
    margin_eq_ok h
  constructor
  · rw [hrequirement, raw_baseValue hvalue hprice, PerpMarket.marginRatio_maintenance hratio]
    rfl
  · rw [hcollateral, PerpMarket.countedPnl_of_pnlWeight hweight hm, raw_unrealizedPnl hpnl hprice]

lemma margin_of_available (h : p.margin m oracle kind = .ok x) (hprice : 0 ≤ oracle.raw)
    (hp : p.isAvailable = true) : x.requirement.raw = 0 ∧ x.collateral.raw = 0 := by
  obtain ⟨value, ratio, pnl, weight, hvalue, -, hpnl, -, hrequirement, hcollateral⟩ :=
    margin_eq_ok h
  have hflat : value.raw = 0 := by
    rw [raw_baseValue hvalue hprice, (isAvailable_iff.mp hp).1, notional_zero]
  have hnothing : pnl.raw = 0 := by
    rw [raw_unrealizedPnl hpnl hprice, exactPnl_of_available hp]
  rw [hrequirement, hcollateral, hflat, hnothing, zero_mul, zero_mul]
  exact ⟨rfl, rfl⟩

end PerpPosition

namespace SpotPosition

variable {p : SpotPosition} {m : SpotMarket} {price : Price} {kind : MarginKind}
  {x : PositionMargin}

lemma margin_of_deposit (h : p.margin m price kind = .ok x) (hside : p.side = .deposit) :
    ∃ (tokens : TokenAmount) (value : QuoteAmount) (weight : Weight), p.tokens m = .ok tokens ∧
      tokens.quoteValue price .truncate = .ok value ∧ m.assetWeight tokens kind = .ok weight ∧
      x.requirement.raw = 0 ∧ x.collateral.raw = (value.raw * weight.raw).tdiv (10 ^ 4) := by
  simp only [margin, hside, bind_eq_ok, Fixed.mul_eq_ok, pure_eq_ok,
    Product.rescale_eq_ok (p := .quote) (q := .weight) (r := .quote) (n := 4) rfl (by norm_num)]
    at h
  obtain ⟨tokens, htokens, value, hvalue, weight, hweight, weighed, hweighed, collateral,
    hcollateral, rfl⟩ := h
  exact ⟨tokens, value, weight, htokens, hvalue, hweight, rfl, by rw [hcollateral, hweighed]⟩

lemma margin_of_borrow (h : p.margin m price kind = .ok x) (hside : p.side = .borrow) :
    ∃ (tokens : TokenAmount) (value : QuoteAmount) (weight : Weight), p.tokens m = .ok tokens ∧
      tokens.quoteValue price .ceil = .ok value ∧ m.liabilityWeight tokens kind = .ok weight ∧
      x.requirement.raw = Rounding.ceil.quotient (value.raw * weight.raw) (10 ^ 4) ∧
      x.collateral.raw = 0 := by
  simp only [margin, hside, bind_eq_ok, Fixed.mul_eq_ok, pure_eq_ok,
    Product.rescaleCeil_eq_ok (p := .quote) (q := .weight) (r := .quote) (n := 4) rfl
      (by norm_num)] at h
  obtain ⟨tokens, htokens, value, hvalue, weight, hweight, weighed, hweighed, requirement,
    hrequirement, rfl⟩ := h
  exact ⟨tokens, value, weight, htokens, hvalue, hweight, by rw [hrequirement, hweighed], rfl⟩

/-- Of two balances on one side of a market, the larger is worth no fewer tokens. -/
lemma tokens_mono {p' : SpotPosition} {tokens tokens' : TokenAmount}
    (h : p.tokens m = .ok tokens) (h' : p'.tokens m = .ok tokens') (hside : p.side = p'.side)
    (hindexed : m.Indexed) (hbalance : 0 ≤ p.balance.raw) (hle : p.balance ≤ p'.balance) :
    tokens.decimals = tokens'.decimals ∧ 0 ≤ tokens.amount.raw ∧
      tokens.amount.raw ≤ tokens'.amount.raw := by
  rw [SpotPosition.tokens] at h
  rw [SpotPosition.tokens, ← hside] at h'
  exact ⟨(SpotMarket.decimals_of_tokensOf h).trans (SpotMarket.decimals_of_tokensOf h').symm,
    SpotMarket.tokensOf_nonneg h hindexed hbalance, SpotMarket.tokensOf_mono h h' hindexed hle⟩

end SpotPosition

end PerpExchange
