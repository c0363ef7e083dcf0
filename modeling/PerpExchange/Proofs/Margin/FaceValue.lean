import PerpExchange.Proofs.Margin.Position

/-!
Spot margin against face value.

A borrow is charged at least what it is worth and a deposit counts for at most what it is worth. A
listed market may have an initial weight of deposits below zero; such a market counts a deposit
against its owner as soon as the weighted value makes up a whole quote unit. In every other case a
deposit counts for nothing at the least.
-/

namespace PerpExchange

namespace SpotPosition

variable {p : SpotPosition} {m : SpotMarket} {price : Price} {kind : MarginKind}
  {x : PositionMargin} {value : QuoteAmount} {weight : Weight}

/-- What the tokens of a position are worth: a deposit rounded down, a borrow rounded up. -/
def faceValue (p : SpotPosition) (m : SpotMarket) (price : Price) :
    Except Violation QuoteAmount := do
  (← p.tokens m).quoteValue price p.side.rounding

lemma faceValue_of_tokens {tokens : TokenAmount} (h : p.tokens m = .ok tokens) :
    p.faceValue m price = tokens.quoteValue price p.side.rounding := by
  rw [faceValue, h, ok_bind]

/-- A value that weighs no more than in full counts for no more than itself. -/
lemma weighted_le (hvalue : 0 ≤ value.raw) (hweight : weight.raw ≤ 10 ^ 4) :
    (value.raw * weight.raw).tdiv (10 ^ 4) ≤ value.raw := by
  calc (value.raw * weight.raw).tdiv (10 ^ 4)
      ≤ (value.raw * 10 ^ 4).tdiv (10 ^ 4) :=
        Int.tdiv_le_tdiv (by norm_num) (mul_le_mul_of_nonneg_left hweight hvalue)
    _ = value.raw := Int.mul_tdiv_cancel _ (by norm_num)

lemma le_charged (hvalue : 0 ≤ value.raw) (hweight : 10 ^ 4 ≤ weight.raw) :
    value.raw ≤ Rounding.ceil.quotient (value.raw * weight.raw) (10 ^ 4) := by
  obtain ⟨hceil, -⟩ := Rounding.ceil_quotient_bounds (value.raw * weight.raw)
    (show (0 : ℤ) < 10 ^ 4 by norm_num)
  have hfull := mul_le_mul_of_nonneg_left hweight hvalue
  omega

/-- A value counts for nothing at the least until a weight below zero makes a quote unit of it. -/
lemma weighted_nonneg_iff (hvalue : 0 ≤ value.raw) (hweight : weight.raw ≤ 0) :
    0 ≤ (value.raw * weight.raw).tdiv (10 ^ 4) ↔ value.raw * -weight.raw < 10 ^ 4 := by
  have hworth : 0 ≤ value.raw * -weight.raw := mul_nonneg hvalue (by omega)
  have hquotient : (value.raw * weight.raw).tdiv (10 ^ 4) =
      -(value.raw * -weight.raw / 10 ^ 4) := by
    rw [← Int.tdiv_eq_ediv_of_nonneg hworth, mul_neg, Int.neg_tdiv, neg_neg]
  rw [hquotient]
  omega

lemma counted_nonneg_iff {tokens : TokenAmount} (hm : m.Listed)
    (hweight : m.assetWeight tokens kind = .ok weight) (hvalue : 0 ≤ value.raw) :
    0 ≤ (value.raw * weight.raw).tdiv (10 ^ 4) ↔
      kind = .maintenance ∨ value.raw * -m.initialAssetWeight.raw < 10 ^ 4 := by
  cases kind with
  | maintenance =>
    have hcounts := mul_nonneg hvalue (hm.assetWeight_nonneg hweight (.inl rfl))
    exact ⟨fun _ => .inl rfl, fun _ => Int.tdiv_nonneg hcounts (by norm_num)⟩
  | initial =>
    rcases le_or_gt 0 m.initialAssetWeight.raw with hpos | hneg
    · have hcounts := mul_nonneg hvalue (hm.assetWeight_nonneg hweight (.inr hpos))
      have hplain := mul_nonneg hvalue hpos
      refine ⟨fun _ => .inr ?_, fun _ => Int.tdiv_nonneg hcounts (by norm_num)⟩
      rw [mul_neg]
      omega
    · have hraw := hm.assetWeight_of_nonpos hweight hneg.le
      rw [weighted_nonneg_iff hvalue (hraw.trans_le hneg.le), hraw]
      exact ⟨.inr, fun h => h.resolve_left nofun⟩

/-- **A spot position is margined on its own side of its face value**, but for deposits that weigh
less than nothing. -/
theorem margin_within_face_value_iff (h : p.margin m price kind = .ok x) (hm : m.Listed)
    (hindexed : m.Indexed) (hbalance : 0 ≤ p.balance.raw) (hprice : 0 < price.raw) :
    ∃ value, p.faceValue m price = .ok value ∧
      (p.side = .deposit → x.requirement.raw = 0 ∧ x.collateral ≤ value ∧
        (0 ≤ x.collateral.raw ↔
          kind = .maintenance ∨ value.raw * -m.initialAssetWeight.raw < 10 ^ 4)) ∧
      (p.side = .borrow → x.collateral.raw = 0 ∧ value ≤ x.requirement) := by
  cases hside : p.side with
  | deposit =>
    obtain ⟨tokens, value, weight, htokens, hvalue, hweight, hrequirement, hcollateral⟩ :=
      margin_of_deposit h hside
    have hworth := TokenAmount.quoteValue_nonneg hvalue
      (SpotMarket.tokensOf_nonneg htokens hindexed hbalance) hprice.le
    refine ⟨value, by rw [faceValue_of_tokens htokens, hside]; exact hvalue, fun _ => ?_, nofun⟩
    rw [Fixed.le_def, hcollateral]
    exact ⟨hrequirement, weighted_le hworth (hm.assetWeight_le_full hweight),
      counted_nonneg_iff hm hweight hworth⟩
  | borrow =>
    obtain ⟨tokens, value, weight, htokens, hvalue, hweight, hrequirement, hcollateral⟩ :=
      margin_of_borrow h hside
    have hworth := TokenAmount.quoteValue_nonneg hvalue
      (SpotMarket.tokensOf_nonneg htokens hindexed hbalance) hprice.le
    refine ⟨value, by rw [faceValue_of_tokens htokens, hside]; exact hvalue, nofun, fun _ => ?_⟩
    rw [Fixed.le_def, hrequirement]
    exact ⟨hcollateral, le_charged hworth (hm.full_le_liabilityWeight hweight)⟩

/-- Five and a half tokens deposited. -/
def deposited : SpotPosition := { new ⟨1⟩ with balance := .ofRaw 5500000000 }

theorem margin_within_face_value_iff_volatile : ∃ x value,
    deposited.margin (.volatile ⟨1⟩ 9) (.ofRaw 18000000) .initial = .ok x ∧
    deposited.faceValue (.volatile ⟨1⟩ 9) (.ofRaw 18000000) = .ok value ∧
    x.requirement.raw = 0 ∧ 0 ≤ x.collateral.raw ∧ x.collateral ≤ value := by
  obtain ⟨x, hx, -⟩ : ∃ x, deposited.margin (.volatile ⟨1⟩ 9) (.ofRaw 18000000) .initial = .ok x ∧
      x.requirement.raw = 0 := by decide +kernel
  obtain ⟨value, hvalue, hworth⟩ : ∃ value,
      deposited.faceValue (.volatile ⟨1⟩ 9) (.ofRaw 18000000) = .ok value ∧
      value.raw = 99000000 := by decide +kernel
  have hindexed : (SpotMarket.volatile ⟨1⟩ 9).Indexed := fun side => by cases side <;> decide
  obtain ⟨value', hvalue', hdeposit, -⟩ :=
    margin_within_face_value_iff hx rfl hindexed (by decide) (by decide)
  obtain rfl : value = value' := by simpa [hvalue] using hvalue'
  obtain ⟨hrequirement, hle, hnonneg⟩ := hdeposit rfl
  refine ⟨x, value, hx, hvalue, hrequirement, hnonneg.mpr (.inr ?_), hle⟩
  rw [hworth]
  decide

/-- A listed market that takes a quarter of each deposit off its owner's initial collateral. -/
def inverted : SpotMarket :=
  { SpotMarket.volatile ⟨1⟩ 9 with initialAssetWeight := .ofRaw (-2500) }

/-- A deposit can count against its owner in a market that passes the check for a listing. -/
theorem deposit_counts_below_zero : inverted.Listed ∧ inverted.Indexed ∧
    0 ≤ deposited.balance.raw ∧ deposited.side = .deposit ∧
    ∃ x, deposited.margin inverted (.ofRaw 18000000) .initial = .ok x ∧
      x.collateral.raw = -24750000 := by
  refine ⟨rfl, fun side => ?_, by decide, rfl, by decide +kernel⟩
  cases side <;> decide

end SpotPosition

end PerpExchange
