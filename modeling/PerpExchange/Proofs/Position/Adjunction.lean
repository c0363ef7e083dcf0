import PerpExchange.Proofs.Position.Spot

/-!
Stored balances and tokens as adjoint scales.

A balance is worth at least some tokens exactly if it is at least the balance that a deposit needs
for them, and at most some tokens exactly if it is at most the balance that they cover of a borrow.
So the tokens that a position is worth settle it: they repay the whole of a borrow, and they are all
that is in a deposit.
-/

namespace PerpExchange

namespace SpotMarket

variable {m : SpotMarket} {side : BalanceSide} {balance needed covered : Balance}
  {tokens worth : TokenAmount}

/-! ### The two sides as products -/

lemma le_depositTokens_iff (h : m.tokensOf balance .deposit = .ok worth) (hm : m.Indexed)
    (hbalance : 0 ≤ balance.raw) :
    tokens.amount.raw ≤ worth.amount.raw ↔
      tokens.amount.raw * m.tokenUnit ≤ balance.raw * (m.interest .deposit).raw := by
  have hvalue := mul_nonneg hbalance (hm .deposit).le
  rw [raw_tokensOf h, BalanceSide.rounding, Rounding.quotient, Int.tdiv_eq_ediv_of_nonneg hvalue,
    Int.le_ediv_iff_mul_le m.tokenUnit_pos]

lemma needed_le_iff (h : m.balanceOf tokens side true = .ok needed) (hm : m.Indexed) :
    needed.raw ≤ balance.raw ↔
      tokens.amount.raw * m.tokenUnit ≤ balance.raw * (m.interest side).raw := by
  obtain ⟨-, -, hneeded⟩ := balanceOf_eq_ok.mp h
  rw [hneeded, if_pos rfl, Rounding.ceil_quotient_le_iff _ (hm side)]

lemma borrowTokens_le_iff (h : m.tokensOf balance .borrow = .ok worth) :
    worth.amount.raw ≤ tokens.amount.raw ↔
      balance.raw * (m.interest .borrow).raw ≤ tokens.amount.raw * m.tokenUnit := by
  rw [raw_tokensOf h, BalanceSide.rounding, Rounding.ceil_quotient_le_iff _ m.tokenUnit_pos]

lemma le_covered_iff (h : m.balanceOf tokens side false = .ok covered) (hm : m.Indexed)
    (htokens : 0 ≤ tokens.amount.raw) :
    balance.raw ≤ covered.raw ↔
      balance.raw * (m.interest side).raw ≤ tokens.amount.raw * m.tokenUnit := by
  have hvalue := mul_nonneg htokens m.tokenUnit_pos.le
  obtain ⟨-, -, hcovered⟩ := balanceOf_eq_ok.mp h
  rw [hcovered, if_neg Bool.false_ne_true, Rounding.quotient, Int.tdiv_eq_ediv_of_nonneg hvalue,
    Int.le_ediv_iff_mul_le (hm side)]

/-! ### The adjunctions -/

/-- What tokens need of a deposit is the least balance that is worth them. -/
lemma le_depositTokens_iff_needed_le (hworth : m.tokensOf balance .deposit = .ok worth)
    (hneeded : m.balanceOf tokens .deposit true = .ok needed) (hm : m.Indexed)
    (hbalance : 0 ≤ balance.raw) :
    tokens.amount.raw ≤ worth.amount.raw ↔ needed.raw ≤ balance.raw := by
  rw [le_depositTokens_iff hworth hm hbalance, needed_le_iff hneeded hm]

/-- What tokens cover of a borrow is the largest balance that is worth no more. -/
lemma borrowTokens_le_iff_le_covered (hworth : m.tokensOf balance .borrow = .ok worth)
    (hcovered : m.balanceOf tokens .borrow false = .ok covered) (hm : m.Indexed)
    (htokens : 0 ≤ tokens.amount.raw) :
    worth.amount.raw ≤ tokens.amount.raw ↔ balance.raw ≤ covered.raw := by
  rw [borrowTokens_le_iff hworth, le_covered_iff hcovered hm htokens]

lemma needed_of_depositTokens (hworth : m.tokensOf balance .deposit = .ok worth) (hm : m.Indexed)
    (hbalance : 0 ≤ balance.raw) :
    ∃ needed, m.balanceOf worth .deposit true = .ok needed ∧ needed.raw ≤ balance.raw := by
  obtain ⟨⟨hdecimals, hfits⟩, htokens, -⟩ := tokensOf_eq_ok.mp hworth
  have hnonneg : 0 ≤ worth.amount.raw * m.tokenUnit :=
    mul_nonneg (tokensOf_nonneg hworth hm hbalance) m.tokenUnit_pos.le
  have hle := (le_depositTokens_iff hworth hm hbalance).mp le_rfl
  have hscaled := Int128.fits_of_nonneg_of_le hfits hnonneg hle
  have hquotient := Int128.fits_quotient .ceil hnonneg hscaled (hm .deposit)
  obtain ⟨needed, hneeded⟩ : ∃ needed, m.balanceOf worth .deposit true = .ok needed :=
    ⟨.ofRaw _ hquotient, balanceOf_eq_ok.mpr
      ⟨⟨htokens, hdecimals, hscaled⟩, (hm .deposit).ne', rfl⟩⟩
  exact ⟨needed, hneeded, (le_depositTokens_iff_needed_le hworth hneeded hm hbalance).mp le_rfl⟩

end SpotMarket

namespace SpotPosition

variable {p q : SpotPosition} {m : SpotMarket} {tokens worth : TokenAmount} {side : BalanceSide}
  {needed covered : Balance} {up : Bool}

lemma updateBalance_eq_draw (hside : p.side ≠ side) (hp : p.balance.raw ≠ 0)
    (hdecimals : tokens.decimals = m.decimals) (hworth : p.tokens m = .ok worth)
    (hcovers : tokens.amount.raw ≤ worth.amount.raw) :
    p.updateBalance tokens side m up = p.draw tokens m up := by
  unfold updateBalance Violation.guard
  rw [if_pos hdecimals, ok_bind, if_pos ⟨hside, hp⟩, hworth, ok_bind, if_pos hcovers]

/-- Where there is nothing on the other side, tokens pile up on their own. -/
lemma updateBalance_eq_pile (hp : p.balance.raw = 0) (hdecimals : tokens.decimals = m.decimals) :
    p.updateBalance tokens side m up = p.pile tokens side m up := by
  unfold updateBalance Violation.guard
  rw [if_pos hdecimals, ok_bind, if_neg fun h => h.2 hp]

lemma draw_succeeds
    (hneeded : m.balanceOf tokens p.side (up || p.side == .deposit) = .ok needed)
    (hnonneg : 0 ≤ needed.raw) (hp : 0 ≤ p.balance.raw)
    (htotal : min needed.raw p.balance.raw ≤ (m.total p.side).raw) :
    ∃ m' q, p.draw tokens m up = .ok (m', q) := by
  have hremoved : 0 ≤ (min needed p.balance).raw := by
    rw [Fixed.raw_min]
    omega
  have hleft : Fits (p.balance.raw - (min needed p.balance).raw) := by
    refine Int128.fits_of_nonneg_of_le p.balance.fits ?_ (by omega)
    rw [Fixed.raw_min]
    omega
  have hlower : ∃ m', m.lowerTotal p.side (min needed p.balance) = .ok m' :=
    SpotMarket.lowerTotal_succeeds hremoved (by rwa [Fixed.raw_min])
  have hdraw : ∃ result, p.draw tokens m up = .ok result := by
    refine bind_succeeds ⟨needed, hneeded⟩ fun _ h => ?_
    cases hneeded.symm.trans h
    refine bind_succeeds (Fixed.check_succeeds hleft) fun balance _ => ?_
    exact bind_succeeds hlower fun m' _ => ⟨_, rfl⟩
  obtain ⟨⟨m', q⟩, h⟩ := hdraw
  exact ⟨m', q, h⟩

/-! ### Settling what a position is worth -/

/-- A borrow is repaid by the tokens that it is worth. -/
lemma repaid_of_worth (hm : m.Indexed) (hside : p.side = .borrow) (hp : 0 < p.balance.raw)
    (hworth : p.tokens m = .ok worth)
    (hcovered : m.balanceOf worth .borrow false = .ok covered)
    (htotal : p.balance.raw ≤ (m.total .borrow).raw) :
    ∃ m' q, p.updateBalance worth .deposit m false = .ok (m', q) ∧ q.balance.raw = 0 := by
  have hworth' : m.tokensOf p.balance .borrow = .ok worth := hside ▸ hworth
  have hnonneg := SpotMarket.tokensOf_nonneg hworth' hm hp.le
  have hall : p.balance.raw ≤ covered.raw :=
    (SpotMarket.borrowTokens_le_iff_le_covered hworth' hcovered hm hnonneg).mp le_rfl
  have hother : p.side ≠ .deposit := fun hdeposit => nomatch hside.symm.trans hdeposit
  have hneeded : m.balanceOf worth p.side (false || p.side == .deposit) = .ok covered := by
    rw [hside]
    exact hcovered
  have hremoved : min covered.raw p.balance.raw = p.balance.raw := min_eq_right hall
  obtain ⟨m', q, hdraw⟩ :=
    draw_succeeds hneeded (hp.le.trans hall) hp.le (by rwa [hremoved, hside])
  refine ⟨m', q, ?_, ?_⟩
  · rw [updateBalance_eq_draw hother hp.ne' (SpotMarket.decimals_of_tokensOf hworth') hworth le_rfl]
    exact hdraw
  · obtain ⟨_, balance, _, h, hbalance, -, -, -, rfl⟩ := draw_eq_ok hdraw
    cases hneeded.symm.trans h
    show balance.raw = 0
    omega

lemma repaid_of_empty (hm : m.Indexed) (hside : p.side = .borrow) (hp : p.balance.raw = 0)
    (hworth : p.tokens m = .ok worth) (htotal : 0 ≤ (m.total .deposit).raw) :
    ∃ m' q, p.updateBalance worth .deposit m false = .ok (m', q) ∧ q.balance.raw = 0 := by
  have hworth' : m.tokensOf p.balance .borrow = .ok worth := hside ▸ hworth
  obtain ⟨⟨hdecimals, -⟩, htokens, hamount⟩ := SpotMarket.tokensOf_eq_ok.mp hworth'
  have hnothing : worth.amount.raw = 0 := by
    simp [hamount, hp, BalanceSide.rounding, Rounding.quotient]
  have hadded : m.balanceOf worth .deposit (false || BalanceSide.deposit == .borrow) = .ok 0 := by
    refine SpotMarket.balanceOf_eq_ok.mpr ⟨⟨htokens, hdecimals, ?_⟩, (hm .deposit).ne', ?_⟩
    · simpa [hnothing] using (0 : Int128).fits
    · simp [hnothing, Rounding.quotient]
  have hpile : p.pile worth .deposit m false =
      .ok (m.withTotal .deposit (m.total .deposit), { p with side := .deposit }) := by
    simp only [pile, bind_eq_ok, Fixed.add_eq_ok, SpotMarket.raiseTotal_eq_ok, pure_eq_ok]
    exact ⟨0, hadded, p.balance, by simp, _, ⟨_, by simp, htotal, rfl⟩, rfl⟩
  exact ⟨_, _, (updateBalance_eq_pile hp htokens).trans hpile, hp⟩

/-- The tokens that a deposit is worth are all the tokens in it. -/
lemma drained_of_worth (hm : m.Indexed) (hside : p.side = .deposit) (hp : 0 < p.balance.raw)
    (hworth : p.tokens m = .ok worth)
    (hneeded : m.balanceOf worth .deposit true = .ok needed)
    (htotal : needed.raw ≤ (m.total .deposit).raw) :
    ∃ m' q, p.updateBalance worth .borrow m false = .ok (m', q) ∧ q.side = .deposit ∧
      0 ≤ q.balance.raw ∧ ∃ left, q.tokens m' = .ok left ∧ left.amount.raw = 0 := by
  have hworth' : m.tokensOf p.balance .deposit = .ok worth := hside ▸ hworth
  have hnonneg := SpotMarket.tokensOf_nonneg hworth' hm hp.le
  have hother : p.side ≠ .borrow := fun hborrow => nomatch hside.symm.trans hborrow
  have hneeded' : m.balanceOf worth p.side (false || p.side == .deposit) = .ok needed := by
    rw [hside]
    exact hneeded
  obtain ⟨m', q, hdraw⟩ := draw_succeeds hneeded' (SpotMarket.balanceOf_nonneg hneeded hm hnonneg)
    hp.le (by rw [hside]; omega)
  have hupdate : p.updateBalance worth .borrow m false = .ok (m', q) :=
    (updateBalance_eq_draw hother hp.ne' (SpotMarket.decimals_of_tokensOf hworth') hworth
      le_rfl).trans hdraw
  obtain ⟨-, hdeposit, hbalance, left, hleft, hle⟩ :=
    deposit_of_withdrawal hm hside hp hworth hnonneg le_rfl hupdate
  have hleft_nonneg := SpotMarket.tokensOf_nonneg hleft hm hbalance
  obtain ⟨_, _, total, -, -, -, -, rfl, -⟩ := draw_eq_ok hdraw
  refine ⟨_, q, hupdate, hdeposit, hbalance, left, ?_, by omega⟩
  exact (SpotMarket.tokensOf_withTotal m p.side total q.balance q.side).trans hleft

/-- **Balances and tokens are adjoint.** A deposit is worth at least some tokens exactly if it is at
least what they need, rounded up; a borrow is worth at most some tokens exactly if it is at most
what they cover, rounded down. Where the totals suffice, the tokens that a borrow is worth repay the
whole of it, and the tokens that a deposit is worth leave a deposit of none. An empty borrow has
nothing to take off its side, and puts nothing on the other. -/
theorem balances_adjoint_to_tokens (m : SpotMarket) (hm : m.Indexed) :
    (∀ (balance needed : Balance) (tokens worth : TokenAmount), 0 ≤ balance.raw →
      m.tokensOf balance .deposit = .ok worth → m.balanceOf tokens .deposit true = .ok needed →
      (tokens.amount.raw ≤ worth.amount.raw ↔ needed.raw ≤ balance.raw)) ∧
    (∀ (balance covered : Balance) (tokens worth : TokenAmount), 0 ≤ tokens.amount.raw →
      m.tokensOf balance .borrow = .ok worth → m.balanceOf tokens .borrow false = .ok covered →
      (worth.amount.raw ≤ tokens.amount.raw ↔ balance.raw ≤ covered.raw)) ∧
    (∀ (p : SpotPosition) (worth : TokenAmount) (covered : Balance), p.side = .borrow →
      0 ≤ p.balance.raw → p.tokens m = .ok worth → m.balanceOf worth .borrow false = .ok covered →
      p.balance.raw ≤ (m.total .borrow).raw →
      (p.balance.raw = 0 → 0 ≤ (m.total .deposit).raw) →
      ∃ m' q, p.updateBalance worth .deposit m false = .ok (m', q) ∧ q.balance.raw = 0) ∧
    ∀ (p : SpotPosition) (worth : TokenAmount), p.side = .deposit → 0 < p.balance.raw →
      p.tokens m = .ok worth →
      ∃ needed, m.balanceOf worth .deposit true = .ok needed ∧ needed.raw ≤ p.balance.raw ∧
        (needed.raw ≤ (m.total .deposit).raw →
          ∃ m' q, p.updateBalance worth .borrow m false = .ok (m', q) ∧ q.side = .deposit ∧
            0 ≤ q.balance.raw ∧ ∃ left, q.tokens m' = .ok left ∧ left.amount.raw = 0) := by
  refine ⟨?_, ?_, ?_, ?_⟩
  · intro balance needed tokens worth hbalance hworth hneeded
    exact SpotMarket.le_depositTokens_iff_needed_le hworth hneeded hm hbalance
  · intro balance covered tokens worth htokens hworth hcovered
    exact SpotMarket.borrowTokens_le_iff_le_covered hworth hcovered hm htokens
  · intro p worth covered hside hp hworth hcovered htotal hempty
    rcases hp.eq_or_lt with hzero | hpos
    · exact repaid_of_empty hm hside hzero.symm hworth (hempty hzero.symm)
    · exact repaid_of_worth hm hside hpos hworth hcovered htotal
  · intro p worth hside hp hworth
    have hworth' : m.tokensOf p.balance .deposit = .ok worth := hside ▸ hworth
    obtain ⟨needed, hneeded, hle⟩ := SpotMarket.needed_of_depositTokens hworth' hm hp.le
    exact ⟨needed, hneeded, hle, drained_of_worth hm hside hp hworth hneeded⟩

/-- Six tokens are within the seven of the deposit and cover the five of the borrow, which are
settled by what they are worth. -/
theorem balances_adjoint_to_tokens_accrued :
    (∃ worth needed, accrued.tokensOf depositor.balance .deposit = .ok worth ∧
      accrued.balanceOf sixTokens .deposit true = .ok needed ∧
      sixTokens.amount.raw ≤ worth.amount.raw ∧ needed.raw ≤ depositor.balance.raw) ∧
    (∃ worth covered, accrued.tokensOf debtor.balance .borrow = .ok worth ∧
      accrued.balanceOf sixTokens .borrow false = .ok covered ∧
      worth.amount.raw ≤ sixTokens.amount.raw ∧ debtor.balance.raw ≤ covered.raw) ∧
    (∃ worth, debtor.tokens accrued = .ok worth ∧
      ∃ m' q, debtor.updateBalance worth .deposit accrued false = .ok (m', q) ∧
        q.balance.raw = 0) ∧
    ∃ worth, depositor.tokens accrued = .ok worth ∧
      ∃ m' q, depositor.updateBalance worth .borrow accrued false = .ok (m', q) ∧
        q.side = .deposit ∧ 0 ≤ q.balance.raw ∧
        ∃ left, q.tokens m' = .ok left ∧ left.amount.raw = 0 := by
  have hm : accrued.Indexed := fun side => by cases side <;> decide
  obtain ⟨hdeposit, hborrow, hrepaid, hdrained⟩ := balances_adjoint_to_tokens accrued hm
  refine ⟨⟨_, _, rfl, rfl, ?_⟩, ⟨_, _, rfl, rfl, ?_⟩, ⟨_, rfl, ?_⟩, ⟨_, rfl, ?_⟩⟩
  · have hwithin := hdeposit depositor.balance _ sixTokens _ (by decide) rfl rfl
    exact ⟨by decide, hwithin.mp (by decide)⟩
  · have hcovers := hborrow debtor.balance _ sixTokens _ (by decide) rfl rfl
    exact ⟨by decide, hcovers.mp (by decide)⟩
  · exact hrepaid debtor _ _ rfl (by decide) rfl rfl (by decide) (by decide)
  · obtain ⟨needed, hneeded, -, h⟩ := hdrained depositor _ rfl (by decide) rfl
    cases hneeded
    exact h (by decide)

end SpotPosition

end PerpExchange
