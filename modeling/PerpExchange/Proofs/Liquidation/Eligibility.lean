import PerpExchange.Proofs.Liquidation.Settlement
import PerpExchange.Proofs.Liquidation.Takeover

/-!
Liquidations against the question whether an account can be liquidated.

The question and the check in front of a liquidation are two programs. They give the same answer for
every account: both fail alike, a liquidation finds sufficient collateral exactly where the answer
is no, and what it records is the check that failed.
-/

namespace PerpExchange

/-- The record is of a margin check that failed: the maintenance one if that did, otherwise the
initial one. -/
def LiquidationRecord.OfFailing (record : LiquidationRecord) (a : Account) (s : Snapshot) : Prop :=
  record.collateral.raw < record.requirement.raw ∧
    ∃ maintenance, a.margin s .maintenance = .ok maintenance ∧
      if maintenance.isMet then
        ∃ initial, a.margin s .initial = .ok initial ∧
          record.requirement = initial.requirement ∧ record.collateral = initial.collateral
      else
        record.requirement = maintenance.requirement ∧ record.collateral = maintenance.collateral

def Decision.carryOut {α : Type} (apply : α → Except Violation LiquidationOutcome) :
    Decision α → Except Failure LiquidationOutcome
  | .skip reason => .ok (.none reason)
  | .act x => liftM (apply x)

namespace Account

variable {a : Account} {s : Snapshot} {result : Except Failure LiquidationOutcome}

/-- The result of a liquidation agrees with whether the account can be liquidated. -/
structure Answers (a : Account) (s : Snapshot) (result : Except Failure LiquidationOutcome) :
    Prop where
  healthy : result = .ok (.none .sufficientCollateral) ↔ a.canBeLiquidated s = .ok false
  failed : (∃ e, a.canBeLiquidated s = .error e ∧ result = .error e) ↔
    ∃ e, a.canBeLiquidated s = .error e
  recorded : ∀ after record, result = .ok (.liquidated after record) →
    a.canBeLiquidated s = .ok true ∧ record.OfFailing a s

lemma ofFailing_of_failingCheck {check : MarginTotal} {record : LiquidationRecord}
    (h : a.failingCheck s = .ok (some check))
    (hrequirement : record.requirement = check.requirement)
    (hcollateral : record.collateral = check.collateral) : record.OfFailing a s := by
  obtain ⟨hshort, maintenance, hmaintenance, hcheck⟩ := failingCheck_eq_some h
  constructor
  · rw [hrequirement, hcollateral, ← not_le, ← MarginTotal.isMet_iff, hshort]
    exact Bool.false_ne_true
  · refine ⟨maintenance, hmaintenance, ?_⟩
    split_ifs at hcheck ⊢
    · exact ⟨check, hcheck.2, hrequirement, hcollateral⟩
    · exact hcheck ▸ ⟨hrequirement, hcollateral⟩

section Gated

variable {α : Type} {plan : Except Failure (Decision α)} {check : α → MarginTotal}
  {apply : α → Except Violation LiquidationOutcome}

/-- The record that `apply` leaves is of the check that the plan rested on. -/
def Records (apply : α → Except Violation LiquidationOutcome) (check : α → MarginTotal) : Prop :=
  ∀ x outcome, apply x = .ok outcome → ∃ after record, outcome = .liquidated after record ∧
    record.requirement = (check x).requirement ∧ record.collateral = (check x).collateral

/-- Past a failing check, an account is liquidated over that check or passed over for another
reason. -/
lemma outcome_of_failing {failing : MarginTotal} {outcome : LiquidationOutcome}
    (h : Gated a s plan check) (happly : Records apply check)
    (hfailing : a.failingCheck s = .ok (some failing))
    (houtcome : (plan >>= Decision.carryOut apply) = .ok outcome) :
    (∃ reason, outcome = .none reason ∧ reason ≠ .sufficientCollateral) ∨
    ∃ after record, outcome = .liquidated after record ∧
      record.requirement = failing.requirement ∧ record.collateral = failing.collateral := by
  obtain ⟨decision, hdecision, houtcome⟩ := bind_eq_ok.mp houtcome
  obtain ⟨found, hfound, hrests⟩ := h.decided decision hdecision
  cases hfailing.symm.trans hfound
  cases decision with
  | skip reason =>
    cases houtcome
    exact .inl ⟨reason, rfl, fun hreason => nomatch hrests.mp hreason⟩
  | act x =>
    cases hrests
    exact .inr (happly x outcome (Failure.liftM_violation_eq_ok.mp houtcome))

/-- A liquidation that is gated by the margin check, and records the check it acts on, agrees with
whether the account can be liquidated. -/
lemma answers_of_gated (h : Gated a s plan check) (happly : Records apply check)
    (hresult : result = plan >>= Decision.carryOut apply) : a.Answers s result := by
  obtain ⟨rest, hplan, hnone⟩ := h.checked
  have hfailed : ∀ e, a.failingCheck s = .error e → result = .error e := fun e he => by
    rw [hresult, hplan, he]
    rfl
  have hskipped : a.failingCheck s = .ok none → result = .ok (.none .sufficientCollateral) :=
    fun hcheck => by
      rw [hresult, hplan, hcheck, ok_bind, hnone]
      rfl
  exact {
    healthy := by
      rw [canBeLiquidated_eq_false]
      refine ⟨fun houtcome => ?_, hskipped⟩
      rcases hfailing : a.failingCheck s with e | _ | failing
      · cases (hfailed e hfailing).symm.trans houtcome
      · rfl
      · rcases outcome_of_failing h happly hfailing (hresult.symm.trans houtcome) with
          ⟨reason, hreason, hother⟩ | ⟨after, record, hliquidated, -⟩
        · cases hreason
          exact absurd rfl hother
        · cases hliquidated
    failed := by
      simp only [canBeLiquidated_eq_error]
      constructor
      · rintro ⟨e, he, -⟩
        exact ⟨e, he⟩
      · rintro ⟨e, he⟩
        exact ⟨e, he, hfailed e he⟩
    recorded := fun after record houtcome => by
      rw [canBeLiquidated_eq_true]
      rcases hfailing : a.failingCheck s with e | _ | failing
      · cases (hfailed e hfailing).symm.trans houtcome
      · cases (hskipped hfailing).symm.trans houtcome
      · rcases outcome_of_failing h happly hfailing (hresult.symm.trans houtcome) with
          ⟨reason, hreason, -⟩ | ⟨after', record', hliquidated, hrequirement, hcollateral⟩
        · cases hreason
        · cases hliquidated
          exact ⟨⟨failing, rfl⟩, ofFailing_of_failingCheck hfailing hrequirement hcollateral⟩ }

end Gated

variable {market asset : MarketIndex} {m : PerpMarket} {oracle : OracleReading}

lemma liquidatePerp_eq (a : Account) (liquidator : Liquidator) (cap : BaseAmount) :
    a.liquidatePerp liquidator market cap s =
      Takeover.plan a market cap s >>= Decision.carryOut (·.apply a market liquidator) :=
  bind_congr fun decision => by cases decision <;> rfl

lemma liquidatePnl_eq (a : Account) (liquidator : Liquidator) (cap : QuoteAmount) :
    a.liquidatePnl liquidator market asset cap s =
      Settlement.plan a market asset cap s >>=
        Decision.carryOut (·.apply a market asset liquidator) :=
  bind_congr fun decision => by cases decision <;> rfl

/-- **The two ways to liquidate agree with whether an account can be liquidated**, as long as what
they look up first is there. -/
theorem liquidations_answer (a : Account) (liquidator : Liquidator)
    (hmarket : s.perp market = .ok m) (horacle : s.perpOracle market = .ok oracle)
    (hprice : 0 < oracle.price.raw) :
    (∀ cap : BaseAmount, 0 < cap.raw → a.Answers s (a.liquidatePerp liquidator market cap s)) ∧
      ∀ (cap : QuoteAmount) (asset : MarketIndex) (bank : SpotMarket) (price : Price),
        0 < cap.raw → s.spot asset = .ok bank → s.spotPrice asset = .ok price →
        a.Answers s (a.liquidatePnl liquidator market asset cap s) := by
  constructor
  · intro cap hcap
    refine answers_of_gated (Takeover.gated_plan hcap hmarket horacle hprice)
      (fun t outcome h => ?_) (a.liquidatePerp_eq liquidator cap)
    obtain ⟨after, position, record, rfl, htaken⟩ := Takeover.apply_eq_ok h
    exact ⟨after, record, rfl, htaken.requirement_eq, htaken.collateral_eq⟩
  · intro cap asset bank price hcap hbank hassetPrice
    refine answers_of_gated
      (Settlement.gated_plan hcap hmarket horacle hprice hbank hassetPrice)
      (fun t outcome h => ?_) (a.liquidatePnl_eq liquidator cap)
    obtain ⟨after, debited, quote, record, rfl, happlied⟩ := Settlement.apply_eq_ok h
    exact ⟨after, record, rfl, happlied.requirement_eq, happlied.collateral_eq⟩

theorem liquidations_answer_overdrawn :
    overdrawn.canBeLiquidated .pooled = .ok true ∧
    (∃ after record,
      overdrawn.liquidatePerp ⟨⟨0⟩, ⟨2⟩⟩ ⟨0⟩ Fixed.one .pooled = .ok (.liquidated after record) ∧
      record.OfFailing overdrawn .pooled ∧
      after.perps.map (·.base.raw) = [1500000000] ∧ after.perps.map (·.quote.raw) = [-36112500]) ∧
    ∃ after record,
      overdrawn.liquidatePnl ⟨⟨0⟩, ⟨2⟩⟩ ⟨0⟩ ⟨1⟩ Fixed.one .pooled = .ok (.liquidated after record) ∧
      record.OfFailing overdrawn .pooled ∧ after.perps.map (·.quote.raw) = [-44000000] := by
  obtain ⟨m, oracle, hmarket, horacle, hprice⟩ : ∃ m oracle, Snapshot.pooled.perp ⟨0⟩ = .ok m ∧
      Snapshot.pooled.perpOracle ⟨0⟩ = .ok oracle ∧ 0 < oracle.price.raw :=
    ⟨_, _, rfl, rfl, by decide⟩
  obtain ⟨hperp, hpnl⟩ := liquidations_answer overdrawn ⟨⟨0⟩, ⟨2⟩⟩ hmarket horacle hprice
  obtain ⟨taken, takeover, htaken, hbase, hquote⟩ : ∃ after record,
      overdrawn.liquidatePerp ⟨⟨0⟩, ⟨2⟩⟩ ⟨0⟩ Fixed.one .pooled = .ok (.liquidated after record) ∧
      after.perps.map (·.base.raw) = [1500000000] ∧ after.perps.map (·.quote.raw) = [-36112500] :=
    ⟨_, _, rfl, rfl, by decide +kernel⟩
  obtain ⟨settled, settlement, hsettled, hpaid⟩ : ∃ after record,
      overdrawn.liquidatePnl ⟨⟨0⟩, ⟨2⟩⟩ ⟨0⟩ ⟨1⟩ Fixed.one .pooled = .ok (.liquidated after record) ∧
      after.perps.map (·.quote.raw) = [-44000000] := ⟨_, _, rfl, rfl⟩
  obtain ⟨hfailing, htakeover⟩ := (hperp Fixed.one (by decide)).recorded taken takeover htaken
  have hanswers := hpnl Fixed.one ⟨1⟩ _ _ (by decide) rfl rfl
  exact ⟨hfailing, ⟨taken, takeover, htaken, htakeover, hbase, hquote⟩, settled, settlement, hsettled,
    (hanswers.recorded settled settlement hsettled).2, hpaid⟩

end Account

end PerpExchange
