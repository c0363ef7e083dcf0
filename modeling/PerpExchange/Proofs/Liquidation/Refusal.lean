import PerpExchange.Proofs.Liquidation.Eligibility

/-!
What a liquidation is refused for.

Only the cap is looked at before anything else. Past it, a liquidation is refused when something is
not there: a market, an oracle price or a position. No other request is turned down.
-/

namespace PerpExchange

/-- Something that was looked up is missing, or is not what it should be. -/
def Refusal.IsLookup : Refusal → Prop
  | .perpMarketMissing _ | .spotMarketMissing _ | .oracleMissing _ | .positionMissing _ => True
  | .oraclePriceNotPositive _ | .spotMarketsDiffer _ _ => True
  | _ => False

variable {e : Refusal} {s : Snapshot}

namespace Snapshot

variable {i : MarketIndex}

lemma perp_ne_error (he : ¬e.IsLookup) : s.perp i ≠ .error e := by
  unfold perp
  split
  · exact ok_ne_error
  · rintro ⟨⟩
    exact he trivial

lemma spot_ne_error (he : ¬e.IsLookup) : s.spot i ≠ .error e := by
  unfold spot
  split
  · exact ok_ne_error
  · rintro ⟨⟩
    exact he trivial

lemma perpOracle_ne_error (he : ¬e.IsLookup) : s.perpOracle i ≠ .error e := by
  unfold perpOracle
  split
  · exact ok_ne_error
  · rintro ⟨⟩
    exact he trivial

lemma guard_price_ne_error {price : ℤ} (he : ¬e.IsLookup) :
    Refusal.guard (0 < price) (.oraclePriceNotPositive price) ≠ .error e :=
  Refusal.guard_ne_error (.inr fun h => he (h ▸ trivial))

lemma pricedPerpOracle_ne_error (he : ¬e.IsLookup) : s.pricedPerpOracle i ≠ .error e :=
  bind_ne_error (perpOracle_ne_error he) fun _ _ =>
    bind_ne_error (guard_price_ne_error he) fun _ _ => ok_ne_error

lemma spotPrice_ne_error (he : ¬e.IsLookup) : s.spotPrice i ≠ .error e := by
  unfold spotPrice
  split_ifs
  · exact ok_ne_error
  split
  · exact bind_ne_error (guard_price_ne_error he) fun _ _ => ok_ne_error
  · rintro ⟨⟩
    exact he trivial

end Snapshot

open Failure

namespace MarginTotal

variable {t : MarginTotal}

lemma addSpot_ne_refused {p : SpotPosition} (he : ¬e.IsLookup) :
    t.addSpot s p ≠ .error (.refusal e) := by
  refine refusal_bind_ne_refusal (Snapshot.spot_ne_error he) fun _ => ?_
  refine refusal_bind_ne_refusal (Snapshot.spotPrice_ne_error he) fun _ => ?_
  refine violation_bind_ne_refusal fun _ => violation_bind_ne_refusal fun _ => ?_
  split <;> exact ok_ne_error

lemma addPerp_ne_refused {p : PerpPosition} (he : ¬e.IsLookup) :
    t.addPerp s p ≠ .error (.refusal e) := by
  refine refusal_bind_ne_refusal (Snapshot.perp_ne_error he) fun _ => ?_
  refine refusal_bind_ne_refusal (Snapshot.pricedPerpOracle_ne_error he) fun _ => ?_
  exact violation_bind_ne_refusal fun _ => violation_bind_ne_refusal fun _ => ok_ne_error

end MarginTotal

namespace Account

variable {a : Account} {market asset : MarketIndex} {kind : MarginKind}

lemma perp_ne_error (he : ¬e.IsLookup) : a.perp market ≠ .error e := by
  unfold perp
  split
  · exact ok_ne_error
  · rintro ⟨⟩
    exact he trivial

lemma margin_ne_refused (he : ¬e.IsLookup) : a.margin s kind ≠ .error (.refusal e) :=
  bind_ne_error (foldlM_ne_error (fun _ _ => MarginTotal.addSpot_ne_refused he) _ _) fun _ _ =>
    foldlM_ne_error (fun _ _ => MarginTotal.addPerp_ne_refused he) _ _

lemma failingCheck_ne_refused (he : ¬e.IsLookup) : a.failingCheck s ≠ .error (.refusal e) := by
  refine bind_ne_error (margin_ne_refused he) fun maintenance _ => ?_
  split
  · exact ok_ne_error
  split
  · exact bind_ne_error (margin_ne_refused he) fun _ _ => ok_ne_error
  · exact ok_ne_error

end Account

namespace PerpMarket

variable {m : PerpMarket}

lemma availablePnl_ne_refused {bank : SpotMarket} (he : ¬e.IsLookup) :
    m.availablePnl bank ≠ .error (.refusal e) :=
  refusal_bind_ne_refusal (Refusal.guard_ne_error (.inr fun h => he (h ▸ trivial)))
    fun _ => liftM_violation_ne_refusal

lemma poolValue_ne_refused (he : ¬e.IsLookup) : m.poolValue s ≠ .error (.refusal e) :=
  refusal_bind_ne_refusal (Snapshot.spot_ne_error he) fun _ =>
    bind_ne_error (availablePnl_ne_refused he) fun _ _ =>
      refusal_bind_ne_refusal (Snapshot.spotPrice_ne_error he) fun _ => liftM_violation_ne_refusal

lemma settlementAsset_ne_refused {pnl : QuoteAmount} {price : Price} {decimals : UInt32}
    {held : TokenAmount} : m.settlementAsset pnl price decimals held ≠ .error (.refusal e) :=
  violation_bind_ne_refusal fun _ => violation_bind_ne_refusal fun _ =>
    violation_bind_ne_refusal fun _ => violation_bind_ne_refusal fun _ =>
      liftM_violation_ne_refusal

lemma baseToCover_ne_refused {check : MarginTotal} {oracle : Price} :
    m.baseToCover check oracle ≠ .error (.refusal e) := by
  refine violation_bind_ne_refusal fun _ => violation_bind_ne_refusal fun _ => ?_
  split
  · exact ok_ne_error
  refine violation_bind_ne_refusal fun _ => violation_bind_ne_refusal fun _ => ?_
  split
  · exact ok_ne_error
  exact violation_bind_ne_refusal fun _ => violation_bind_ne_refusal fun _ => ok_ne_error

lemma takeoverPrice_ne_refused {oracle : Price} {direction : Direction} {size : BaseAmount} :
    m.takeoverPrice oracle direction size ≠ .error (.refusal e) := by
  cases direction with
  | long =>
    exact violation_bind_ne_refusal fun _ => violation_bind_ne_refusal fun _ =>
      violation_bind_ne_refusal fun _ => violation_bind_ne_refusal fun _ => ok_ne_error
  | short =>
    exact violation_bind_ne_refusal fun _ => violation_bind_ne_refusal fun _ =>
      violation_bind_ne_refusal fun _ => violation_bind_ne_refusal fun _ =>
        violation_bind_ne_refusal fun _ => violation_bind_ne_refusal fun _ => ok_ne_error

end PerpMarket

/-! ### The two ways to liquidate -/

variable {user : Account} {market asset : MarketIndex}

lemma Takeover.plan_ne_refused {cap : BaseAmount} (hcap : 0 < cap.raw) (he : ¬e.IsLookup) :
    plan user market cap s ≠ .error (.refusal e) := by
  refine refusal_bind_ne_refusal (Refusal.guard_ne_error (.inl hcap)) fun _ => ?_
  refine refusal_bind_ne_refusal (Snapshot.perp_ne_error he) fun _ => ?_
  refine refusal_bind_ne_refusal (Snapshot.pricedPerpOracle_ne_error he) fun _ => ?_
  refine bind_ne_error (Account.failingCheck_ne_refused he) fun check _ => ?_
  cases check with
  | none => exact ok_ne_error
  | some check =>
    refine refusal_bind_ne_refusal (Account.perp_ne_error he) fun position => ?_
    split
    · exact ok_ne_error
    refine violation_bind_ne_refusal fun _ => ?_
    refine bind_ne_error PerpMarket.baseToCover_ne_refused fun _ _ => ?_
    dsimp only
    split
    · exact ok_ne_error
    refine bind_ne_error PerpMarket.takeoverPrice_ne_refused fun _ _ => ?_
    exact violation_bind_ne_refusal fun _ => violation_bind_ne_refusal fun _ =>
      violation_bind_ne_refusal fun _ => violation_bind_ne_refusal fun _ => ok_ne_error

lemma Settlement.plan_ne_refused {cap : QuoteAmount} (hcap : 0 < cap.raw) (he : ¬e.IsLookup) :
    plan user market asset cap s ≠ .error (.refusal e) := by
  refine refusal_bind_ne_refusal (Refusal.guard_ne_error (.inl hcap)) fun _ => ?_
  refine refusal_bind_ne_refusal (Snapshot.perp_ne_error he) fun _ => ?_
  refine refusal_bind_ne_refusal (Snapshot.pricedPerpOracle_ne_error he) fun _ => ?_
  refine refusal_bind_ne_refusal (Snapshot.spot_ne_error he) fun _ => ?_
  refine refusal_bind_ne_refusal (Snapshot.spotPrice_ne_error he) fun _ => ?_
  refine bind_ne_error (Account.failingCheck_ne_refused he) fun check _ => ?_
  cases check with
  | none => exact ok_ne_error
  | some check =>
    refine refusal_bind_ne_refusal (Account.perp_ne_error he) fun _ => ?_
    refine violation_bind_ne_refusal fun _ => ?_
    split
    · exact ok_ne_error
    split
    · exact ok_ne_error
    refine violation_bind_ne_refusal fun _ => ?_
    refine bind_ne_error (PerpMarket.poolValue_ne_refused he) fun _ _ => ?_
    refine violation_bind_ne_refusal fun _ => violation_bind_ne_refusal fun _ => ?_
    dsimp only
    split
    · exact ok_ne_error
    exact bind_ne_error PerpMarket.settlementAsset_ne_refused fun _ _ => ok_ne_error

lemma Decision.carryOut_ne_refused {α : Type} {apply : α → Except Violation LiquidationOutcome}
    (decision : Decision α) : decision.carryOut apply ≠ .error (.refusal e) := by
  cases decision with
  | act x => exact liftM_violation_ne_refusal
  | skip reason => exact ok_ne_error

namespace Account

/-- With a positive cap, a takeover is refused only because a look-up failed. -/
theorem liquidatePerp_refused {liquidator : Liquidator} {cap : BaseAmount} (hcap : 0 < cap.raw)
    (h : user.liquidatePerp liquidator market cap s = .error (.refusal e)) : e.IsLookup := by
  by_contra he
  rw [liquidatePerp_eq] at h
  exact bind_ne_error (Takeover.plan_ne_refused hcap he)
    (fun decision _ => Decision.carryOut_ne_refused decision) h

theorem liquidatePnl_refused {liquidator : Liquidator} {cap : QuoteAmount} (hcap : 0 < cap.raw)
    (h : user.liquidatePnl liquidator market asset cap s = .error (.refusal e)) : e.IsLookup := by
  by_contra he
  rw [liquidatePnl_eq] at h
  exact bind_ne_error (Settlement.plan_ne_refused hcap he)
    (fun decision _ => Decision.carryOut_ne_refused decision) h

end Account

end PerpExchange
