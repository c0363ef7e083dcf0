import PerpExchange.Proofs.Liquidation.Refusal
import PerpExchange.Proofs.Oracle.Divergence
import PerpExchange.Settings.Config

/-!
What settings without a fault can be used for.

The test of the settings and the operations that read them are separate programs. Settings that pass
the test make none of those operations fail over a setting, and fees keep to their bounds. One thing
slips through: a divergence of less than a millionth is no longer positive in millionths, so that a
mark price on the oracle price itself counts as too far away.
-/

namespace PerpExchange

/-! ### Fees -/

lemma FeeSample.newest_ne_halfLifeZero {samples : List FeeSample} :
    newest samples ≠ .error .halfLifeZero := by
  unfold newest
  split
  · exact nofun
  · split <;> exact nofun

lemma Failure.orStop_bind_ne_refusal {α β : Type} {site : String} {x : Option α}
    {f : α → Except Failure β} {e : Refusal} (hf : ∀ a, f a ≠ .error (.refusal e)) :
    (orStop site x >>= f) ≠ .error (.refusal e) :=
  bind_ne_error (by cases x <;> exact nofun) fun a _ => hf a

lemma FeeSample.weight_ne_refusal {d : DecimalArithmetic} {halfLife : UInt64}
    {newest sample : FeeSample} {e : Refusal} :
    weight d halfLife newest sample ≠ .error (.refusal e) := by
  refine Failure.orStop_bind_ne_refusal fun halfLives => ?_
  split <;> exact nofun

lemma FeeSample.addWeighted_ne_refusal {d : DecimalArithmetic} {halfLife : UInt64}
    {newest : FeeSample} {e : Refusal} {totals : d.Number × d.Number} {samples : List FeeSample} :
    addWeighted d halfLife newest totals samples ≠ .error (.refusal e) := by
  induction samples generalizing totals with
  | nil => exact ok_ne_error
  | cons s rest ih =>
    refine bind_ne_error weight_ne_refusal fun w _ => ?_
    refine Failure.orStop_bind_ne_refusal fun fee => ?_
    refine Failure.orStop_bind_ne_refusal fun fees => ?_
    exact Failure.orStop_bind_ne_refusal fun weights => ih

namespace FeeStrategy

variable {d : DecimalArithmetic} {strategy : FeeStrategy} {samples : List FeeSample}

lemma decayedMean_ne_halfLifeZero {halfLife : UInt64} (h : halfLife ≠ 0) :
    decayedMean d halfLife samples ≠ .error (.refusal .halfLifeZero) := by
  refine Failure.refusal_bind_ne_refusal (Refusal.guard_ne_error (.inl h)) fun _ => ?_
  refine Failure.refusal_bind_ne_refusal FeeSample.newest_ne_halfLifeZero fun _ => ?_
  refine bind_ne_error FeeSample.addWeighted_ne_refusal fun ⟨fees, weights⟩ _ => ?_
  dsimp only
  split
  · exact ok_ne_error
  · refine Failure.orStop_bind_ne_refusal fun mean => ?_
    split <;> exact nofun

lemma fee_ne_halfLifeZero (h : strategy ≠ .ewma 0) :
    strategy.fee d samples ≠ .error (.refusal .halfLifeZero) := by
  cases strategy with
  | ewma halfLife => exact decayedMean_ne_halfLifeZero fun hzero => h (hzero ▸ rfl)
  | average =>
    exact Failure.refusal_bind_ne_refusal FeeSample.newest_ne_halfLifeZero fun _ => ok_ne_error
  | max => exact Failure.refusal_bind_ne_refusal FeeSample.newest_ne_halfLifeZero fun _ => ok_ne_error
  | maxOverSlots lookback =>
    exact Failure.refusal_bind_ne_refusal FeeSample.newest_ne_halfLifeZero fun _ => ok_ne_error

end FeeStrategy

namespace FeePolicy

variable {d : DecimalArithmetic} {policy : FeePolicy} {samples : List FeeSample} {fee : ℕ}

lemma fee_ne_halfLifeZero (h : policy.strategy ≠ .ewma 0) :
    policy.fee d samples ≠ .error (.refusal .halfLifeZero) :=
  bind_ne_error (FeeStrategy.fee_ne_halfLifeZero h) fun _ _ => ok_ne_error

lemma fee_bounds (hle : policy.minFee ≤ policy.maxFee) (h : policy.fee d samples = .ok fee) :
    policy.minFee.toNat ≤ fee ∧ fee ≤ policy.maxFee.toNat := by
  have hle' := UInt64.le_iff_toNat_le.mp hle
  obtain ⟨asked, -, hfee⟩ := bind_eq_ok.mp h
  cases hfee
  omega

end FeePolicy

/-! ### Settings -/

namespace Config

variable {c : Config}

/-- What the operations that read the settings rely on. -/
structure Valid (c : Config) : Prop where
  denominator_pos : 0 < c.oracleRails.divergence.denominator.toNat
  pnl_cap_pos : 0 < c.liquidation.maxPnlTransfer.raw
  base_cap_pos : 0 < c.liquidation.maxBaseTransfer.raw
  fee_bounds : c.priorityFee.minFee ≤ c.priorityFee.maxFee
  halfLife : c.priorityFee.strategy ≠ .ewma 0

lemma valid_of_validate (h : c.validate = .ok ()) : c.Valid := by
  simp only [validate, bind_eq_ok, ConfigFault.guard_eq_ok] at h
  obtain ⟨-, ⟨hden, -⟩, -, -, -, -, -, ⟨hpnl, hbase⟩, -, hfees, hhalfLife⟩ := h
  refine ⟨Nat.pos_of_ne_zero fun hzero => hden ?_, hpnl, hbase, hfees, hhalfLife⟩
  exact UInt64.toNat_inj.mp hzero

/-- Every operation that reads the settings can do with them. -/
structure Usable (c : Config) : Prop where
  /-- Every spread above the least number is judged. -/
  divergence_judged : ∀ spread : Percentage, -2 ^ 127 < spread.raw →
    ∃ verdict, c.oracleRails.divergence.isTooDivergent spread = .ok verdict
  fee_ne_halfLifeZero : ∀ d samples,
    c.priorityFee.fee d samples ≠ .error (.refusal .halfLifeZero)
  fee_bounds : ∀ d samples fee, c.priorityFee.fee d samples = .ok fee →
    c.priorityFee.minFee.toNat ≤ fee ∧ fee ≤ c.priorityFee.maxFee.toNat
  takeover_ne_amount : ∀ (user : Account) liquidator market s amount,
    user.liquidatePerp liquidator market c.liquidation.maxBaseTransfer s ≠
      .error (.refusal (.amountNotPositive amount))
  settlement_ne_amount : ∀ (user : Account) liquidator market asset s amount,
    user.liquidatePnl liquidator market asset c.liquidation.maxPnlTransfer s ≠
      .error (.refusal (.amountNotPositive amount))

lemma Valid.usable (h : c.Valid) : c.Usable where
  divergence_judged _ hspread := DivergenceRails.isTooDivergent_succeeds h.denominator_pos hspread
  fee_ne_halfLifeZero _ _ := FeePolicy.fee_ne_halfLifeZero h.halfLife
  fee_bounds _ _ _ hfee := FeePolicy.fee_bounds h.fee_bounds hfee
  takeover_ne_amount _ _ _ _ _ := Account.liquidatePerp_refused h.base_cap_pos
  settlement_ne_amount _ _ _ _ _ _ := Account.liquidatePnl_refused h.pnl_cap_pos

/-- **Settings without a fault are usable**, whatever they are used on. A mark price on the oracle
price is accepted with them exactly if their divergence is at least a millionth. -/
theorem validated_usable_iff (h : c.validate = .ok ()) :
    c.Usable ∧
      (c.oracleRails.divergence.isTooDivergent 0 = .ok false ↔
        c.oracleRails.divergence.denominator.toNat ≤
          10 ^ 6 * c.oracleRails.divergence.numerator.toNat) := by
  have hvalid := valid_of_validate h
  refine ⟨hvalid.usable, ?_⟩
  obtain ⟨verdict, hverdict⟩ := hvalid.usable.divergence_judged 0 (by decide)
  have hzero := DivergenceRails.isTooDivergent_zero_iff hverdict
  rw [hverdict, ← not_lt, ← hzero]
  simp

theorem validated_usable_iff_mainnet :
    mainnet.validate = .ok () ∧ mainnet.Usable ∧
      mainnet.oracleRails.divergence.isTooDivergent 0 = .ok false := by
  have h : mainnet.validate = .ok () := by decide +kernel
  obtain ⟨husable, hzero⟩ := validated_usable_iff h
  exact ⟨h, husable, hzero.mpr (by decide)⟩

/-- A divergence of a ten millionth passes the test, and a spread of zero reaches it. -/
theorem fine_divergence_flags_zero :
    let fine : Config :=
      { standard with oracleRails := { OracleRails.standard with divergence := ⟨1, 10000000⟩ } }
    fine.validate = .ok () ∧ fine.oracleRails.divergence.isTooDivergent 0 = .ok true := by
  decide +kernel

end Config

end PerpExchange
