import PerpExchange.Liquidation.Outcome
import PerpExchange.Proofs.Margin.Account

/-!
The margin check in front of a liquidation.

An account can be liquidated exactly when it has a failing check: the maintenance check if that
fails, otherwise the initial one of an account that is being liquidated already. A plan is gated by
the check when it computes that first, passes over an account without a failing check, and acts on
none but the failing check.
-/

namespace PerpExchange

namespace Account

variable {a : Account} {s : Snapshot} {check : MarginTotal}

lemma canBeLiquidated_eq (a : Account) (s : Snapshot) :
    a.canBeLiquidated s = (a.failingCheck s).map Option.isSome := by
  unfold canBeLiquidated failingCheck meetsMargin
  rcases a.margin s .maintenance with e | maintenance
  · rfl
  · simp only [ok_bind, bind_assoc, pure_bind]
    cases maintenance.isMet with
    | false => rfl
    | true =>
      simp only [if_true, not_true_eq_false, if_false]
      split_ifs
      · rcases a.margin s .initial with e | initial
        · rfl
        · simp only [ok_bind]
          cases initial.isMet <;> rfl
      · rfl

lemma canBeLiquidated_eq_error {e : Failure} :
    a.canBeLiquidated s = .error e ↔ a.failingCheck s = .error e := by
  rw [canBeLiquidated_eq]
  cases a.failingCheck s <;> simp [Except.map]

lemma canBeLiquidated_eq_false :
    a.canBeLiquidated s = .ok false ↔ a.failingCheck s = .ok none := by
  rw [canBeLiquidated_eq]
  cases a.failingCheck s <;> simp [Except.map]

lemma canBeLiquidated_eq_true :
    a.canBeLiquidated s = .ok true ↔ ∃ check, a.failingCheck s = .ok (some check) := by
  rw [canBeLiquidated_eq]
  cases a.failingCheck s <;> simp [Except.map, Option.isSome_iff_exists]

lemma failingCheck_eq_some (h : a.failingCheck s = .ok (some check)) :
    check.isMet = false ∧ ∃ maintenance, a.margin s .maintenance = .ok maintenance ∧
      if maintenance.isMet then a.status = .beingLiquidated ∧ a.margin s .initial = .ok check
      else check = maintenance := by
  simp only [failingCheck, bind_eq_ok] at h
  obtain ⟨maintenance, hmaintenance, h⟩ := h
  cases hmet : maintenance.isMet with
  | false =>
    simp only [hmet, Bool.false_eq_true, not_false_eq_true, if_true, pure_eq_ok] at h
    cases h
    exact ⟨hmet, check, hmaintenance, by simp [hmet]⟩
  | true =>
    simp only [hmet, not_true_eq_false, if_false] at h
    split_ifs at h with hstatus
    · simp only [bind_eq_ok, pure_eq_ok] at h
      obtain ⟨initial, hinitial, h⟩ := h
      split_ifs at h with hshort
      cases h
      exact ⟨by simpa using hshort, maintenance, hmaintenance, by simp [hmet, hstatus, hinitial]⟩
    · cases h

lemma margin_of_failingCheck (h : a.failingCheck s = .ok (some check))
    (hkind : check.kind = .maintenance) :
    a.margin s .maintenance = .ok check ∧ check.isMet = false := by
  obtain ⟨hshort, maintenance, hmaintenance, hcheck⟩ := failingCheck_eq_some h
  refine ⟨?_, hshort⟩
  split_ifs at hcheck
  · have hinitial := (margined_of_margin hcheck.2).kind_eq
    rw [hkind] at hinitial
    cases hinitial
  · rw [hcheck, hmaintenance]

/-- What every liquidation leaves besides the positions, and who is on its record. -/
structure Recorded (a after : Account) (liquidator : Liquidator) (record : LiquidationRecord) :
    Prop where
  frame : after = { a with
    perps := after.perps, spots := after.spots, status := .beingLiquidated
    nextLiquidation := a.takeLiquidationId.2.nextLiquidation }
  id_eq : record.id = a.nextLiquidation
  user_eq : record.user = a.id
  liquidator_eq : record.liquidator = liquidator.id
  time_eq : record.time = liquidator.time

variable {after changed : Account} {liquidator : Liquidator} {record : LiquidationRecord}
  {kind : LiquidationKind}

lemma recorded_of_recordLiquidation
    (h : changed.recordLiquidation liquidator check kind = .liquidated after record)
    (hchanged : changed = { a with perps := changed.perps, spots := changed.spots }) :
    a.Recorded after liquidator record ∧ record.kind = kind := by
  cases h
  rw [hchanged]
  exact ⟨⟨rfl, rfl, rfl, rfl, rfl⟩, rfl⟩

lemma Recorded.next_eq (h : a.Recorded after liquidator record)
    (hnext : a.nextLiquidation.toNat + 1 < UInt64.size) :
    after.nextLiquidation.toNat = a.nextLiquidation.toNat + 1 := by
  rw [h.frame]
  simp only [takeLiquidationId, if_pos hnext, UInt64.toNat_add, UInt64.toNat_one]
  exact Nat.mod_eq_of_lt hnext

end Account

/-- What a decision says of the failing check of the account: one without a failing check is passed
over for that reason, and nobody else is. -/
def Decision.RestsOn {α : Type} (check : α → MarginTotal) (failing : Option MarginTotal) :
    Decision α → Prop
  | .skip reason => reason = .sufficientCollateral ↔ failing = none
  | .act x => failing = some (check x)

/-- A plan that starts from the margin check of an account, and acts on the failing one. -/
structure Gated {α : Type} (a : Account) (s : Snapshot) (plan : Except Failure (Decision α))
    (check : α → MarginTotal) : Prop where
  checked : ∃ rest, plan = (a.failingCheck s >>= rest) ∧
    rest none = .ok (.skip .sufficientCollateral)
  decided : ∀ decision, plan = .ok decision →
    ∃ failing, a.failingCheck s = .ok failing ∧ decision.RestsOn check failing

end PerpExchange
