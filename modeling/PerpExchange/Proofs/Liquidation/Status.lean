import PerpExchange.Proofs.Liquidation.Run

/-!
The liquidation status over runs.

A liquidation leaves the account in liquidation, whatever its status was before, and no call takes
it out again. An account that is not in liquidation is liquidated only if it fails its maintenance
requirement. So the statuses of a run are the first one for a while, and from then on that of an
account in liquidation.
-/

namespace PerpExchange

lemma Account.meetsMargin_of_failingCheck {a : Account} {s : Snapshot} {check : MarginTotal}
    (h : a.failingCheck s = .ok (some check)) (hstatus : a.status ≠ .beingLiquidated) :
    a.meetsMargin s .maintenance = .ok false := by
  obtain ⟨hshort, maintenance, hmaintenance, hcheck⟩ := failingCheck_eq_some h
  split_ifs at hcheck
  · exact absurd hcheck.1 hstatus
  · rw [meetsMargin, hmaintenance, ok_bind, ← hcheck, hshort]
    rfl

/-- The step starts the liquidation of an account, which fails its maintenance requirement. -/
structure LiquidationStep.StartsLiquidation (x : LiquidationStep) : Prop where
  before_ne : x.before.status ≠ .beingLiquidated
  after_eq : x.after.status = .beingLiquidated
  failed : x.before.meetsMargin x.call.snapshot .maintenance = .ok false

/-- A step keeps the status of the account or starts its liquidation. -/
lemma LiquidationStep.status_cases (x : LiquidationStep) :
    x.after.status = x.before.status ∨ x.StartsLiquidation := by
  rcases x.result_cases with ⟨record, h, -⟩ | ⟨hafter, -⟩
  · obtain ⟨hrecorded, check, hcheck⟩ := recorded_of_result h
    have hstatus : x.after.status = .beingLiquidated := by rw [hrecorded.frame]
    by_cases hbefore : x.before.status = .beingLiquidated
    · exact .inl (hstatus.trans hbefore.symm)
    · exact .inr ⟨hbefore, hstatus, Account.meetsMargin_of_failingCheck hcheck hbefore⟩
  · exact .inl (by rw [hafter])

namespace Account

/-- The statuses of a run change at most once. -/
lemma statuses_of_history (a : Account) (calls : List LiquidationCall) :
    ∃ m n, (a.history calls).map (·.after.status) =
      List.replicate m a.status ++ List.replicate n .beingLiquidated := by
  induction calls generalizing a with
  | nil => exact ⟨0, 0, rfl⟩
  | cons call rest ih =>
    obtain ⟨m, n, hrest⟩ := ih (LiquidationStep.after ⟨a, call⟩)
    rw [history_cons, List.map_cons, hrest]
    rcases LiquidationStep.status_cases ⟨a, call⟩ with hkept | hstarts
    · exact ⟨m + 1, n, by rw [hkept, List.replicate_succ, List.cons_append]⟩
    · refine ⟨0, m + n + 1, ?_⟩
      rw [hstarts.after_eq, List.replicate_append_replicate, ← List.replicate_succ,
        List.replicate_zero, List.nil_append]

/-- **An account in liquidation stays in liquidation**, and any other one keeps its status until a
step finds it below its maintenance requirement and starts its liquidation. -/
theorem beingLiquidated_stays (a : Account) (calls : List LiquidationCall) :
    (∀ x ∈ a.history calls, x.after.status = x.before.status ∨ x.StartsLiquidation) ∧
      ∃ m n, (a.history calls).map (·.after.status) =
        List.replicate m a.status ++ List.replicate n .beingLiquidated :=
  ⟨fun x _ => x.status_cases, a.statuses_of_history calls⟩

/-- A takeover that finds no market, and two that take parts of a position. -/
def twiceTaken : List LiquidationCall :=
  [⟨.takeover ⟨0⟩ Fixed.one, ⟨⟨0⟩, ⟨2⟩⟩, .empty⟩,
    ⟨.takeover ⟨0⟩ (.ofRaw 300000007), ⟨⟨1⟩, ⟨2⟩⟩, .pooled⟩,
    ⟨.takeover ⟨0⟩ (.ofRaw 300000007), ⟨⟨2⟩, ⟨3⟩⟩, .pooled⟩]

theorem beingLiquidated_stays_overdrawn :
    (overdrawn.history twiceTaken).map (·.after.status) =
        [.active, .beingLiquidated, .beingLiquidated] ∧
      ∃ x ∈ overdrawn.history twiceTaken, x.StartsLiquidation := by
  obtain ⟨hsteps, -⟩ := beingLiquidated_stays overdrawn twiceTaken
  obtain ⟨x, hx, hchanged⟩ : ∃ x ∈ overdrawn.history twiceTaken,
      x.after.status ≠ x.before.status := by decide
  exact ⟨by decide, x, hx, (hsteps x hx).resolve_left hchanged⟩

def bankrupted : Account := { overdrawn with status := .bankrupt }

/-- A bankrupt account does not stay bankrupt when it is liquidated. -/
theorem bankrupt_enters_liquidation :
    ¬∀ x ∈ bankrupted.history twiceTaken, x.before.isBankrupt → x.after.isBankrupt := by
  decide

end Account

end PerpExchange
