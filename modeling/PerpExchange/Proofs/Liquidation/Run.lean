import PerpExchange.Proofs.Liquidation.Eligibility

/-!
Runs of liquidations against an account.

The calls come one after the other, each with the markets that it meets. A liquidation commits the
account that it leaves; a call that is refused, or that finds nothing to liquidate, commits nothing.
The history of a run holds every call together with the account before it.
-/

namespace PerpExchange

inductive LiquidationRequest where
  | takeover (market : MarketIndex) (cap : BaseAmount)
  | settlement (market asset : MarketIndex) (cap : QuoteAmount)

/-- A request with who makes it and the markets that it meets. -/
structure LiquidationCall where
  request : LiquidationRequest
  liquidator : Liquidator
  snapshot : Snapshot

def Account.liquidate (a : Account) (call : LiquidationCall) : Except Failure LiquidationOutcome :=
  match call.request with
  | .takeover market cap => a.liquidatePerp call.liquidator market cap call.snapshot
  | .settlement market asset cap => a.liquidatePnl call.liquidator market asset cap call.snapshot

/-- A call and the account that it meets. -/
structure LiquidationStep where
  before : Account
  call : LiquidationCall

namespace LiquidationStep

def result (x : LiquidationStep) : Except Failure LiquidationOutcome := x.before.liquidate x.call

/-- The account that is committed, and the record if it was liquidated. -/
def committed (x : LiquidationStep) : Account × Option LiquidationRecord :=
  match x.result with
  | .ok (.liquidated after record) => (after, some record)
  | _ => (x.before, none)

def after (x : LiquidationStep) : Account := x.committed.1

def record? (x : LiquidationStep) : Option LiquidationRecord := x.committed.2

lemma result_cases (x : LiquidationStep) :
    (∃ record, x.result = .ok (.liquidated x.after record) ∧ x.record? = some record) ∨
      (x.after = x.before ∧ x.record? = none) := by
  unfold after record? committed
  split
  · next after record h => exact .inl ⟨record, h, rfl⟩
  · exact .inr ⟨rfl, rfl⟩

/-- A liquidation leaves its trace on the account, and rests on a margin check that failed. -/
lemma recorded_of_result {x : LiquidationStep} {record : LiquidationRecord}
    (h : x.result = .ok (.liquidated x.after record)) :
    x.before.Recorded x.after x.call.liquidator record ∧
      ∃ check, x.before.failingCheck x.call.snapshot = .ok (some check) := by
  obtain ⟨a, ⟨request, liquidator, s⟩⟩ := x
  cases request with
  | takeover market cap =>
    obtain ⟨t, m, hplanned, happly⟩ := Takeover.applied_of_liquidatePerp h
    exact ⟨(Takeover.recorded_of_apply happly).1, t.check, hplanned.check_eq⟩
  | settlement market asset cap =>
    obtain ⟨t, m, loss, pool, value, held, hplanned, happly⟩ := Settlement.applied_of_liquidatePnl h
    exact ⟨Settlement.recorded_of_apply happly, t.check, hplanned.check_eq⟩

end LiquidationStep

namespace Account

/-- Every call of a run with the account that it meets. -/
def history (a : Account) : List LiquidationCall → List LiquidationStep
  | [] => []
  | call :: rest => ⟨a, call⟩ :: history (LiquidationStep.after ⟨a, call⟩) rest

def liquidateAll (a : Account) : List LiquidationCall → Account
  | [] => a
  | call :: rest => liquidateAll (LiquidationStep.after ⟨a, call⟩) rest

variable (a : Account) (call : LiquidationCall) (rest : List LiquidationCall)

@[simp] lemma history_nil : a.history [] = [] := rfl

@[simp] lemma history_cons : a.history (call :: rest) =
    ⟨a, call⟩ :: (LiquidationStep.after ⟨a, call⟩).history rest := rfl

@[simp] lemma liquidateAll_nil : a.liquidateAll [] = a := rfl

@[simp] lemma liquidateAll_cons : a.liquidateAll (call :: rest) =
    (LiquidationStep.after ⟨a, call⟩).liquidateAll rest := rfl

lemma map_call_history (calls : List LiquidationCall) : (a.history calls).map (·.call) = calls := by
  induction calls generalizing a with
  | nil => rfl
  | cons call rest ih => rw [history_cons, List.map_cons, ih]

end Account

end PerpExchange
