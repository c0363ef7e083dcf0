import PerpExchange.Proofs.Account
import PerpExchange.Proofs.Venue.Journal
import PerpExchange.Venue.State

/-!
What commands leave of a venue.

A rejected command changes nothing, and a rejected order only opens an empty spot position. So the
other rejected commands may as well not have been given. The records of a venue grow by what its
journal reports of liquidations.
-/

namespace PerpExchange

/-- Orders open a position before they are looked at. -/
def Command.opensPosition : Command → Bool
  | .order .. => true
  | _ => false

def Command.liquidates : Command → Bool
  | .takeover .. | .settlement .. => true
  | _ => false

def Command.clears : Command → Bool
  | .clearRecords => true
  | _ => false

namespace Venue

variable {v v' : Venue} {c : Command} {e : Rejection} {reply : Reply}

lemma step_of_error (h : v.perform c = .error e) : v.step c = (v.afterRejection c, .error e) := by
  rw [step, h]

lemma step_of_ok (h : v.perform c = .ok (v', reply)) : v.step c = (v', .ok reply) := by
  rw [step, h]

/-! ### Rejected commands -/

lemma afterRejection_of_not_opensPosition (h : c.opensPosition = false) :
    v.afterRejection c = v := by
  cases c <;> first | rfl | cases h

lemma afterRejection_order (user : AccountId) (market : MarketIndex) (direction : Direction)
    (amount : Int128) (decrease : Bool) :
    v.afterRejection (.order user market direction amount decrease) =
      { v with accounts := modifyFirst (·.id == user) (·.ensureSpot market) v.accounts } := by
  rw [afterRejection, account]
  cases hfind : v.accounts.find? (·.id == user) with
  | none => rw [modifyFirst_of_find?_eq_none hfind]
  | some a =>
    refine congrArg (Venue.mk v.snapshot · v.records) (modifyFirst_congr fun b hb => ?_)
    cases hfind.symm.trans hb
    rfl

/-- **A rejected command changes no market, no oracle and no record**, and if it is not an order,
nothing at all. -/
theorem step_rejected (h : (v.step c).2 = .error e) :
    (v.step c).1.snapshot = v.snapshot ∧ (v.step c).1.records = v.records ∧
      (c.opensPosition = false → (v.step c).1 = v) := by
  cases hperform : v.perform c with
  | ok result =>
    rw [step_of_ok hperform] at h
    cases h
  | error e =>
    rw [step_of_error hperform]
    refine ⟨?_, ?_, afterRejection_of_not_opensPosition⟩
    all_goals
      cases c <;> first | rfl | rw [afterRejection_order]

/-- The commands of a run that are accepted, and all orders. -/
def effective (v : Venue) : List Command → List Command
  | [] => []
  | c :: rest =>
    if (v.step c).2.isOk || c.opensPosition then c :: effective (v.step c).1 rest
    else effective (v.step c).1 rest

lemma exists_error_of_not_isOk {ε α : Type} {x : Except ε α} (h : x.isOk = false) :
    ∃ e, x = .error e := by
  cases x with
  | error e => exact ⟨e, rfl⟩
  | ok a => cases h

/-- **The other rejected commands can be left out of a run.** -/
theorem run_effective (v : Venue) (cs : List Command) :
    (v.run (v.effective cs)).1 = (v.run cs).1 ∧
      (v.run (v.effective cs)).2.1.filter (·.isOk) = (v.run cs).2.1.filter (·.isOk) := by
  induction cs generalizing v with
  | nil => exact ⟨rfl, rfl⟩
  | cons c rest ih =>
    obtain ⟨hvenue, hanswers⟩ := ih (v.step c).1
    rw [effective]
    split_ifs with hkept
    · simp only [run, hvenue, List.filter_cons, hanswers]
      trivial
    · obtain ⟨hnot, horder⟩ : (v.step c).2.isOk = false ∧ c.opensPosition = false := by
        simpa using hkept
      obtain ⟨e, he⟩ := exists_error_of_not_isOk hnot
      have hsame : (v.step c).1 = v := (step_rejected he).2.2 horder
      rw [hsame] at hvenue hanswers ⊢
      simp only [run, hsame, hvenue, List.filter_cons, hnot, hanswers]
      trivial

/-! ### Records -/

lemma fill_records {user : AccountId} {market : MarketIndex} {order : Order}
    (h : v.fill user market order = .ok (v', reply)) : v'.records = v.records := by
  simp only [fill, bind_eq_ok] at h
  obtain ⟨account, -, ⟨m, oracle⟩, -, outcome, -, h⟩ := h
  split at h
  · cases h
    rfl
  · obtain ⟨trade, -, h⟩ := bind_eq_ok.mp h
    cases h
    rfl

lemma balance_records {user : AccountId} {market : MarketIndex} {side : BalanceSide}
    {amount : Int128} {roundUp : Bool}
    (h : v.balance user market side amount roundUp = .ok (v', reply)) : v'.records = v.records := by
  simp only [balance, bind_eq_ok] at h
  obtain ⟨account, -, m, -, ⟨m', position⟩, -, tokens, -, h⟩ := h
  cases h
  rfl

lemma transfer_records {source target : AccountId} {market : MarketIndex} {amount : Int128}
    (h : v.transfer source target market amount = .ok (v', reply)) : v'.records = v.records := by
  simp only [transfer, bind_eq_ok] at h
  obtain ⟨giver, -, taker, -, m, -, ⟨m', given, taken⟩, -, taker', -, h⟩ := h
  cases h
  rfl

lemma changePool_records {market : MarketIndex}
    {change : PerpMarket → OracleReading → Except Rejection Amm}
    (h : v.changePool market change = .ok (v', reply)) : v'.records = v.records := by
  simp only [changePool, bind_eq_ok] at h
  obtain ⟨⟨m, oracle⟩, -, amm, -, h⟩ := h
  cases h
  rfl

lemma settle_records (user : AccountId) (outcome : LiquidationOutcome) :
    (v.settle user outcome).records = v.records ++ outcome.record?.toList := by
  cases outcome with
  | none reason => exact (List.append_nil _).symm
  | liquidated a record => rfl

lemma reported_events (h : c.liquidates = false) : reported (v.events c) = [] := by
  cases c with
  | takeover | settlement => cases h
  | fill | spreads | repeg | prices =>
    dsimp only [events]
    split <;> simp
  | _ => rfl

lemma records_of_perform (h : v.perform c = .ok (v', reply)) (hliquidates : c.liquidates = false) :
    v'.records = if c.clears then [] else v.records := by
  cases c with
  | takeover | settlement => cases hliquidates
  | fill => exact fill_records h
  | balance => exact balance_records h
  | transfer => exact transfer_records h
  | spreads | repeg | rebalance | trade =>
    rw [perform] at h
    exact changePool_records h
  | readPerpOracle | readSpotOracle | records | clearRecords =>
    cases h
    rfl
  | revisePerp | reviseSpot | reviseAccount | prices | imbalance | jit | account =>
    obtain ⟨_, -, h⟩ := bind_eq_ok.mp h
    cases h
    rfl
  | order =>
    obtain ⟨_, -, h⟩ := bind_eq_ok.mp h
    dsimp only at h
    split_ifs at h
    all_goals
      obtain ⟨_, -, h⟩ := bind_eq_ok.mp h
      cases h
      rfl
  | canBeLiquidated =>
    obtain ⟨_, -, h⟩ := bind_eq_ok.mp h
    obtain ⟨_, -, h⟩ := bind_eq_ok.mp h
    cases h
    rfl
  | margin =>
    obtain ⟨_, -, h⟩ := bind_eq_ok.mp h
    obtain ⟨_, -, h⟩ := bind_eq_ok.mp h
    obtain ⟨_, -, h⟩ := bind_eq_ok.mp h
    cases h
    rfl

lemma step_records_of_outcome (user : AccountId)
    (call : Account → Except Failure LiquidationOutcome)
    (hperform : v.perform c = v.account user >>= fun a =>
      Rejection.ofFailure (call a) >>= fun outcome =>
        pure (v.settle user outcome, .liquidation outcome))
    (hevents : reported (v.events c) =
      (((v.account user).toOption.bind fun a => (call a).toOption).bind
        LiquidationOutcome.record?).toList)
    (hrejected : v.afterRejection c = v) :
    (v.step c).1.records = v.records ++ reported (v.events c) := by
  rw [hevents]
  cases ha : v.account user with
  | error e =>
    rw [ha] at hperform
    rw [step_of_error hperform, hrejected]
    exact (List.append_nil _).symm
  | ok a =>
    rw [ha] at hperform
    cases hcall : call a with
    | error failure =>
      have hperform : v.perform c = .error (.failure failure) := by
        rw [hperform, ok_bind, hcall]
        rfl
      rw [step_of_error hperform, hrejected]
      simp [Except.toOption, hcall]
    | ok outcome =>
      have hperform : v.perform c = .ok (v.settle user outcome, .liquidation outcome) := by
        rw [hperform, ok_bind, hcall]
        rfl
      rw [step_of_ok hperform]
      simp [Except.toOption, hcall, settle_records]

lemma step_records_of_liquidates (h : c.liquidates = true) :
    (v.step c).1.records = v.records ++ reported (v.events c) := by
  cases c with
  | takeover user liquidator market cap =>
    refine step_records_of_outcome user (·.liquidatePerp liquidator market cap v.snapshot) rfl ?_ rfl
    dsimp only [events]
    split
    · next a ha =>
      rw [Account.reported_takeoverEvents, ha]
      rfl
    · next e ha =>
      rw [ha]
      rfl
  | settlement user liquidator market asset cap =>
    refine step_records_of_outcome user (·.liquidatePnl liquidator market asset cap v.snapshot) rfl
      ?_ rfl
    dsimp only [events]
    split
    · next a ha =>
      rw [Account.reported_settlementEvents, ha]
      rfl
    · next e ha =>
      rw [ha]
      rfl
  | _ => cases h

/-- **A command adds to the records what it reports.** -/
theorem step_records (v : Venue) (c : Command) :
    (v.step c).1.records = (if c.clears then [] else v.records) ++ reported (v.events c) := by
  cases hliquidates : c.liquidates with
  | true =>
    have hclears : c.clears = false := by cases c <;> first | rfl | cases hliquidates
    rw [step_records_of_liquidates hliquidates, hclears]
    rfl
  | false =>
    rw [reported_events hliquidates, List.append_nil]
    cases hperform : v.perform c with
    | ok result =>
      rw [step_of_ok hperform]
      exact records_of_perform hperform hliquidates
    | error e =>
      have hclears : c.clears = false := by
        cases c <;> first | rfl | cases hperform
      have hrejected : (v.step c).2 = .error e := by rw [step_of_error hperform]
      rw [(step_rejected hrejected).2.1, hclears]
      rfl

/-- **The records are what the journal reports**, in the order of the calls, until they are
cleared. -/
theorem run_records (v : Venue) {cs : List Command} (h : ∀ c ∈ cs, c.clears = false) :
    (v.run cs).1.records = v.records ++ reported (v.run cs).2.2 := by
  induction cs generalizing v with
  | nil => exact (List.append_nil _).symm
  | cons c rest ih =>
    obtain ⟨hc, hrest⟩ := List.forall_mem_cons.mp h
    have hstep := step_records v c
    rw [hc] at hstep
    have hrun := ih (v.step c).1 hrest
    rw [hstep] at hrun
    simpa [run] using hrun

end Venue

end PerpExchange
