import Mathlib.Algebra.Order.BigOperators.Group.Finset
import PerpExchange.Proofs.Position.Holders
import PerpExchange.Proofs.Position.Spot

/-!
The totals of a spot market against the positions in it.

A bank is a market with the positions of all users in it. Calls come in any order; what a call
returns is committed, and a call that fails changes nothing. The totals are the sums of the
balances after every run. Each balance is therefore covered by the total of its side, and no total
can be brought below zero.
-/

namespace PerpExchange

/-! ### What can bring a total below zero -/

namespace SpotMarket

variable {m : SpotMarket} {side : BalanceSide} {amount : Balance} {name : String}

lemma storeTotal_ne_negative (h : 0 ≤ amount.raw) :
    m.storeTotal side amount ≠ .error (.balanceNegative name) :=
  bind_ne_error (Violation.guard_ne_error (.inl h)) fun _ _ => ok_ne_error

lemma raiseTotal_ne_negative (h : 0 ≤ (m.total side).raw + amount.raw) :
    m.raiseTotal side amount ≠ .error (.balanceNegative name) := by
  refine bind_ne_error (Fixed.ofChecked_ne_error Int128.check_ne_negative) fun next hnext => ?_
  exact storeTotal_ne_negative (Fixed.add_eq_ok.mp hnext ▸ h)

lemma lowerTotal_ne_negative (h : amount.raw ≤ (m.total side).raw) :
    m.lowerTotal side amount ≠ .error (.balanceNegative name) := by
  refine bind_ne_error (Fixed.ofChecked_ne_error Int128.check_ne_negative) fun next hnext => ?_
  refine storeTotal_ne_negative ?_
  rw [Fixed.sub_eq_ok.mp hnext]
  omega

end SpotMarket

namespace SpotPosition

variable {p q : SpotPosition} {m m' : SpotMarket} {tokens : TokenAmount} {side : BalanceSide}
  {up : Bool} {name : String}

/-- The totals of the market hold what the position has on either side. -/
def CoveredBy (p : SpotPosition) (m : SpotMarket) : Prop :=
  0 ≤ p.balance.raw ∧ ∀ side, p.balanceOn side ≤ (m.total side).raw

lemma balanceOn_nonneg (hp : 0 ≤ p.balance.raw) (side : BalanceSide) : 0 ≤ p.balanceOn side := by
  unfold balanceOn
  split_ifs
  · exact hp
  · exact le_rfl

lemma CoveredBy.total_nonneg (h : p.CoveredBy m) (side : BalanceSide) : 0 ≤ (m.total side).raw :=
  (balanceOn_nonneg h.1 side).trans (h.2 side)

lemma CoveredBy.balance_le (h : p.CoveredBy m) : p.balance.raw ≤ (m.total p.side).raw := by
  have := h.2 p.side
  rwa [balanceOn_side] at this

lemma draw_ne_negative (hp : p.CoveredBy m) :
    p.draw tokens m up ≠ .error (.balanceNegative name) := by
  have hcover := hp.balance_le
  refine bind_ne_error SpotMarket.balanceOf_ne_negative fun needed _ => ?_
  refine bind_ne_error (Fixed.ofChecked_ne_error Int128.check_ne_negative) fun balance _ => ?_
  refine bind_ne_error (SpotMarket.lowerTotal_ne_negative ?_) fun _ _ => ok_ne_error
  rw [Fixed.raw_min]
  omega

lemma pile_ne_negative (hm : m.Indexed) (htokens : 0 ≤ tokens.amount.raw)
    (htotal : 0 ≤ (m.total side).raw) :
    p.pile tokens side m up ≠ .error (.balanceNegative name) := by
  refine bind_ne_error SpotMarket.balanceOf_ne_negative fun added hadded => ?_
  refine bind_ne_error (Fixed.ofChecked_ne_error Int128.check_ne_negative) fun balance _ => ?_
  have := SpotMarket.balanceOf_nonneg hadded hm htokens
  exact bind_ne_error (SpotMarket.raiseTotal_ne_negative (by omega)) fun _ _ => ok_ne_error

lemma updateBalance_ne_negative (hm : m.Indexed) (hp : p.CoveredBy m)
    (htokens : 0 ≤ tokens.amount.raw) :
    p.updateBalance tokens side m up ≠ .error (.balanceNegative name) := by
  refine bind_ne_error (Violation.guard_ne_error (.inr nofun)) fun _ _ => ?_
  split_ifs with hother
  · refine bind_ne_error SpotMarket.tokensOf_ne_negative fun existing _ => ?_
    split_ifs with hcovers
    · exact draw_ne_negative hp
    · -- the side that the rest goes to is not the one that the balance has left
      refine bind_ne_error (SpotMarket.lowerTotal_ne_negative hp.balance_le) fun m₁ hm₁ => ?_
      obtain ⟨total, -, -, rfl⟩ := SpotMarket.lowerTotal_eq_ok.mp hm₁
      refine bind_ne_error TokenAmount.sub_ne_negative fun rest hrest => ?_
      have := TokenAmount.raw_of_sub hrest
      refine pile_ne_negative (hm.withTotal p.side total) (by omega) ?_
      rw [SpotMarket.total_withTotal, if_neg (Ne.symm hother.1)]
      exact hp.total_nonneg side
  · exact pile_ne_negative hm htokens (hp.total_nonneg side)

lemma update_ne_negative (hm : m.Indexed) (hp : p.CoveredBy m) (htokens : 0 ≤ tokens.amount.raw) :
    p.update tokens side m up ≠ .error (.balanceNegative name) := by
  refine bind_ne_error (updateBalance_ne_negative hm hp htokens) fun _ _ => ?_
  exact bind_ne_error Int128.check_ne_negative fun _ _ => ok_ne_error

end SpotPosition

/-! ### Runs -/

/-- A spot market and the position that each user has in it. -/
structure Bank (User : Type) where
  market : SpotMarket
  position : User → SpotPosition

inductive BankCall (User : Type) where
  /-- An update of a balance alone. -/
  | rebalance (user : User) (tokens : TokenAmount) (side : BalanceSide) (roundUp : Bool)
  /-- An update of a balance and the tally. -/
  | update (user : User) (tokens : TokenAmount) (side : BalanceSide) (roundUp : Bool)
  | transfer (source target : User) (tokens : TokenAmount)

variable {User : Type}

/-- The tokens are not negative, and nobody transfers to themselves. -/
def BankCall.Proper : BankCall User → Prop
  | .rebalance _ tokens _ _ => 0 ≤ tokens.amount.raw
  | .update _ tokens _ _ => 0 ≤ tokens.amount.raw
  | .transfer source target tokens => 0 ≤ tokens.amount.raw ∧ source ≠ target

instance [DecidableEq User] : DecidablePred (@BankCall.Proper User)
  | .rebalance _ tokens _ _ => inferInstanceAs (Decidable (0 ≤ tokens.amount.raw))
  | .update _ tokens _ _ => inferInstanceAs (Decidable (0 ≤ tokens.amount.raw))
  | .transfer source target tokens =>
    inferInstanceAs (Decidable (0 ≤ tokens.amount.raw ∧ source ≠ target))

namespace Bank

variable [DecidableEq User] {b b' : Bank User}

def put (b : Bank User) (m : SpotMarket) (user : User) (p : SpotPosition) : Bank User :=
  ⟨m, Function.update b.position user p⟩

@[simp] lemma position_put (b : Bank User) (m : SpotMarket) (user : User) (p : SpotPosition) :
    (b.put m user p).position = Function.update b.position user p := rfl

def call (b : Bank User) : BankCall User → Except Failure (Bank User)
  | .rebalance user tokens side roundUp => do
    let (m, p) ← (b.position user).updateBalance tokens side b.market roundUp
    pure (b.put m user p)
  | .update user tokens side roundUp => do
    let (m, p) ← (b.position user).update tokens side b.market roundUp
    pure (b.put m user p)
  | .transfer source target tokens => do
    let (m, p, q) ← SpotPosition.transfer tokens b.market (b.position source) (b.position target)
    pure ((b.put m source p).put m target q)

/-- The bank after all calls, and why those that failed did. -/
def run (b : Bank User) : List (BankCall User) → Bank User × List Failure
  | [] => (b, [])
  | c :: rest =>
    match b.call c with
    | .ok next => next.run rest
    | .error failure => ((b.run rest).1, failure :: (b.run rest).2)

variable [Fintype User]

/-- The totals of the market are the sums of the balances, of which none is negative. -/
structure Balanced (b : Bank User) : Prop where
  indexed : b.market.Indexed
  nonneg : ∀ u, 0 ≤ (b.position u).balance.raw
  total : ∀ side, (b.market.total side).raw = ∑ u, (b.position u).balanceOn side

omit [DecidableEq User] in
lemma Balanced.covered (hb : b.Balanced) (user : User) :
    (b.position user).CoveredBy b.market := by
  refine ⟨hb.nonneg user, fun side => ?_⟩
  rw [hb.total side]
  exact Finset.single_le_sum
    (fun u _ => SpotPosition.balanceOn_nonneg (hb.nonneg u) side) (Finset.mem_univ user)

omit [DecidableEq User] in
lemma Balanced.total_nonneg (hb : b.Balanced) (side : BalanceSide) :
    0 ≤ (b.market.total side).raw := by
  rw [hb.total side]
  exact Finset.sum_nonneg fun u _ => SpotPosition.balanceOn_nonneg (hb.nonneg u) side

lemma Balanced.put (hb : b.Balanced) {m : SpotMarket} {user : User} {p : SpotPosition}
    (h : SpotPosition.Rebooked b.market m (b.position user) p) : (b.put m user p).Balanced := by
  refine ⟨h.indexed hb.indexed, fun u => ?_, fun side => ?_⟩
  · rw [position_put]
    by_cases hu : u = user
    · rw [hu, Function.update_self]
      exact h.nonneg
    · rw [Function.update_of_ne hu]
      exact hb.nonneg u
  · show (m.total side).raw = _
    rw [position_put, sum_update fun q : SpotPosition => q.balanceOn side, h.total side,
      hb.total side]

lemma Balanced.put_update (hb : b.Balanced) {m : SpotMarket} {user : User} {p : SpotPosition}
    {tokens : TokenAmount} {side : BalanceSide} {up : Bool} (htokens : 0 ≤ tokens.amount.raw)
    (h : (b.position user).update tokens side b.market up = .ok (m, p)) :
    (b.put m user p).Balanced :=
  hb.put (SpotPosition.rebooked_of_update hb.indexed (hb.nonneg user) htokens h)

omit [Fintype User] in
lemma position_put_of_ne {m : SpotMarket} {user other : User} {p : SpotPosition}
    (h : other ≠ user) : (b.put m user p).position other = b.position other := by
  rw [position_put, Function.update_of_ne h]

lemma Balanced.call (hb : b.Balanced) {c : BankCall User} (hc : c.Proper)
    (h : b.call c = .ok b') : b'.Balanced := by
  cases c with
  | rebalance user tokens side up =>
    simp only [Bank.call, bind_eq_ok, Failure.liftM_violation_eq_ok, pure_eq_ok] at h
    obtain ⟨⟨m, p⟩, hp, rfl⟩ := h
    exact hb.put (SpotPosition.rebooked_of_updateBalance hb.indexed (hb.nonneg user) hc hp)
  | update user tokens side up =>
    simp only [Bank.call, bind_eq_ok, Failure.liftM_violation_eq_ok, pure_eq_ok] at h
    obtain ⟨⟨m, p⟩, hp, rfl⟩ := h
    exact hb.put_update hc hp
  | transfer source target tokens =>
    simp only [Bank.call, bind_eq_ok, pure_eq_ok] at h
    obtain ⟨⟨m, p, q⟩, hmoved, rfl⟩ := h
    obtain ⟨m₁, hwithdraw, hdeposit⟩ := SpotPosition.transfer_eq_ok hmoved
    have hmid : (b.put m₁ source p).Balanced := hb.put_update hc.1 hwithdraw
    rw [← position_put_of_ne (b := b) hc.2.symm] at hdeposit
    exact hmid.put_update hc.1 hdeposit

/-- No call on a balanced bank fails over a negative balance. -/
lemma Balanced.call_ne_negative (hb : b.Balanced) {c : BankCall User} (hc : c.Proper)
    (name : String) : b.call c ≠ .error (.violation (.balanceNegative name)) := by
  cases c with
  | rebalance user tokens side up =>
    refine bind_ne_error (Failure.liftM_violation_ne_error ?_) fun _ _ => ok_ne_error
    exact SpotPosition.updateBalance_ne_negative hb.indexed (hb.covered user) hc
  | update user tokens side up =>
    refine bind_ne_error (Failure.liftM_violation_ne_error ?_) fun _ _ => ok_ne_error
    exact SpotPosition.update_ne_negative hb.indexed (hb.covered user) hc
  | transfer source target tokens =>
    refine bind_ne_error ?_ fun _ _ => ok_ne_error
    refine bind_ne_error Failure.liftM_refusal_ne_violation fun _ _ => ?_
    refine bind_ne_error (Failure.liftM_violation_ne_error
      (SpotPosition.update_ne_negative hb.indexed (hb.covered source) hc.1)) fun ⟨m₁, p⟩ hp => ?_
    -- the target is covered in the market that the withdrawal leaves
    have hmid : (b.put m₁ source p).Balanced :=
      hb.put_update hc.1 (Failure.liftM_violation_eq_ok.mp hp)
    have htarget := hmid.covered target
    rw [position_put_of_ne hc.2.symm] at htarget
    refine bind_ne_error (Failure.liftM_violation_ne_error
      (SpotPosition.update_ne_negative hmid.indexed htarget hc.1)) fun _ _ => ok_ne_error

lemma Balanced.run (hb : b.Balanced) {calls : List (BankCall User)}
    (hcalls : ∀ c ∈ calls, c.Proper) :
    (b.run calls).1.Balanced ∧
      ∀ failure ∈ (b.run calls).2, ∀ name, failure ≠ .violation (.balanceNegative name) := by
  induction calls generalizing b with
  | nil => exact ⟨hb, nofun⟩
  | cons c rest ih =>
    rw [List.forall_mem_cons] at hcalls
    obtain ⟨hc, hrest⟩ := hcalls
    rw [Bank.run]
    cases h : b.call c with
    | ok next => exact ih (hb.call hc h) hrest
    | error failure =>
      obtain ⟨hlast, hfailures⟩ := ih hb hrest
      refine ⟨hlast, List.forall_mem_cons.mpr ⟨fun name hname => ?_, hfailures⟩⟩
      exact hb.call_ne_negative hc name (hname ▸ h)

/-- **The totals equal the sums of the balances after every run.** No balance and no total becomes
negative, and no call fails because one would. -/
theorem run_stays_balanced (b : Bank User) (calls : List (BankCall User)) (hm : b.market.Indexed)
    (hnonneg : ∀ u, 0 ≤ (b.position u).balance.raw)
    (hdeposits : b.market.depositBalance.raw =
      ∑ u with (b.position u).side = .deposit, (b.position u).balance.raw)
    (hborrows : b.market.borrowBalance.raw =
      ∑ u with (b.position u).side = .borrow, (b.position u).balance.raw)
    (hcalls : ∀ c ∈ calls, c.Proper) :
    let last := (b.run calls).1
    last.market.depositBalance.raw =
        ∑ u with (last.position u).side = .deposit, (last.position u).balance.raw ∧
      last.market.borrowBalance.raw =
        ∑ u with (last.position u).side = .borrow, (last.position u).balance.raw ∧
      (∀ u, 0 ≤ (last.position u).balance.raw) ∧
      0 ≤ last.market.depositBalance.raw ∧ 0 ≤ last.market.borrowBalance.raw ∧
      ∀ failure ∈ (b.run calls).2, ∀ name, failure ≠ .violation (.balanceNegative name) := by
  intro last
  rw [Finset.sum_filter] at hdeposits hborrows
  have hb : b.Balanced := ⟨hm, hnonneg, fun side => by cases side <;> assumption⟩
  obtain ⟨hlast, hfailures⟩ := hb.run hcalls
  rw [Finset.sum_filter, Finset.sum_filter]
  exact ⟨hlast.total .deposit, hlast.total .borrow, hlast.nonneg, hlast.total_nonneg .deposit,
    hlast.total_nonneg .borrow, hfailures⟩

/-- One user has a deposit and the other a borrow. -/
def lending : Bank Bool :=
  ⟨SpotPosition.accrued, fun u => if u then SpotPosition.depositor else SpotPosition.debtor⟩

/-- The borrower is paid out, the depositor borrows, and a call is in the wrong decimals. -/
def swapped : List (BankCall Bool) :=
  [.transfer true false SpotPosition.sixTokens,
    .rebalance true ⟨.ofInt 3000000, 6⟩ .borrow true,
    .update false ⟨.ofInt 800, 9⟩ .deposit false]

theorem run_stays_balanced_swapped :
    let last := (lending.run swapped).1
    ((last.position true).side = .borrow ∧ (last.position false).side = .deposit ∧
        (lending.run swapped).2.length = 1) ∧
      last.market.depositBalance.raw =
        ∑ u with (last.position u).side = .deposit, (last.position u).balance.raw ∧
      ∀ failure ∈ (lending.run swapped).2, ∀ name,
        failure ≠ .violation (.balanceNegative name) := by
  intro last
  obtain ⟨hdeposits, -, -, -, -, hfailures⟩ :=
    run_stays_balanced lending swapped (fun side => by cases side <;> decide) (by decide)
      (by decide) (by decide) (by decide)
  exact ⟨by decide, hdeposits, hfailures⟩

end Bank

end PerpExchange
