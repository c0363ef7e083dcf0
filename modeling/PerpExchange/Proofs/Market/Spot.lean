import Mathlib.Tactic.Positivity
import PerpExchange.Market.Spot
import PerpExchange.Proofs.Number.Fixed

/-!
What stored balances are worth, as facts about the stored integers.

The value of a balance is the balance times its index, negative for a borrow. On either side it is
worth the floor of its value in tokens: a deposit counts for the tokens that are whole, and a borrow
for every token begun. A balance for an amount of tokens is rounded by less than one index. Where a
conversion fails, it is not over a negative balance.
-/

namespace PerpExchange

/-- What a token on this side counts for. -/
def BalanceSide.sign : BalanceSide → ℤ
  | .deposit => 1
  | .borrow => -1

/-- How the worth of a balance on this side is rounded. -/
def BalanceSide.rounding : BalanceSide → Rounding
  | .deposit => .truncate
  | .borrow => .ceil

lemma BalanceSide.sign_of_ne {side other : BalanceSide} (h : side ≠ other) :
    side.sign = -other.sign := by
  cases side <;> cases other <;> first | rfl | exact absurd rfl h

lemma TokenAmount.raw_of_sub {a b c : TokenAmount} (h : a.sub b = .ok c) :
    c.amount.raw = a.amount.raw - b.amount.raw := by
  simp only [sub, check, bind_eq_ok, Int128.check_eq_ok, pure_eq_ok] at h
  obtain ⟨-, -, amount, hamount, rfl⟩ := h
  exact hamount

lemma TokenAmount.sub_ne_negative {a b : TokenAmount} {name : String} :
    a.sub b ≠ .error (.balanceNegative name) := by
  refine bind_ne_error (Violation.guard_ne_error (.inr nofun)) fun _ _ => ?_
  exact bind_ne_error Int128.check_ne_negative fun _ _ => ok_ne_error

namespace SpotMarket

variable {m : SpotMarket} {side : BalanceSide} {balance balance' : Balance}
  {tokens tokens' : TokenAmount} {up : Bool} {name : String}

/-- The value that makes up one token. -/
def tokenUnit (m : SpotMarket) : ℤ := 10 ^ (balanceDecimals - m.decimals.toNat)

lemma tokenUnit_pos (m : SpotMarket) : 0 < m.tokenUnit := by
  unfold tokenUnit
  positivity

/-- The larger index in tokens, rounded up: what an update can lose to rounding. -/
def roundingLoss (m : SpotMarket) : ℤ :=
  Rounding.ceil.quotient (max m.depositIndex.raw m.borrowIndex.raw) m.tokenUnit

lemma interest_le_roundingLoss (m : SpotMarket) (side : BalanceSide) :
    (m.interest side).raw ≤ m.roundingLoss * m.tokenUnit := by
  obtain ⟨hle, -⟩ := Rounding.ceil_quotient_bounds
    (max m.depositIndex.raw m.borrowIndex.raw) m.tokenUnit_pos
  refine le_trans ?_ hle
  cases side with
  | deposit => exact le_max_left _ _
  | borrow => exact le_max_right _ _

def Indexed (m : SpotMarket) : Prop := ∀ side, 0 < (m.interest side).raw

def value (m : SpotMarket) (side : BalanceSide) (balance : ℤ) : ℤ :=
  side.sign * (balance * (m.interest side).raw)

lemma value_add (m : SpotMarket) (side : BalanceSide) (x y : ℤ) :
    m.value side (x + y) = m.value side x + m.value side y := by
  unfold value
  ring

lemma withTotal_frame (m : SpotMarket) (side : BalanceSide) (total : Balance) :
    ∃ depositBalance borrowBalance,
      m.withTotal side total = { m with depositBalance, borrowBalance } := by
  cases side with
  | deposit => exact ⟨total, m.borrowBalance, rfl⟩
  | borrow => exact ⟨m.depositBalance, total, rfl⟩

@[simp] lemma interest_withTotal (m : SpotMarket) (side s : BalanceSide) (total : Balance) :
    (m.withTotal side total).interest s = m.interest s := by cases side <;> cases s <;> rfl

@[simp] lemma decimals_withTotal (m : SpotMarket) (side : BalanceSide) (total : Balance) :
    (m.withTotal side total).decimals = m.decimals := by cases side <;> rfl

@[simp] lemma total_withTotal (m : SpotMarket) (side s : BalanceSide) (total : Balance) :
    (m.withTotal side total).total s = if s = side then total else m.total s := by
  cases side <;> cases s <;> rfl

@[simp] lemma tokenUnit_withTotal (m : SpotMarket) (side : BalanceSide) (total : Balance) :
    (m.withTotal side total).tokenUnit = m.tokenUnit := by
  rw [tokenUnit, decimals_withTotal, tokenUnit]

@[simp] lemma value_withTotal (m : SpotMarket) (side s : BalanceSide) (total : Balance)
    (balance : ℤ) : (m.withTotal side total).value s balance = m.value s balance := by
  rw [value, interest_withTotal, value]

lemma Indexed.withTotal (hm : m.Indexed) (side : BalanceSide) (total : Balance) :
    (m.withTotal side total).Indexed := fun s => by
  rw [interest_withTotal]
  exact hm s

lemma tokenDivisor_eq_ok {unit : ℤ} :
    m.tokenDivisor = .ok unit ↔ m.decimals.toNat ≤ balanceDecimals ∧ unit = m.tokenUnit := by
  simp only [tokenDivisor, bind_eq_ok, Violation.guard_eq_ok, pure_eq_ok]
  constructor
  · rintro ⟨-, hdecimals, rfl⟩
    refine ⟨hdecimals, ?_⟩
    simp [tokenUnit]
  · rintro ⟨hdecimals, rfl⟩
    refine ⟨(), hdecimals, ?_⟩
    simp [tokenUnit]

lemma tokensOf_eq_ok :
    m.tokensOf balance side = .ok tokens ↔
      (m.decimals.toNat ≤ balanceDecimals ∧ Fits (balance.raw * (m.interest side).raw)) ∧
      tokens.decimals = m.decimals ∧ tokens.amount.raw =
        side.rounding.quotient (balance.raw * (m.interest side).raw) m.tokenUnit := by
  simp only [tokensOf, bind_eq_ok, Fixed.mul_eq_ok, tokenDivisor_eq_ok, Int128.divide_eq_ok,
    pure_eq_ok]
  constructor
  · rintro ⟨product, hproduct, _, ⟨hdecimals, rfl⟩, amount, ⟨-, hamount⟩, rfl⟩
    refine ⟨⟨hdecimals, hproduct ▸ product.fits⟩, rfl, ?_⟩
    rw [hamount, hproduct]
    cases side <;> rfl
  · rintro ⟨⟨hdecimals, hfits⟩, htokens, hamount⟩
    refine ⟨⟨⟨_, hfits⟩⟩, rfl, _, ⟨hdecimals, rfl⟩, tokens.amount, ⟨m.tokenUnit_pos.ne', ?_⟩, ?_⟩
    · rw [hamount]
      cases side <;> rfl
    · rw [← htokens]

lemma raw_tokensOf (h : m.tokensOf balance side = .ok tokens) :
    tokens.amount.raw =
      side.rounding.quotient (balance.raw * (m.interest side).raw) m.tokenUnit :=
  (tokensOf_eq_ok.mp h).2.2

@[simp] lemma tokensOf_withTotal (m : SpotMarket) (s : BalanceSide) (total balance : Balance)
    (side : BalanceSide) : (m.withTotal s total).tokensOf balance side = m.tokensOf balance side := by
  simp only [tokensOf, tokenDivisor, interest_withTotal, decimals_withTotal]

/-- On either side a balance is worth the floor of its value. -/
lemma sign_mul_tokens (h : m.tokensOf balance side = .ok tokens) (hm : m.Indexed)
    (hbalance : 0 ≤ balance.raw) :
    side.sign * tokens.amount.raw = m.value side balance.raw / m.tokenUnit := by
  have hvalue : 0 ≤ balance.raw * (m.interest side).raw := mul_nonneg hbalance (hm side).le
  rw [raw_tokensOf h]
  cases side with
  | deposit =>
    simp only [value, BalanceSide.sign, BalanceSide.rounding, Rounding.quotient, one_mul]
    rw [Int.tdiv_eq_ediv_of_nonneg hvalue]
  | borrow =>
    simp only [value, BalanceSide.sign, BalanceSide.rounding, neg_one_mul]
    rw [Rounding.neg_ceil_quotient _ m.tokenUnit_pos]

lemma tokensOf_nonneg (h : m.tokensOf balance side = .ok tokens) (hm : m.Indexed)
    (hbalance : 0 ≤ balance.raw) : 0 ≤ tokens.amount.raw := by
  rw [raw_tokensOf h]
  exact Rounding.quotient_nonneg _ (mul_nonneg hbalance (hm side).le) m.tokenUnit_pos

lemma tokensOf_mono (h : m.tokensOf balance side = .ok tokens)
    (h' : m.tokensOf balance' side = .ok tokens') (hm : m.Indexed)
    (hle : balance.raw ≤ balance'.raw) : tokens.amount.raw ≤ tokens'.amount.raw := by
  rw [raw_tokensOf h, raw_tokensOf h']
  exact Rounding.quotient_mono _ m.tokenUnit_pos (mul_le_mul_of_nonneg_right hle (hm side).le)

lemma decimals_of_tokensOf (h : m.tokensOf balance side = .ok tokens) :
    tokens.decimals = m.decimals :=
  (tokensOf_eq_ok.mp h).2.1

lemma pos_of_tokensOf_pos (h : m.tokensOf balance .deposit = .ok tokens) (hm : m.Indexed)
    (htokens : 0 < tokens.amount.raw) : 0 < balance.raw := by
  rw [raw_tokensOf h, BalanceSide.rounding, Rounding.quotient] at htokens
  have hvalue := Rounding.pos_of_tdiv_pos m.tokenUnit_pos.le htokens
  exact (pos_iff_pos_of_mul_pos hvalue).mpr (hm .deposit)

lemma tokensOf_of_le {less : Balance} (h : m.tokensOf balance .deposit = .ok tokens)
    (hm : m.Indexed) (hless : 0 ≤ less.raw) (hle : less.raw ≤ balance.raw) :
    ∃ left, m.tokensOf less .deposit = .ok left := by
  obtain ⟨⟨hdecimals, hfits⟩, -, -⟩ := tokensOf_eq_ok.mp h
  have hindex := (hm .deposit).le
  have hvalue : 0 ≤ less.raw * (m.interest .deposit).raw := mul_nonneg hless hindex
  have hless_fits : Fits (less.raw * (m.interest .deposit).raw) :=
    Int128.fits_of_nonneg_of_le hfits hvalue (mul_le_mul_of_nonneg_right hle hindex)
  have hquotient := Int128.fits_quotient .truncate hvalue hless_fits m.tokenUnit_pos
  exact ⟨⟨⟨_, hquotient⟩, m.decimals⟩, tokensOf_eq_ok.mpr ⟨⟨hdecimals, hless_fits⟩, rfl, rfl⟩⟩

lemma balanceOf_eq_ok :
    m.balanceOf tokens side up = .ok balance ↔
      (tokens.decimals = m.decimals ∧ m.decimals.toNat ≤ balanceDecimals ∧
        Fits (tokens.amount.raw * m.tokenUnit)) ∧ (m.interest side).raw ≠ 0 ∧
      balance.raw = (if up then Rounding.ceil else .truncate).quotient
        (tokens.amount.raw * m.tokenUnit) (m.interest side).raw := by
  simp only [balanceOf, bind_eq_ok, Violation.guard_eq_ok, tokenDivisor_eq_ok, Int128.check_eq_ok,
    Fixed.ofChecked_eq_ok, Int128.divide_eq_ok]
  constructor
  · rintro ⟨-, htokens, _, ⟨hdecimals, rfl⟩, scaled, hscaled, hindex, hbalance⟩
    rw [hscaled] at hbalance
    exact ⟨⟨htokens, hdecimals, hscaled ▸ scaled.fits⟩, hindex, hbalance⟩
  · rintro ⟨⟨htokens, hdecimals, hfits⟩, hindex, hbalance⟩
    exact ⟨(), htokens, _, ⟨hdecimals, rfl⟩, ⟨_, hfits⟩, rfl, hindex, hbalance⟩

lemma balanceOf_up (h : m.balanceOf tokens side true = .ok balance) (hm : m.Indexed) :
    tokens.amount.raw * m.tokenUnit ≤ balance.raw * (m.interest side).raw ∧
      balance.raw * (m.interest side).raw
        < tokens.amount.raw * m.tokenUnit + (m.interest side).raw := by
  obtain ⟨-, -, hbalance⟩ := balanceOf_eq_ok.mp h
  rw [hbalance]
  exact Rounding.ceil_quotient_bounds _ (hm side)

lemma balanceOf_down (h : m.balanceOf tokens side false = .ok balance) (hm : m.Indexed)
    (htokens : 0 ≤ tokens.amount.raw) :
    balance.raw * (m.interest side).raw ≤ tokens.amount.raw * m.tokenUnit ∧
      tokens.amount.raw * m.tokenUnit
        < balance.raw * (m.interest side).raw + (m.interest side).raw := by
  obtain ⟨-, -, hbalance⟩ := balanceOf_eq_ok.mp h
  simp only [Bool.false_eq_true, if_false, Rounding.quotient] at hbalance
  rw [Int.tdiv_eq_ediv_of_nonneg (mul_nonneg htokens m.tokenUnit_pos.le)] at hbalance
  have hle := Int.ediv_mul_le (tokens.amount.raw * m.tokenUnit) (hm side).ne'
  have hlt := Int.lt_ediv_add_one_mul_self (tokens.amount.raw * m.tokenUnit) (hm side)
  rw [← hbalance] at hle hlt
  exact ⟨hle, by linarith⟩

lemma balanceOf_nonneg (h : m.balanceOf tokens side up = .ok balance) (hm : m.Indexed)
    (htokens : 0 ≤ tokens.amount.raw) : 0 ≤ balance.raw := by
  have hvalue : 0 ≤ tokens.amount.raw * m.tokenUnit := mul_nonneg htokens m.tokenUnit_pos.le
  cases up with
  | true =>
    obtain ⟨hle, -⟩ := balanceOf_up h hm
    exact nonneg_of_mul_nonneg_left (hvalue.trans hle) (hm side)
  | false =>
    obtain ⟨-, hlt⟩ := balanceOf_down h hm htokens
    by_contra hneg
    have := mul_le_mul_of_nonneg_right (show balance.raw ≤ -1 by omega) (hm side).le
    omega

lemma tokenDivisor_ne_negative : m.tokenDivisor ≠ .error (.balanceNegative name) :=
  bind_ne_error (Violation.guard_ne_error (.inr nofun)) fun _ _ => ok_ne_error

lemma tokensOf_ne_negative : m.tokensOf balance side ≠ .error (.balanceNegative name) := by
  refine bind_ne_error (Product.ofChecked_ne_error Int128.check_ne_negative) fun _ _ => ?_
  refine bind_ne_error tokenDivisor_ne_negative fun _ _ => ?_
  exact bind_ne_error Int128.divide_ne_negative fun _ _ => ok_ne_error

lemma balanceOf_ne_negative : m.balanceOf tokens side up ≠ .error (.balanceNegative name) := by
  refine bind_ne_error (Violation.guard_ne_error (.inr nofun)) fun _ _ => ?_
  refine bind_ne_error tokenDivisor_ne_negative fun _ _ => ?_
  refine bind_ne_error Int128.check_ne_negative fun _ _ => ?_
  exact Fixed.ofChecked_ne_error Int128.divide_ne_negative

/-- A balance that is put on a side is worth no more than the tokens it is for. -/
lemma value_of_added (h : m.balanceOf tokens side (side == .borrow) = .ok balance)
    (hm : m.Indexed) (htokens : 0 ≤ tokens.amount.raw) :
    m.value side balance.raw ≤ side.sign * tokens.amount.raw * m.tokenUnit ∧
      side.sign * tokens.amount.raw * m.tokenUnit
        < m.value side balance.raw + (m.interest side).raw := by
  cases side with
  | deposit =>
    obtain ⟨hle, hlt⟩ := balanceOf_down h hm htokens
    simp only [value, BalanceSide.sign, one_mul]
    exact ⟨hle, hlt⟩
  | borrow =>
    obtain ⟨hle, hlt⟩ := balanceOf_up h hm
    simp only [value, BalanceSide.sign, neg_mul, one_mul]
    constructor <;> linarith

/-- A balance that is taken off a side is worth no less than the tokens it is for. -/
lemma value_of_needed (h : m.balanceOf tokens side (side == .deposit) = .ok balance)
    (hm : m.Indexed) (htokens : 0 ≤ tokens.amount.raw) :
    side.sign * tokens.amount.raw * m.tokenUnit ≤ m.value side balance.raw ∧
      m.value side balance.raw
        < side.sign * tokens.amount.raw * m.tokenUnit + (m.interest side).raw := by
  cases side with
  | deposit =>
    obtain ⟨hle, hlt⟩ := balanceOf_up h hm
    simp only [value, BalanceSide.sign, one_mul]
    exact ⟨hle, hlt⟩
  | borrow =>
    obtain ⟨hle, hlt⟩ := balanceOf_down h hm htokens
    simp only [value, BalanceSide.sign, neg_mul, one_mul]
    constructor <;> linarith

end SpotMarket

end PerpExchange
