import Mathlib.Tactic.SplitIfs
import PerpExchange.Position.Spot
import PerpExchange.Proofs.Market.Spot

/-!
What an update does to a spot position and to what it is worth.

Tokens that go against a balance are drawn from it, or use it up and turn the position around; all
others pile up on their side. On each of these paths the position gains at most the tokens that
were moved into it, and loses less than one index to rounding.
-/

namespace PerpExchange

namespace SpotMarket

variable {m m' : SpotMarket} {side : BalanceSide} {amount : Balance}

lemma storeTotal_eq_ok {next : Balance} :
    m.storeTotal side next = .ok m' ↔ 0 ≤ next.raw ∧ m' = m.withTotal side next := by
  simp only [storeTotal, bind_eq_ok, Violation.guard_eq_ok, pure_eq_ok]
  constructor
  · rintro ⟨-, hnext, rfl⟩
    exact ⟨hnext, rfl⟩
  · rintro ⟨hnext, rfl⟩
    exact ⟨(), hnext, rfl⟩

lemma raiseTotal_eq_ok :
    m.raiseTotal side amount = .ok m' ↔ ∃ total : Balance,
      total.raw = (m.total side).raw + amount.raw ∧ 0 ≤ total.raw ∧
        m' = m.withTotal side total := by
  simp only [raiseTotal, bind_eq_ok, Fixed.add_eq_ok, storeTotal_eq_ok]

lemma lowerTotal_eq_ok :
    m.lowerTotal side amount = .ok m' ↔ ∃ total : Balance,
      total.raw = (m.total side).raw - amount.raw ∧ 0 ≤ total.raw ∧
        m' = m.withTotal side total := by
  simp only [lowerTotal, bind_eq_ok, Fixed.sub_eq_ok, storeTotal_eq_ok]

/-- A side from which no more is taken than there is can be lowered. -/
lemma lowerTotal_succeeds {amount : Balance} (hamount : 0 ≤ amount.raw)
    (htotal : amount.raw ≤ (m.total side).raw) : ∃ m', m.lowerTotal side amount = .ok m' := by
  have hfits : Fits ((m.total side).raw - amount.raw) :=
    Int128.fits_of_nonneg_of_le (m.total side).fits (by omega) (by omega)
  exact ⟨_, lowerTotal_eq_ok.mpr ⟨.ofRaw _ hfits, rfl, sub_nonneg.mpr htotal, rfl⟩⟩

end SpotMarket

namespace SpotPosition

variable {p q : SpotPosition} {m m' : SpotMarket} {tokens : TokenAmount} {side : BalanceSide}
  {up : Bool}

/-! ### The paths of an update -/

lemma draw_eq_ok (h : p.draw tokens m up = .ok (m', q)) :
    ∃ needed balance total : Balance,
      m.balanceOf tokens p.side (up || p.side == .deposit) = .ok needed ∧
      balance.raw = p.balance.raw - min needed.raw p.balance.raw ∧
      total.raw = (m.total p.side).raw - min needed.raw p.balance.raw ∧ 0 ≤ total.raw ∧
      m' = m.withTotal p.side total ∧ q = { p with balance } := by
  simp only [draw, bind_eq_ok, Fixed.sub_eq_ok, SpotMarket.lowerTotal_eq_ok, pure_eq_ok,
    Fixed.raw_min] at h
  obtain ⟨needed, hneeded, balance, hbalance, _, ⟨total, htotal, hpos, rfl⟩, hq⟩ := h
  cases hq
  exact ⟨needed, balance, total, hneeded, hbalance, htotal, hpos, rfl, rfl⟩

lemma pile_eq_ok (h : p.pile tokens side m up = .ok (m', q)) :
    ∃ added balance total : Balance,
      m.balanceOf tokens side (up || side == .borrow) = .ok added ∧
      balance.raw = p.balance.raw + added.raw ∧
      total.raw = (m.total side).raw + added.raw ∧ 0 ≤ total.raw ∧
      m' = m.withTotal side total ∧ q = { p with side, balance } := by
  simp only [pile, bind_eq_ok, Fixed.add_eq_ok, SpotMarket.raiseTotal_eq_ok, pure_eq_ok] at h
  obtain ⟨added, hadded, balance, hbalance, _, ⟨total, htotal, hpos, rfl⟩, hq⟩ := h
  cases hq
  exact ⟨added, balance, total, hadded, hbalance, htotal, hpos, rfl, rfl⟩

/-- The three paths: tokens are drawn from a balance on the other side, they use it up and the rest
piles up on their own side, or there is nothing on the other side and all of them pile up. -/
lemma updateBalance_cases (h : p.updateBalance tokens side m up = .ok (m', q)) :
    (p.side ≠ side ∧ ∃ existing, p.tokens m = .ok existing ∧
      tokens.amount.raw ≤ existing.amount.raw ∧ p.draw tokens m up = .ok (m', q)) ∨
    (p.side ≠ side ∧ ∃ existing m₁ rest, p.tokens m = .ok existing ∧
      existing.amount.raw < tokens.amount.raw ∧ m.lowerTotal p.side p.balance = .ok m₁ ∧
      rest.amount.raw = tokens.amount.raw - existing.amount.raw ∧
      { p with balance := 0 }.pile rest side m₁ up = .ok (m', q)) ∨
    ((p.side = side ∨ p.balance.raw = 0) ∧ p.pile tokens side m up = .ok (m', q)) := by
  simp only [updateBalance, bind_eq_ok, Violation.guard_eq_ok] at h
  obtain ⟨-, -, h⟩ := h
  split_ifs at h with hother
  · simp only [bind_eq_ok] at h
    obtain ⟨existing, hexisting, h⟩ := h
    split_ifs at h with hcovers
    · exact .inl ⟨hother.1, existing, hexisting, hcovers, h⟩
    · simp only [bind_eq_ok] at h
      obtain ⟨m₁, hm₁, rest, hrest, h⟩ := h
      exact .inr (.inl ⟨hother.1, existing, m₁, rest, hexisting, not_le.mp hcovers, hm₁,
        TokenAmount.raw_of_sub hrest, h⟩)
  · refine .inr (.inr ⟨?_, h⟩)
    by_cases hside : p.side = side
    · exact .inl hside
    · exact .inr (by_contra fun hbalance => hother ⟨hside, hbalance⟩)

lemma updateBalance_frame (h : p.updateBalance tokens side m up = .ok (m', q)) :
    q = { p with side := q.side, balance := q.balance } := by
  rcases updateBalance_cases h with
    ⟨-, existing, -, -, hdraw⟩ | ⟨-, existing, m₁, rest, -, -, -, -, hpile⟩ | ⟨-, hpile⟩
  · obtain ⟨needed, balance, total, -, -, -, -, -, rfl⟩ := draw_eq_ok hdraw
    rfl
  · obtain ⟨added, balance, total, -, -, -, -, -, rfl⟩ := pile_eq_ok hpile
    rfl
  · obtain ⟨added, balance, total, -, -, -, -, -, rfl⟩ := pile_eq_ok hpile
    rfl

lemma update_eq_ok (h : p.update tokens side m up = .ok (m', q)) :
    ∃ r, p.updateBalance tokens side m up = .ok (m', r) ∧ q.side = r.side ∧ q.balance = r.balance ∧
      q.cumulativeDeposits.raw = p.cumulativeDeposits.raw + side.sign * tokens.amount.raw := by
  simp only [update, bind_eq_ok, Int128.check_eq_ok, pure_eq_ok] at h
  obtain ⟨⟨m₁, r⟩, hr, tally, htally, hq⟩ := h
  cases hq
  refine ⟨r, hr, rfl, rfl, ?_⟩
  rw [updateBalance_frame hr] at htally
  cases side with
  | deposit => rw [htally, BalanceSide.sign, one_mul]
  | borrow => rw [htally, BalanceSide.sign, neg_one_mul]

lemma transfer_eq_ok {source target source' target' : SpotPosition}
    (h : transfer tokens m source target = .ok (m', source', target')) :
    ∃ m₁, source.update tokens .borrow m false = .ok (m₁, source') ∧
      target.update tokens .deposit m₁ false = .ok (m', target') := by
  simp only [transfer, bind_eq_ok, Failure.liftM_refusal_eq_ok, Failure.liftM_violation_eq_ok,
    pure_eq_ok] at h
  obtain ⟨-, -, ⟨m₁, source₁⟩, hsource, ⟨m₂, target₂⟩, htarget, h⟩ := h
  cases h
  exact ⟨m₁, hsource, htarget⟩

/-! ### The totals -/

/-- The part of a side's total that is the position's. -/
def balanceOn (p : SpotPosition) (side : BalanceSide) : ℤ :=
  if p.side = side then p.balance.raw else 0

@[simp] lemma balanceOn_side (p : SpotPosition) : p.balanceOn p.side = p.balance.raw := if_pos rfl

lemma balanceOn_of_ne (h : p.side ≠ side) : p.balanceOn side = 0 := if_neg h

lemma balanceOn_of_balance_eq_zero (h : p.balance.raw = 0) : p.balanceOn side = 0 := by
  rw [balanceOn, h, ite_self]

/-- The market and a position that was updated in it: the totals change by what the position has on
either side, and nothing else in the market does. -/
structure Rebooked (m m' : SpotMarket) (p q : SpotPosition) : Prop where
  market : ∃ depositBalance borrowBalance, m' = { m with depositBalance, borrowBalance }
  nonneg : 0 ≤ q.balance.raw
  total : ∀ s, (m'.total s).raw = (m.total s).raw - p.balanceOn s + q.balanceOn s

lemma rebooked_of_draw (h : p.draw tokens m up = .ok (m', q)) : Rebooked m m' p q := by
  obtain ⟨needed, balance, total, -, hbalance, htotal, -, rfl, rfl⟩ := draw_eq_ok h
  refine ⟨m.withTotal_frame p.side total, ?_, fun s => ?_⟩
  · show 0 ≤ balance.raw
    omega
  · rw [SpotMarket.total_withTotal]
    split_ifs with hs
    · subst hs
      rw [balanceOn_side, show balanceOn { p with balance } p.side = balance.raw from if_pos rfl]
      omega
    · rw [balanceOn_of_ne (Ne.symm hs), show balanceOn { p with balance } s = 0 from
        if_neg (Ne.symm hs)]
      omega

lemma rebooked_of_pile (hm : m.Indexed) (hp : 0 ≤ p.balance.raw) (htokens : 0 ≤ tokens.amount.raw)
    (hside : p.side = side ∨ p.balance.raw = 0) (h : p.pile tokens side m up = .ok (m', q)) :
    Rebooked m m' p q := by
  obtain ⟨added, balance, total, hadded, hbalance, htotal, -, rfl, rfl⟩ := pile_eq_ok h
  have := SpotMarket.balanceOf_nonneg hadded hm htokens
  refine ⟨m.withTotal_frame side total, ?_, fun s => ?_⟩
  · show 0 ≤ balance.raw
    omega
  · rw [SpotMarket.total_withTotal]
    by_cases hs : s = side
    · have hbefore : p.balanceOn s = p.balance.raw := by
        rcases hside with hp | hzero
        · rw [hs, ← hp, balanceOn_side]
        · rw [hzero, balanceOn_of_balance_eq_zero hzero]
      have hafter : balanceOn { p with side, balance } s = balance.raw := if_pos hs.symm
      rw [if_pos hs, hbefore, hafter, hs]
      omega
    · have hbefore : p.balanceOn s = 0 := by
        rcases hside with rfl | hzero
        · exact balanceOn_of_ne (Ne.symm hs)
        · exact balanceOn_of_balance_eq_zero hzero
      have hafter : balanceOn { p with side, balance } s = 0 := if_neg (Ne.symm hs)
      rw [if_neg hs, hbefore, hafter]
      omega

lemma rebooked_of_updateBalance (hm : m.Indexed) (hp : 0 ≤ p.balance.raw)
    (htokens : 0 ≤ tokens.amount.raw) (h : p.updateBalance tokens side m up = .ok (m', q)) :
    Rebooked m m' p q := by
  rcases updateBalance_cases h with
    ⟨-, existing, -, -, hdraw⟩ | ⟨-, existing, m₁, rest, -, hexceeds, hlowered, hrest, hpile⟩ |
    ⟨hside, hpile⟩
  · exact rebooked_of_draw hdraw
  · -- the whole balance leaves its side before the rest goes to the other one
    obtain ⟨total, htotal, -, rfl⟩ := SpotMarket.lowerTotal_eq_ok.mp hlowered
    obtain ⟨⟨deposits, borrows, hmarket⟩, hnonneg, htotals⟩ :=
      rebooked_of_pile (hm.withTotal p.side total) le_rfl (by omega) (.inr Fixed.raw_zero) hpile
    obtain ⟨deposits', borrows', hframe⟩ := m.withTotal_frame p.side total
    refine ⟨⟨deposits, borrows, by rw [hmarket, hframe]⟩, hnonneg, fun s => ?_⟩
    rw [htotals s, SpotMarket.total_withTotal, balanceOn_of_balance_eq_zero Fixed.raw_zero]
    split_ifs with hs
    · rw [hs, htotal, balanceOn_side]
      omega
    · rw [balanceOn_of_ne (Ne.symm hs)]
  · exact rebooked_of_pile hm hp htokens hside hpile

lemma rebooked_of_update (hm : m.Indexed) (hp : 0 ≤ p.balance.raw) (htokens : 0 ≤ tokens.amount.raw)
    (h : p.update tokens side m up = .ok (m', q)) : Rebooked m m' p q := by
  obtain ⟨r, hr, hside, hbalance, -⟩ := update_eq_ok h
  obtain ⟨hmarket, hnonneg, htotal⟩ := rebooked_of_updateBalance hm hp htokens hr
  refine ⟨hmarket, hbalance ▸ hnonneg, fun s => ?_⟩
  rw [htotal s, balanceOn, balanceOn, balanceOn, hside, hbalance]

lemma Rebooked.indexed (h : Rebooked m m' p q) (hm : m.Indexed) : m'.Indexed := by
  obtain ⟨deposits, borrows, rfl⟩ := h.market
  intro s
  have := hm s
  cases s <;> exact this

/-! ### What a position is worth -/

def value (p : SpotPosition) (m : SpotMarket) : ℤ := m.value p.side p.balance.raw

/-- The whole tokens that a position is worth, negative for a borrow. -/
def worth (p : SpotPosition) (m : SpotMarket) : ℤ := p.value m / m.tokenUnit

lemma sign_mul_existing {existing : TokenAmount} (h : p.tokens m = .ok existing) (hm : m.Indexed)
    (hp : 0 ≤ p.balance.raw) : p.side.sign * existing.amount.raw = p.worth m :=
  SpotMarket.sign_mul_tokens h hm hp

lemma raw_signedTokens {signed : TokenAmount} (h : p.signedTokens m = .ok signed) (hm : m.Indexed)
    (hp : 0 ≤ p.balance.raw) : signed.amount.raw = p.worth m := by
  simp only [signedTokens, bind_eq_ok] at h
  obtain ⟨existing, hexisting, h⟩ := h
  rw [← sign_mul_existing hexisting hm hp]
  cases hside : p.side with
  | deposit =>
    simp only [hside, pure_eq_ok] at h
    rw [← h, BalanceSide.sign, one_mul]
  | borrow =>
    simp only [hside, TokenAmount.check, bind_eq_ok, Int128.check_eq_ok, pure_eq_ok] at h
    obtain ⟨amount, hamount, rfl⟩ := h
    rw [hamount, BalanceSide.sign, neg_one_mul]

lemma worth_mul_le (p : SpotPosition) (m : SpotMarket) : p.worth m * m.tokenUnit ≤ p.value m :=
  Int.ediv_mul_le _ m.tokenUnit_pos.ne'

@[simp] lemma value_withTotal (p : SpotPosition) (m : SpotMarket) (side : BalanceSide)
    (total : Balance) : p.value (m.withTotal side total) = p.value m :=
  SpotMarket.value_withTotal m side p.side total p.balance.raw

@[simp] lemma worth_withTotal (p : SpotPosition) (m : SpotMarket) (side : BalanceSide)
    (total : Balance) : p.worth (m.withTotal side total) = p.worth m := by
  rw [worth, value_withTotal, SpotMarket.tokenUnit_withTotal, worth]

lemma Rebooked.worth_eq (h : Rebooked m m' p q) (x : SpotPosition) : x.worth m' = x.worth m := by
  obtain ⟨deposits, borrows, rfl⟩ := h.market
  unfold worth value SpotMarket.value
  cases x.side <;> rfl

@[simp] lemma value_empty (p : SpotPosition) (m : SpotMarket) :
    { p with balance := 0 }.value m = 0 := by
  rw [value, SpotMarket.value, Fixed.raw_zero, zero_mul, mul_zero]

@[simp] lemma worth_empty (p : SpotPosition) (m : SpotMarket) :
    { p with balance := 0 }.worth m = 0 := by
  rw [worth, value_empty, Int.zero_ediv]

/-- `q` holds `amount` tokens more than `p`, with what was rounded taken from it. -/
structure Credited (m : SpotMarket) (p q : SpotPosition) (amount : ℤ) : Prop where
  value_le : q.value m ≤ p.value m + amount * m.tokenUnit
  lt_value : (p.worth m + amount) * m.tokenUnit < q.value m + (m.interest q.side).raw

lemma credited_of_pile (hm : m.Indexed) (htokens : 0 ≤ tokens.amount.raw)
    (hside : p.side = side ∨ p.balance.raw = 0) (h : p.pile tokens side m false = .ok (m', q)) :
    Credited m p q (side.sign * tokens.amount.raw) := by
  obtain ⟨added, balance, total, hadded, hbalance, -, -, -, rfl⟩ := pile_eq_ok h
  rw [Bool.false_or] at hadded
  obtain ⟨hle, hlt⟩ := SpotMarket.value_of_added hadded hm htokens
  have hbefore : m.value side p.balance.raw = p.value m := by
    rcases hside with rfl | hzero
    · rfl
    · simp [value, SpotMarket.value, hzero]
  have hafter : m.value side balance.raw = p.value m + m.value side added.raw := by
    rw [hbalance, SpotMarket.value_add, hbefore]
  have hfloor := p.worth_mul_le m
  constructor
  · show m.value side balance.raw ≤ _
    linarith
  · show _ < m.value side balance.raw + (m.interest side).raw
    linarith

/-- Tokens that a balance covers and that need all of it. A deposit covers them by what it is worth,
a borrow by the balance. -/
lemma value_of_covered (hm : m.Indexed) {existing needed : ℤ}
    (hworth : p.side.sign * existing = p.worth m) (hcovers : tokens.amount.raw ≤ existing)
    (hshort : p.balance.raw ≤ needed)
    (hle : p.side.sign * tokens.amount.raw * m.tokenUnit ≤ m.value p.side needed)
    (hlt : m.value p.side needed
      < p.side.sign * tokens.amount.raw * m.tokenUnit + (m.interest p.side).raw) :
    p.side.sign * tokens.amount.raw * m.tokenUnit ≤ p.value m ∧
      (p.worth m - p.side.sign * tokens.amount.raw) * m.tokenUnit < (m.interest p.side).raw := by
  have hfloor := p.worth_mul_le m
  have hindex := hm p.side
  have hscaled := mul_le_mul_of_nonneg_right hshort hindex.le
  have hcovered := mul_le_mul_of_nonneg_right hcovers m.tokenUnit_pos.le
  have hvalue : p.value m = p.side.sign * (p.balance.raw * (m.interest p.side).raw) := rfl
  rw [SpotMarket.value] at hle hlt
  cases hside : p.side with
  | deposit =>
    simp only [hside, BalanceSide.sign, one_mul] at *
    rw [← hworth] at hfloor ⊢
    constructor <;> linarith
  | borrow =>
    simp only [hside, BalanceSide.sign, neg_mul, one_mul] at *
    rw [← hworth]
    constructor <;> linarith

lemma credited_of_draw (hm : m.Indexed) (hp : 0 ≤ p.balance.raw)
    (htokens : 0 ≤ tokens.amount.raw) (hside : p.side ≠ side) {existing : TokenAmount}
    (hexisting : p.tokens m = .ok existing) (hcovers : tokens.amount.raw ≤ existing.amount.raw)
    (h : p.draw tokens m false = .ok (m', q)) :
    Credited m p q (side.sign * tokens.amount.raw) := by
  obtain ⟨needed, balance, total, hneeded, hbalance, -, -, -, rfl⟩ := draw_eq_ok h
  rw [Bool.false_or] at hneeded
  obtain ⟨hle, hlt⟩ := SpotMarket.value_of_needed hneeded hm htokens
  have hworth := sign_mul_existing hexisting hm hp
  have hfloor := p.worth_mul_le m
  have hsign : side.sign * tokens.amount.raw = -(p.side.sign * tokens.amount.raw) := by
    rw [BalanceSide.sign_of_ne hside.symm, neg_mul]
  rw [hsign]
  have hdrawn : balance.raw + min needed.raw p.balance.raw = p.balance.raw := by omega
  have hafter := m.value_add p.side balance.raw (min needed.raw p.balance.raw)
  rw [hdrawn] at hafter
  rcases le_total needed.raw p.balance.raw with henough | hshort
  · rw [min_eq_left henough] at hafter
    constructor
    · show m.value p.side balance.raw ≤ m.value p.side p.balance.raw + _
      linarith
    · show _ < m.value p.side balance.raw + (m.interest p.side).raw
      have : p.value m = m.value p.side p.balance.raw := rfl
      linarith
  · obtain ⟨hcovered, hlost⟩ := value_of_covered hm hworth hcovers hshort hle hlt
    have hnothing : m.value p.side balance.raw = 0 := by
      rw [hbalance, min_eq_right hshort, sub_self, SpotMarket.value, zero_mul, mul_zero]
    constructor
    · show m.value p.side balance.raw ≤ _
      linarith
    · show _ < m.value p.side balance.raw + (m.interest p.side).raw
      linarith

lemma credited_of_flip (hm : m.Indexed) (hp : 0 ≤ p.balance.raw) (hside : p.side ≠ side)
    {existing rest : TokenAmount} {m₁ : SpotMarket} (hexisting : p.tokens m = .ok existing)
    (hexceeds : existing.amount.raw < tokens.amount.raw)
    (hlowered : m.lowerTotal p.side p.balance = .ok m₁)
    (hrest : rest.amount.raw = tokens.amount.raw - existing.amount.raw)
    (h : { p with balance := 0 }.pile rest side m₁ false = .ok (m', q)) :
    Credited m p q (side.sign * tokens.amount.raw) := by
  obtain ⟨total, -, -, rfl⟩ := SpotMarket.lowerTotal_eq_ok.mp hlowered
  obtain ⟨hle, hlt⟩ :=
    credited_of_pile (hm.withTotal p.side total) (by omega) (.inr Fixed.raw_zero) h
  have hworth := sign_mul_existing hexisting hm hp
  have hfloor := p.worth_mul_le m
  -- what the balance was worth is paid out first, and its dust is forgone
  have hamount : side.sign * rest.amount.raw = p.worth m + side.sign * tokens.amount.raw := by
    rw [hrest, ← hworth, BalanceSide.sign_of_ne hside]
    ring
  simp only [value_withTotal, worth_withTotal, SpotMarket.tokenUnit_withTotal,
    SpotMarket.interest_withTotal, value_empty, worth_empty, hamount, zero_add] at hle hlt
  exact ⟨by linarith, hlt⟩

/-- Whatever the path, the position is credited with the tokens. -/
lemma credited_of_updateBalance (hm : m.Indexed) (hp : 0 ≤ p.balance.raw)
    (htokens : 0 ≤ tokens.amount.raw) (h : p.updateBalance tokens side m false = .ok (m', q)) :
    Credited m p q (side.sign * tokens.amount.raw) := by
  rcases updateBalance_cases h with
    ⟨hside, existing, hexisting, hcovers, hdraw⟩ |
    ⟨hside, existing, m₁, rest, hexisting, hexceeds, hlowered, hrest, hpile⟩ | ⟨hside, hpile⟩
  · exact credited_of_draw hm hp htokens hside hexisting hcovers hdraw
  · exact credited_of_flip hm hp hside hexisting hexceeds hlowered hrest hpile
  · exact credited_of_pile hm htokens hside hpile

lemma Credited.worth_le {amount : ℤ} (h : Credited m p q amount) :
    q.worth m ≤ p.worth m + amount := by
  calc q.worth m ≤ (p.value m + amount * m.tokenUnit) / m.tokenUnit :=
        Int.ediv_le_ediv m.tokenUnit_pos h.value_le
    _ = p.worth m + amount := Int.add_mul_ediv_right _ _ m.tokenUnit_pos.ne'

lemma Credited.le_worth {amount : ℤ} (h : Credited m p q amount) :
    p.worth m + amount - m.roundingLoss ≤ q.worth m := by
  have hlt := h.lt_value
  have hloss := m.interest_le_roundingLoss q.side
  refine (Int.le_ediv_iff_mul_le m.tokenUnit_pos).mpr ?_
  linarith

lemma worth_of_updateBalance (hm : m.Indexed) (hp : 0 ≤ p.balance.raw)
    (htokens : 0 ≤ tokens.amount.raw) (h : p.updateBalance tokens side m false = .ok (m', q)) :
    q.worth m' ≤ p.worth m + side.sign * tokens.amount.raw ∧
      p.worth m + side.sign * tokens.amount.raw - m.roundingLoss ≤ q.worth m' := by
  have hcredited := credited_of_updateBalance hm hp htokens h
  rw [(rebooked_of_updateBalance hm hp htokens h).worth_eq q]
  exact ⟨hcredited.worth_le, hcredited.le_worth⟩

lemma worth_of_update (hm : m.Indexed) (hp : 0 ≤ p.balance.raw)
    (htokens : 0 ≤ tokens.amount.raw) (h : p.update tokens side m false = .ok (m', q)) :
    q.worth m' ≤ p.worth m + side.sign * tokens.amount.raw := by
  obtain ⟨r, hr, hside, hbalance, -⟩ := update_eq_ok h
  have hworth : q.worth m' = r.worth m' := by rw [worth, value, hside, hbalance, worth, value]
  rw [hworth]
  exact (worth_of_updateBalance hm hp htokens hr).1

/-- A withdrawal that a deposit covers is drawn from it. -/
lemma draw_of_withdrawal (hside : p.side = .deposit) (hp : 0 < p.balance.raw)
    {existing : TokenAmount} (hexisting : p.tokens m = .ok existing)
    (hcovers : tokens.amount.raw ≤ existing.amount.raw)
    (h : p.updateBalance tokens .borrow m false = .ok (m', q)) :
    p.draw tokens m false = .ok (m', q) := by
  rcases updateBalance_cases h with
    ⟨-, existing', -, -, hdraw⟩ | ⟨-, existing', m₁, rest, hexisting', hexceeds, -⟩ | ⟨hnone, -⟩
  · exact hdraw
  · cases hexisting.symm.trans hexisting'
    omega
  · rcases hnone with hborrow | hzero
    · rw [hside] at hborrow
      cases hborrow
    · omega

/-- It leaves a deposit, of no more than the tokens that were not withdrawn. -/
lemma deposit_of_withdrawal (hm : m.Indexed) (hside : p.side = .deposit) (hp : 0 < p.balance.raw)
    {existing : TokenAmount} (hexisting : p.tokens m = .ok existing)
    (htokens : 0 ≤ tokens.amount.raw) (hcovers : tokens.amount.raw ≤ existing.amount.raw)
    (h : p.updateBalance tokens .borrow m false = .ok (m', q)) :
    q.market = p.market ∧ q.side = .deposit ∧ 0 ≤ q.balance.raw ∧
      ∃ left, q.tokens m = .ok left ∧
        left.amount.raw ≤ existing.amount.raw - tokens.amount.raw := by
  have hdraw := draw_of_withdrawal hside hp hexisting hcovers h
  have hother : p.side ≠ .borrow := fun hborrow => nomatch hside.symm.trans hborrow
  have hworth := (credited_of_draw hm hp.le htokens hother hexisting hcovers hdraw).worth_le
  have hnonneg := (rebooked_of_draw hdraw).nonneg
  obtain ⟨needed, balance, total, hneeded, hbalance, -, -, -, rfl⟩ := draw_eq_ok hdraw
  have hneeded_nonneg := SpotMarket.balanceOf_nonneg hneeded hm htokens
  have hexisting' : m.tokensOf p.balance .deposit = .ok existing := hside ▸ hexisting
  obtain ⟨left, hleft⟩ : ∃ left, m.tokensOf balance .deposit = .ok left :=
    SpotMarket.tokensOf_of_le hexisting' hm hnonneg (by omega)
  have hq : { p with balance }.tokens m = .ok left := hside ▸ hleft
  rw [← sign_mul_existing hexisting hm hp.le, ← sign_mul_existing hq hm hnonneg, hside] at hworth
  simp only [BalanceSide.sign, one_mul, neg_one_mul] at hworth
  exact ⟨rfl, hside, hnonneg, left, hq, by omega⟩

lemma balance_lt_of_draw (hm : m.Indexed) (hside : p.side = .deposit) (hp : 0 < p.balance.raw)
    (htokens : 0 < tokens.amount.raw) (h : p.draw tokens m up = .ok (m', q)) :
    q = { p with balance := q.balance } ∧ 0 ≤ q.balance.raw ∧ q.balance.raw < p.balance.raw := by
  have hnonneg := (rebooked_of_draw h).nonneg
  obtain ⟨needed, balance, total, hneeded, hbalance, -, -, -, rfl⟩ := draw_eq_ok h
  rw [hside, beq_self_eq_true, Bool.or_true] at hneeded
  -- what is needed is rounded up, so it is not zero
  obtain ⟨hle, -⟩ := SpotMarket.balanceOf_up hneeded hm
  have hvalue := (mul_pos htokens m.tokenUnit_pos).trans_le hle
  have hneeded_pos : 0 < needed.raw := (pos_iff_pos_of_mul_pos hvalue).mpr (hm .deposit)
  exact ⟨rfl, hnonneg, by dsimp only; omega⟩

/-- What a transfer does to both positions together. -/
structure Transferred (m m' : SpotMarket) (source target source' target' : SpotPosition) :
    Prop where
  worth_le : source'.worth m' + target'.worth m' ≤ source.worth m + target.worth m
  tally : source'.cumulativeDeposits.raw + target'.cumulativeDeposits.raw =
    source.cumulativeDeposits.raw + target.cumulativeDeposits.raw
  indexed : m'.Indexed
  source_nonneg : 0 ≤ source'.balance.raw
  target_nonneg : 0 ≤ target'.balance.raw

lemma transferred_of_transfer {source target source' target' : SpotPosition} (hm : m.Indexed)
    (hsource : 0 ≤ source.balance.raw) (htarget : 0 ≤ target.balance.raw)
    (htokens : 0 ≤ tokens.amount.raw)
    (h : transfer tokens m source target = .ok (m', source', target')) :
    Transferred m m' source target source' target' := by
  obtain ⟨m₁, hwithdraw, hdeposit⟩ := transfer_eq_ok h
  have hbooked := rebooked_of_update hm hsource htokens hwithdraw
  have hm₁ := hbooked.indexed hm
  have hbooked' := rebooked_of_update hm₁ htarget htokens hdeposit
  have hout := worth_of_update hm hsource htokens hwithdraw
  have hin := worth_of_update hm₁ htarget htokens hdeposit
  obtain ⟨-, -, -, -, htallyOut⟩ := update_eq_ok hwithdraw
  obtain ⟨-, -, -, -, htallyIn⟩ := update_eq_ok hdeposit
  simp only [BalanceSide.sign, neg_one_mul, one_mul] at hout hin htallyOut htallyIn
  rw [hbooked.worth_eq] at hout hin
  exact {
    worth_le := by
      rw [hbooked'.worth_eq source', hbooked.worth_eq source']
      linarith
    tally := by linarith
    indexed := hbooked'.indexed hm₁
    source_nonneg := hbooked.nonneg
    target_nonneg := hbooked'.nonneg }

/-- **Rounding goes against the user, by a bounded amount.** A position gains at most the tokens
that an update moves into it, and short of them it loses at most one index in tokens; so it is with
what the positions are worth, and with their signed tokens where these are in range. A transfer
leaves both positions together with no more tokens than they had, and with the same tally. -/
theorem update_rounds_against_user (m : SpotMarket) (tokens : TokenAmount) (hm : m.Indexed)
    (htokens : 0 ≤ tokens.amount.raw) :
    (∀ (p q : SpotPosition) (side : BalanceSide) (m' : SpotMarket), 0 ≤ p.balance.raw →
      p.updateBalance tokens side m false = .ok (m', q) →
      (q.worth m' ≤ p.worth m + side.sign * tokens.amount.raw ∧
        p.worth m + side.sign * tokens.amount.raw - m.roundingLoss ≤ q.worth m') ∧
      ∀ before after, p.signedTokens m = .ok before → q.signedTokens m' = .ok after →
        after.amount.raw ≤ before.amount.raw + side.sign * tokens.amount.raw ∧
        before.amount.raw + side.sign * tokens.amount.raw - m.roundingLoss ≤ after.amount.raw) ∧
    ∀ (source target source' target' : SpotPosition) (m' : SpotMarket),
      0 ≤ source.balance.raw → 0 ≤ target.balance.raw →
      transfer tokens m source target = .ok (m', source', target') →
      (source'.worth m' + target'.worth m' ≤ source.worth m + target.worth m ∧
        source'.cumulativeDeposits.raw + target'.cumulativeDeposits.raw =
          source.cumulativeDeposits.raw + target.cumulativeDeposits.raw) ∧
      ∀ s t s' t', source.signedTokens m = .ok s → target.signedTokens m = .ok t →
        source'.signedTokens m' = .ok s' → target'.signedTokens m' = .ok t' →
        s'.amount.raw + t'.amount.raw ≤ s.amount.raw + t.amount.raw := by
  constructor
  · intro p q side m' hp h
    have hworth := worth_of_updateBalance hm hp htokens h
    have hbooked := rebooked_of_updateBalance hm hp htokens h
    refine ⟨hworth, fun before after hbefore hafter => ?_⟩
    rw [raw_signedTokens hbefore hm hp, raw_signedTokens hafter (hbooked.indexed hm) hbooked.nonneg]
    exact hworth
  · intro source target source' target' m' hsource htarget h
    have hmoved := transferred_of_transfer hm hsource htarget htokens h
    refine ⟨⟨hmoved.worth_le, hmoved.tally⟩, fun s t s' t' hs ht hs' ht' => ?_⟩
    rw [raw_signedTokens hs hm hsource, raw_signedTokens ht hm htarget,
      raw_signedTokens hs' hmoved.indexed hmoved.source_nonneg,
      raw_signedTokens ht' hmoved.indexed hmoved.target_nonneg]
    exact hmoved.worth_le

/-- A market whose indices have grown, with one deposit and one borrow in it. -/
def accrued : SpotMarket :=
  { SpotMarket.quote with
    depositIndex := .ofRaw 10000000003
    borrowIndex := .ofRaw 10000000007
    depositBalance := .ofRaw 7000000000
    borrowBalance := .ofRaw 5000000001 }

def depositor : SpotPosition := { new .quote with balance := .ofRaw 7000000000 }

def debtor : SpotPosition := { new .quote with side := .borrow, balance := .ofRaw 5000000001 }

def sixTokens : TokenAmount := ⟨.ofInt 6000000, 6⟩

theorem update_rounds_against_user_flip :
    (∃ m' q, debtor.updateBalance sixTokens .deposit accrued false = .ok (m', q) ∧
      q.side = .deposit ∧ q.worth m' ≤ -5000001 + 6000000 ∧ -5000001 + 6000000 - 1 ≤ q.worth m') ∧
    ∃ m' source' target', transfer sixTokens accrued depositor debtor = .ok (m', source', target') ∧
      source'.worth m' + target'.worth m' ≤ 7000000 - 5000001 ∧
      (source'.side = .deposit ∧ source'.balance.raw = 1000000001) ∧
      target'.side = .deposit ∧ target'.balance.raw = 999998999 := by
  have hm : accrued.Indexed := fun side => by cases side <;> decide
  obtain ⟨hupdate, htransfer⟩ := update_rounds_against_user accrued sixTokens hm (by decide)
  constructor
  · obtain ⟨⟨hle, hge⟩, -⟩ := hupdate debtor _ .deposit _ (by decide) rfl
    exact ⟨_, _, rfl, rfl, hle, hge⟩
  · obtain ⟨⟨hle, -⟩, -⟩ := htransfer depositor debtor _ _ _ (by decide) (by decide) rfl
    exact ⟨_, _, _, rfl, hle, ⟨rfl, rfl⟩, rfl, rfl⟩

end SpotPosition

end PerpExchange
