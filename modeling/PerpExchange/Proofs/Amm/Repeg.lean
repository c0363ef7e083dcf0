import Mathlib.Tactic.SplitIfs
import PerpExchange.Amm.Repeg
import PerpExchange.Proofs.Amm.Swap

/-!
What a repeg does to the peg and the budget, and what it leaves alone.

A repeg writes the peg, the budget and the last oracle price, and nothing else. The peg goes some
whole steps toward the optimal one, never more than the intensity allows, and the budget pays what
these steps cost, rounded up. Where the budget stops the peg short, one step more would have cost
more than there was to spend. A pool whose intensity is zero does not repeg at all.
-/

namespace PerpExchange.Amm

variable {a b : Amm} {oracle : OracleReading}

/-! ### The fields that a repeg writes -/

lemma applyMove_eq_ok {price : Price} {move : Peg} {cost : QuoteAmount} :
    a.applyMove price move cost = .ok b ↔
      ∃ peg budget, b = { a with peg, budget, lastOraclePrice := price } ∧
        Fits (a.peg.raw + move.raw) ∧ peg.raw = max (a.peg.raw + move.raw) 1 ∧
        budget.raw = a.budget.raw - cost.raw := by
  simp only [applyMove, bind_eq_ok, Fixed.add_eq_ok, Fixed.sub_eq_ok, pure_eq_ok]
  constructor
  · rintro ⟨peg, hpeg, budget, hbudget, rfl⟩
    exact ⟨_, budget, rfl, hpeg ▸ peg.fits, by rw [Fixed.raw_max, hpeg, Fixed.raw_least], hbudget⟩
  · rintro ⟨peg, budget, rfl, hfits, hpeg, hbudget⟩
    refine ⟨⟨⟨_, hfits⟩⟩, rfl, budget, hbudget, ?_⟩
    congr 1
    ext
    rw [Fixed.raw_max, hpeg, Fixed.raw_least]

/-- **A repeg touches the peg, the budget and the noted oracle price only.** -/
theorem repeg_frame (h : a.repeg oracle = .ok b) :
    ∃ peg budget price, b = { a with peg, budget, lastOraclePrice := price } := by
  unfold repeg at h
  split_ifs at h
  · simp only [bind_eq_ok] at h
    obtain ⟨move, -, -, -, cost, -, h⟩ := h
    split_ifs at h
    · simp only [bind_eq_ok, applyMove_eq_ok] at h
      obtain ⟨affordable, -, -, -, reduced, -, peg, budget, rfl, -⟩ := h
      exact ⟨peg, budget, _, rfl⟩
    · obtain ⟨peg, budget, rfl, -⟩ := applyMove_eq_ok.mp h
      exact ⟨peg, budget, _, rfl⟩
  · cases h
    exact ⟨a.peg, a.budget, a.lastOraclePrice, rfl⟩

lemma repeg_of_intensity_zero (h : a.repegIntensity = 0) : a.repeg oracle = .ok a := by
  have : a.repegs oracle = false := by simp [repegs, h]
  unfold repeg
  rw [if_neg (by simp [this])]
  rfl

/-! ### The move toward the optimal peg -/

/-- The whole steps toward `optimal` that the intensity allows. -/
def allowedSteps (a : Amm) (optimal : Peg) : ℤ :=
  |optimal.raw - a.peg.raw| * min (a.repegIntensity.toNat : ℤ) maxRepegIntensity / 100

lemma one_le_optimalPeg {price : Price} {optimal : Peg} (h : a.optimalPeg price = .ok optimal) :
    1 ≤ optimal.raw := by
  simp only [optimalPeg, bind_eq_ok, pure_eq_ok] at h
  obtain ⟨-, -, peg, -, rfl⟩ := h
  rw [Fixed.raw_max]
  exact le_max_right _ _

lemma share_nonneg (a : Amm) : 0 ≤ min (a.repegIntensity.toNat : ℤ) maxRepegIntensity :=
  le_min (Int.natCast_nonneg _) (Int.natCast_nonneg _)

lemma allowedSteps_nonneg (a : Amm) (optimal : Peg) : 0 ≤ a.allowedSteps optimal :=
  Int.ediv_nonneg (mul_nonneg (abs_nonneg _) a.share_nonneg) (by norm_num)

lemma allowedSteps_le (a : Amm) (optimal : Peg) :
    a.allowedSteps optimal ≤ |optimal.raw - a.peg.raw| := by
  have hshare : min (a.repegIntensity.toNat : ℤ) maxRepegIntensity ≤ 100 := min_le_right _ _
  exact Int.ediv_le_of_le_mul (by norm_num) (mul_le_mul_of_nonneg_left hshare (abs_nonneg _))

lemma desiredMove_eq_ok {price : Price} {move : Peg} (h : a.desiredMove price = .ok move) :
    ∃ optimal, a.optimalPeg price = .ok optimal ∧
      move.raw = (optimal.raw - a.peg.raw).sign * a.allowedSteps optimal := by
  simp only [desiredMove, bind_eq_ok, Fixed.sub_eq_ok, Fixed.mulInt_eq_ok, Fixed.divInt_eq_ok] at h
  obtain ⟨optimal, hoptimal, gap, hgap, share, hshare, -, hmove⟩ := h
  refine ⟨optimal, hoptimal, ?_⟩
  have hscale := a.share_nonneg
  rw [hmove, hshare, hgap, allowedSteps]
  generalize min (a.repegIntensity.toNat : ℤ) maxRepegIntensity = percent at hscale
  generalize optimal.raw - a.peg.raw = gap
  have hsize := Int.tdiv_eq_ediv_of_nonneg (b := 100) (mul_nonneg (abs_nonneg gap) hscale)
  rcases lt_trichotomy gap 0 with hgap | rfl | hgap
  · rw [abs_of_neg hgap, neg_mul, Int.neg_tdiv] at hsize
    rw [Int.sign_eq_neg_one_of_neg hgap, abs_of_neg hgap, neg_mul gap, ← hsize]
    ring
  · simp
  · rw [abs_of_pos hgap] at hsize
    rw [Int.sign_eq_one_of_pos hgap, abs_of_pos hgap, hsize]
    ring

lemma steps_between {peg optimal steps : ℤ} (h0 : 0 ≤ steps) (hle : steps ≤ |optimal - peg|) :
    min peg optimal ≤ peg + (optimal - peg).sign * steps ∧
      peg + (optimal - peg).sign * steps ≤ max peg optimal := by
  rcases lt_trichotomy (optimal - peg) 0 with hd | hd | hd
  · rw [Int.sign_eq_neg_one_of_neg hd]
    rw [abs_of_neg hd] at hle
    omega
  · rw [hd, Int.sign_zero]
    omega
  · rw [Int.sign_eq_one_of_pos hd]
    rw [abs_of_pos hd] at hle
    omega

/-- Every step between two positive pegs ends at a peg. -/
lemma exists_peg_of_steps {peg optimal : Peg} {steps : ℤ} (hpeg : 1 ≤ peg.raw)
    (hoptimal : 1 ≤ optimal.raw) (h0 : 0 ≤ steps) (hle : steps ≤ |optimal.raw - peg.raw|) :
    ∃ next : Peg, next.raw = peg.raw + (optimal.raw - peg.raw).sign * steps ∧ 1 ≤ next.raw := by
  obtain ⟨hlow, hhigh⟩ := steps_between h0 hle
  rw [← Fixed.raw_min] at hlow
  rw [← Fixed.raw_max] at hhigh
  have hfits := Int128.fits_of_le (min peg optimal).fits (max peg optimal).fits hlow hhigh
  refine ⟨⟨⟨_, hfits⟩⟩, rfl, ?_⟩
  rw [Fixed.raw_min] at hlow
  exact (le_min hpeg hoptimal).trans hlow

/-! ### What a move costs, and how far the budget goes -/

lemma repegCost_eq_ok {newPeg : Peg} {cost : QuoteAmount} :
    a.repegCost newPeg = .ok cost ↔
      ∃ exposure, a.exposure = .ok exposure ∧ Fits (newPeg.raw - a.peg.raw) ∧
        Fits (exposure.raw * (newPeg.raw - a.peg.raw)) ∧
        cost.raw = Rounding.ceil.quotient (exposure.raw * (newPeg.raw - a.peg.raw)) quoteUnit := by
  simp only [repegCost, bind_eq_ok, Fixed.sub_eq_ok, Fixed.mul_eq_ok,
    Product.rescaleCeil_eq_ok (n := 9) (p := .quoteReserve) (q := .peg) (r := .quote) rfl
      (by norm_num)]
  constructor
  · rintro ⟨exposure, hexposure, move, hmove, product, hproduct, hcost⟩
    rw [hmove] at hproduct
    exact ⟨exposure, hexposure, hmove ▸ move.fits, hproduct ▸ product.fits, hproduct ▸ hcost⟩
  · rintro ⟨exposure, hexposure, hmove, hproduct, hcost⟩
    exact ⟨exposure, hexposure, ⟨⟨_, hmove⟩⟩, rfl, ⟨⟨_, hproduct⟩⟩, rfl, hcost⟩

lemma affordableMove_eq_ok {move affordable : Peg} (h : a.affordableMove move = .ok affordable) :
    ∃ exposure, a.exposure = .ok exposure ∧
      affordable.raw = move.raw.sign * (a.spendable.raw * quoteUnit / |exposure.raw|) := by
  simp only [affordableMove, bind_eq_ok, Fixed.abs_eq_ok, Fixed.mulInt_eq_ok,
    Fixed.divTo_eq_ok (p := .quote) (q := .quoteReserve) (r := .peg) (n := 9) rfl (by norm_num)]
    at h
  obtain ⟨exposure, hexposure, size, hsize, steps, ⟨-, -, hsteps⟩, hmove⟩ := h
  refine ⟨exposure, hexposure, ?_⟩
  have hspendable : 0 ≤ a.spendable.raw := by
    rw [spendable, Fixed.raw_max]
    exact le_max_right _ _
  rw [hmove, hsteps, hsize, Int.natCast_natAbs, mul_comm,
    Int.tdiv_eq_ediv_of_nonneg (mul_nonneg hspendable (by norm_num))]
  rfl

lemma mul_sign_of_mul_pos {x y : ℤ} (h : 0 < x * y) : x * y.sign = |x| := by
  rcases pos_and_pos_or_neg_and_neg_of_mul_pos h with ⟨hx, hy⟩ | ⟨hx, hy⟩
  · rw [Int.sign_eq_one_of_pos hy, abs_of_pos hx, mul_one]
  · rw [Int.sign_eq_neg_one_of_neg hy, abs_of_neg hx, mul_neg_one]

/-- How far a budget goes that does not pay for `move`: `steps` in its direction, which end before
the move does, and not one more. -/
structure Affordable (budget exposure move steps : ℤ) : Prop where
  nonneg : 0 ≤ steps
  lt_move : steps < |move|
  paid : exposure * (move.sign * steps) ≤ budget * quoteUnit
  next_unpaid : budget * quoteUnit < exposure * (move.sign * (steps + 1))
  next_le : exposure * (move.sign * (steps + 1)) ≤ exposure * move

lemma affordable_of_lt {budget exposure move : ℤ} (hbudget : 0 ≤ budget)
    (hover : budget * quoteUnit < exposure * move) :
    Affordable budget exposure move (budget * quoteUnit / |exposure|) := by
  have hfunds : 0 ≤ budget * quoteUnit := mul_nonneg hbudget quoteUnit_pos.le
  have hcost : 0 < exposure * move := hfunds.trans_lt hover
  have hexposure : 0 < |exposure| := abs_pos.mpr (left_ne_zero_of_mul hcost.ne')
  have hall : exposure * move = |exposure| * |move| := by rw [← abs_mul, abs_of_pos hcost]
  have hsome (n : ℤ) : exposure * (move.sign * n) = n * |exposure| := by
    rw [← mul_assoc, mul_sign_of_mul_pos hcost, mul_comm]
  have hle := Int.ediv_mul_le (budget * quoteUnit) hexposure.ne'
  have hlt := Int.lt_ediv_add_one_mul_self (budget * quoteUnit) hexposure
  have hshort : budget * quoteUnit / |exposure| < |move| := by
    refine lt_of_mul_lt_mul_right ?_ hexposure.le
    linarith
  exact {
    nonneg := Int.ediv_nonneg hfunds hexposure.le
    lt_move := hshort
    paid := by rw [hsome]; exact hle
    next_unpaid := by rw [hsome]; exact hlt
    next_le := by
      rw [hsome, hall, mul_comm |exposure|]
      exact mul_le_mul_of_nonneg_right hshort hexposure.le }

/-! ### What a repeg did -/

lemma raw_spendable (a : Amm) : a.spendable.raw = max a.budget.raw 0 := by
  rw [spendable, Fixed.raw_max, Fixed.raw_zero]

/-- A repeg that went `steps` toward the optimal peg and paid `cost` for them. -/
structure Repegged (a : Amm) (price : Price) (b : Amm) (optimal : Peg) (steps : ℤ)
    (cost : QuoteAmount) : Prop where
  toward : a.optimalPeg price = .ok optimal
  steps_nonneg : 0 ≤ steps
  steps_le : steps ≤ a.allowedSteps optimal
  peg : b.peg.raw = a.peg.raw + (optimal.raw - a.peg.raw).sign * steps
  paid : a.repegCost b.peg = .ok cost
  cost_le : cost.raw ≤ max a.budget.raw 0
  budget : b.budget.raw = a.budget.raw - cost.raw
  next_unpaid : steps < a.allowedSteps optimal → ∃ next dearer,
    next.raw = b.peg.raw + (optimal.raw - a.peg.raw).sign ∧
      a.repegCost next = .ok dearer ∧ max a.budget.raw 0 < dearer.raw
  frame : b = { a with peg := b.peg, budget := b.budget, lastOraclePrice := price }

/-- Between two positive pegs the lower bound of a peg changes nothing. -/
lemma applyMove_steps {price : Price} {move optimal reached : Peg} {cost : QuoteAmount} {steps : ℤ}
    (hpeg : 1 ≤ a.peg.raw) (hoptimal : 1 ≤ optimal.raw) (h0 : 0 ≤ steps)
    (hle : steps ≤ |optimal.raw - a.peg.raw|)
    (hmove : move.raw = (optimal.raw - a.peg.raw).sign * steps)
    (hreached : reached.raw = a.peg.raw + move.raw) (h : a.applyMove price move cost = .ok b) :
    b.peg = reached ∧ b.budget.raw = a.budget.raw - cost.raw ∧
      b = { a with peg := b.peg, budget := b.budget, lastOraclePrice := price } := by
  obtain ⟨peg, budget, rfl, -, hnew, hbudget⟩ := applyMove_eq_ok.mp h
  obtain ⟨hlow, -⟩ := steps_between h0 hle
  refine ⟨?_, hbudget, rfl⟩
  ext
  rw [hnew, hreached, hmove]
  omega

/-- A move that the budget does not pay, and that ends before one that could be priced, can be
priced as well. -/
lemma repegCost_of_le {goal next : Peg} {cost : QuoteAmount} {exposure : QuoteReserve}
    {budget : ℤ} (hgoal : a.repegCost goal = .ok cost) (hexposure : a.exposure = .ok exposure)
    (hmove : Fits (next.raw - a.peg.raw)) (hbudget : 0 ≤ budget)
    (hunpaid : budget * quoteUnit < exposure.raw * (next.raw - a.peg.raw))
    (hle : exposure.raw * (next.raw - a.peg.raw) ≤ exposure.raw * (goal.raw - a.peg.raw)) :
    ∃ dearer, a.repegCost next = .ok dearer ∧ budget < dearer.raw := by
  obtain ⟨exposure', hexposure', -, hproduct, hcost⟩ := repegCost_eq_ok.mp hgoal
  rw [hexposure] at hexposure'
  cases hexposure'
  have hfunds : 0 ≤ budget * quoteUnit := mul_nonneg hbudget quoteUnit_pos.le
  have hlt : budget < Rounding.ceil.quotient (exposure.raw * (next.raw - a.peg.raw)) quoteUnit := by
    rw [← not_le, Rounding.ceil_quotient_le_iff _ quoteUnit_pos]
    exact not_le.mpr hunpaid
  have hcheaper :
      Rounding.ceil.quotient (exposure.raw * (next.raw - a.peg.raw)) quoteUnit ≤ cost.raw := by
    rw [Rounding.ceil_quotient_le_iff _ quoteUnit_pos]
    refine hle.trans ?_
    rw [← Rounding.ceil_quotient_le_iff _ quoteUnit_pos, hcost]
  have hzero : Fits 0 := (0 : Int128).fits
  refine ⟨⟨⟨_, Int128.fits_of_le hzero cost.fits (by omega) hcheaper⟩⟩, ?_, hlt⟩
  refine repegCost_eq_ok.mpr ⟨exposure, hexposure, hmove, ?_, rfl⟩
  exact Int128.fits_of_le hzero hproduct (by omega) hle

lemma sign_abs_of_steps {d n : ℤ} (hn : 0 ≤ n) (h : d.sign * n ≠ 0) :
    (d.sign * n).sign = d.sign ∧ |d.sign * n| = n := by
  have hd : d ≠ 0 := fun h0 => h (by rw [h0, Int.sign_zero, zero_mul])
  have hpos : 0 < n := lt_of_le_of_ne hn fun h0 => h (by rw [← h0, mul_zero])
  constructor
  · rw [Int.sign_mul, Int.sign_sign, Int.sign_eq_one_of_pos hpos, mul_one]
  · rw [abs_mul, Int.abs_sign_of_ne_zero hd, abs_of_pos hpos, one_mul]

/-- A move that the budget does not pay is replaced by the steps that it does pay. -/
lemma repegged_of_affordable {price : Price} {optimal move goal affordable reached : Peg}
    {cost reduced : QuoteAmount} (hpeg : 1 ≤ a.peg.raw)
    (hoptimal : a.optimalPeg price = .ok optimal)
    (hmove : move.raw = (optimal.raw - a.peg.raw).sign * a.allowedSteps optimal)
    (hgoal : goal.raw = a.peg.raw + move.raw) (hcost : a.repegCost goal = .ok cost)
    (hover : a.spendable < cost) (haffordable : a.affordableMove move = .ok affordable)
    (hreached : reached.raw = a.peg.raw + affordable.raw)
    (hreduced : a.repegCost reached = .ok reduced)
    (h : a.applyMove price affordable reduced = .ok b) :
    ∃ steps, a.Repegged price b optimal steps reduced := by
  have hfunds : 0 ≤ a.spendable.raw := by rw [raw_spendable]; exact le_max_right _ _
  obtain ⟨exposure, hexposure, haffordable⟩ := affordableMove_eq_ok haffordable
  obtain ⟨_, hexposure', -, -, hcost_eq⟩ := repegCost_eq_ok.mp hcost
  obtain ⟨_, hexposure'', -, -, hreduced_eq⟩ := repegCost_eq_ok.mp hreduced
  rw [hexposure] at hexposure' hexposure''
  cases hexposure'
  cases hexposure''
  rw [Fixed.lt_def, hcost_eq, ← not_le, Rounding.ceil_quotient_le_iff _ quoteUnit_pos, not_le,
    show goal.raw - a.peg.raw = move.raw by omega] at hover
  obtain ⟨h0, hlt, hpaid, hunpaid, hle⟩ := affordable_of_lt hfunds hover
  generalize a.spendable.raw * quoteUnit / |exposure.raw| = steps at *
  obtain ⟨hsign, habs⟩ := sign_abs_of_steps (a.allowedSteps_nonneg optimal)
    (hmove ▸ abs_pos.mp (h0.trans_lt hlt))
  rw [← hmove] at hsign habs
  rw [habs] at hlt
  rw [hsign] at haffordable hpaid hunpaid hle
  have hoptimal_pos := one_le_optimalPeg hoptimal
  have hgap := a.allowedSteps_le optimal
  obtain ⟨hb, hbudget, hframe⟩ :=
    applyMove_steps hpeg hoptimal_pos h0 (hlt.le.trans hgap) haffordable hreached h
  obtain ⟨next, hnext, hnext_pos⟩ := exists_peg_of_steps hpeg hoptimal_pos
    (show 0 ≤ steps + 1 by omega) (by omega)
  have hbeyond : next.raw - a.peg.raw = (optimal.raw - a.peg.raw).sign * (steps + 1) := by omega
  exact ⟨steps, {
    toward := hoptimal
    steps_nonneg := h0
    steps_le := hlt.le
    peg := by rw [hb, hreached, haffordable]
    paid := by rw [hb]; exact hreduced
    cost_le := by
      rw [← raw_spendable, hreduced_eq, Rounding.ceil_quotient_le_iff _ quoteUnit_pos,
        show reached.raw - a.peg.raw = affordable.raw by omega, haffordable]
      exact hpaid
    budget := hbudget
    next_unpaid := fun _ => by
      rw [← hbeyond] at hunpaid hle
      rw [show move.raw = goal.raw - a.peg.raw by omega] at hle
      obtain ⟨dearer, hdearer, hlt⟩ :=
        repegCost_of_le hcost hexposure
          (Int128.fits_sub next.fits a.peg.fits (by omega) (by omega)) hfunds hunpaid hle
      refine ⟨next, dearer, ?_, hdearer, raw_spendable a ▸ hlt⟩
      rw [hnext, hb, hreached, haffordable]
      ring
    frame := hframe }⟩

lemma repegged_of_repeg (hpeg : 1 ≤ a.peg.raw) (hrepegs : a.repegs oracle = true)
    (h : a.repeg oracle = .ok b) :
    ∃ optimal steps cost, a.Repegged oracle.price b optimal steps cost := by
  unfold repeg at h
  rw [if_pos hrepegs] at h
  simp only [bind_eq_ok, Fixed.add_eq_ok] at h
  obtain ⟨move, hmove, goal, hgoal, cost, hcost, h⟩ := h
  obtain ⟨optimal, hoptimal, hsteps⟩ := desiredMove_eq_ok hmove
  split_ifs at h with hover
  · simp only [bind_eq_ok, Fixed.add_eq_ok] at h
    obtain ⟨affordable, haffordable, reached, hreached, reduced, hreduced, h⟩ := h
    obtain ⟨steps, hb⟩ := repegged_of_affordable hpeg hoptimal hsteps hgoal hcost hover
      haffordable hreached hreduced h
    exact ⟨optimal, steps, reduced, hb⟩
  · have hallowed := a.allowedSteps_nonneg optimal
    obtain ⟨hb, hbudget, hframe⟩ := applyMove_steps hpeg (one_le_optimalPeg hoptimal) hallowed
      (a.allowedSteps_le optimal) hsteps hgoal h
    rw [Fixed.lt_def, raw_spendable, not_lt] at hover
    exact ⟨optimal, a.allowedSteps optimal, cost, {
      toward := hoptimal
      steps_nonneg := hallowed
      steps_le := le_rfl
      peg := by rw [hb, hgoal, hsteps]
      paid := by rw [hb]; exact hcost
      cost_le := hover
      budget := hbudget
      next_unpaid := fun h => absurd h (lt_irrefl _)
      frame := hframe }⟩

namespace Repegged

variable {price : Price} {optimal : Peg} {steps : ℤ} {cost : QuoteAmount}

lemma between (h : a.Repegged price b optimal steps cost) :
    min a.peg.raw optimal.raw ≤ b.peg.raw ∧ b.peg.raw ≤ max a.peg.raw optimal.raw := by
  rw [h.peg]
  exact steps_between h.steps_nonneg (h.steps_le.trans (a.allowedSteps_le optimal))

lemma peg_pos (h : a.Repegged price b optimal steps cost) (hpeg : 1 ≤ a.peg.raw) :
    1 ≤ b.peg.raw :=
  (le_min hpeg (one_le_optimalPeg h.toward)).trans h.between.1

lemma abs_move (h : a.Repegged price b optimal steps cost) :
    |b.peg.raw - a.peg.raw| = steps := by
  have hpeg := h.peg
  have h0 := h.steps_nonneg
  have hle := h.steps_le.trans (a.allowedSteps_le optimal)
  rw [show b.peg.raw - a.peg.raw = (optimal.raw - a.peg.raw).sign * steps by omega]
  generalize optimal.raw - a.peg.raw = gap at hle
  by_cases hmove : gap.sign * steps = 0
  · rw [hmove, abs_zero]
    rcases mul_eq_zero.mp hmove with hgap | hsteps
    · rw [Int.sign_eq_zero_iff_zero.mp hgap, abs_zero] at hle
      omega
    · exact hsteps.symm
  · exact (sign_abs_of_steps h0 hmove).2

lemma budget_nonneg (h : a.Repegged price b optimal steps cost) (hbudget : 0 ≤ a.budget.raw) :
    0 ≤ b.budget.raw := by
  have hcost := h.cost_le
  rw [max_eq_left hbudget] at hcost
  rw [h.budget]
  omega

end Repegged

/-- The pool that a repeg leaves, whether it moved the peg or not. -/
lemma repegged_or_eq (hpeg : 1 ≤ a.peg.raw) (h : a.repeg oracle = .ok b) :
    (∃ optimal steps cost, a.Repegged oracle.price b optimal steps cost) ∨ b = a := by
  by_cases hrepegs : a.repegs oracle = true
  · exact .inl (repegged_of_repeg hpeg hrepegs h)
  · rw [repeg, if_neg hrepegs] at h
    cases h
    exact .inr rfl

lemma one_le_peg_of_repeg (hpeg : 1 ≤ a.peg.raw) (h : a.repeg oracle = .ok b) : 1 ≤ b.peg.raw := by
  rcases repegged_or_eq hpeg h with ⟨optimal, steps, cost, hb⟩ | rfl
  · exact hb.peg_pos hpeg
  · exact hpeg

/-- **A repeg keeps to its intensity and spends no more than its budget.** The peg stops between
the old peg and the optimal one, not further than the intensity allows. What the new peg costs is
paid in full and is covered by what there was to spend; a move that is shorter than the intensity
allows could not have been a step longer. -/
theorem repeg_within_budget (hpeg : 1 ≤ a.peg.raw) (hintensity : 0 < a.repegIntensity)
    (hprice : 0 < oracle.price.raw) (h : a.repeg oracle = .ok b) :
    ∃ optimal cost, a.optimalPeg oracle.price = .ok optimal ∧ a.repegCost b.peg = .ok cost ∧
      1 ≤ b.peg.raw ∧
      (min a.peg.raw optimal.raw ≤ b.peg.raw ∧ b.peg.raw ≤ max a.peg.raw optimal.raw) ∧
      |b.peg.raw - a.peg.raw| ≤ a.allowedSteps optimal ∧
      b.budget.raw = a.budget.raw - cost.raw ∧
      cost.raw ≤ max a.budget.raw 0 ∧
      (0 ≤ a.budget.raw → 0 ≤ b.budget.raw) ∧
      (|b.peg.raw - a.peg.raw| < a.allowedSteps optimal → ∃ next dearer,
        next.raw = b.peg.raw + (optimal.raw - a.peg.raw).sign ∧
          a.repegCost next = .ok dearer ∧ max a.budget.raw 0 < dearer.raw) ∧
      b = { a with peg := b.peg, budget := b.budget, lastOraclePrice := oracle.price } := by
  have hrepegs : a.repegs oracle = true := by
    have hon : a.repegIntensity ≠ 0 := fun h0 => absurd (h0 ▸ hintensity) (by decide)
    simp [repegs, hon, hprice]
  obtain ⟨optimal, steps, cost, hb⟩ := repegged_of_repeg hpeg hrepegs h
  refine ⟨optimal, cost, hb.toward, hb.paid, hb.peg_pos hpeg, hb.between, ?_, hb.budget,
    hb.cost_le, hb.budget_nonneg, ?_, hb.frame⟩
  · rw [hb.abs_move]
    exact hb.steps_le
  · rw [hb.abs_move]
    exact hb.next_unpaid

/-- A pool whose users are long three thousand base, with three thousandths of a quote to spend. -/
def indebted : Amm :=
  { balanced (.ofInt 400000000000000) (.ofRaw 4000000) with
    netBase := .ofRaw 3000000000000
    repegIntensity := 100
    budget := .ofRaw 3000 }

/-- That pool after one step toward a doubled price. -/
def indebtedRepegged : Amm :=
  { indebted with
    peg := .ofRaw 4000001
    budget := .ofRaw 22
    lastOraclePrice := .ofRaw 8000000 }

theorem repeg_within_budget_one_step :
    indebted.repeg (.of (.ofRaw 8000000)) = .ok indebtedRepegged ∧
      ∃ next dearer, next.raw = 4000002 ∧ indebted.repegCost next = .ok dearer ∧
        3000 < dearer.raw := by
  have h : indebted.repeg (.of (.ofRaw 8000000)) = .ok indebtedRepegged := by decide
  obtain ⟨optimal, cost, hoptimal, -, -, -, -, -, -, -, hnext, -⟩ :=
    repeg_within_budget (by decide) (by decide) (by decide) h
  have htwo : indebted.optimalPeg (.ofRaw 8000000) = .ok (.ofRaw 8000000) := by decide
  cases hoptimal.symm.trans htwo
  obtain ⟨next, dearer, hraw, hdearer, hlt⟩ := hnext (by decide)
  exact ⟨h, next, dearer, hraw, hdearer, hlt⟩

end PerpExchange.Amm
