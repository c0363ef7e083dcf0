import Mathlib.Algebra.BigOperators.Ring.List
import Mathlib.Algebra.Order.BigOperators.Group.List
import Mathlib.Data.List.Count
import PerpExchange.Market.Perp
import PerpExchange.Proofs.Position.Perp

/-!
What users are owed together against what they are owed one by one.

The market truncates the notional of the net base once, the positions truncate theirs one by one.
Truncation cuts a part of the sign of its term. So the cut parts only add up to as many whole units
as there are terms if all terms have one sign, and then the sum has that sign as well and is cut the
same way.
-/

namespace PerpExchange

namespace Rounding

variable {b : ℤ}

/-- Truncation cuts something above zero off the terms above zero only. -/
lemma sum_tmod_le (hb : 0 < b) (l : List ℤ) :
    (l.map (·.tmod b)).sum ≤ l.countP (0 < ·) * (b - 1) := by
  induction l with
  | nil => simp
  | cons a rest ih =>
    rw [List.map_cons, List.sum_cons, List.countP_cons]
    by_cases ha : 0 < a
    · have hcut := Int.tmod_lt_of_pos a hb
      simp only [ha, decide_true, if_true, Nat.cast_add, Nat.cast_one]
      linarith
    · have hcut : 0 ≤ (-a).tmod b := Int.tmod_nonneg b (by omega)
      rw [Int.neg_tmod] at hcut
      simp only [ha, decide_false, Bool.false_eq_true, if_false, add_zero]
      linarith

lemma sum_eq_mul_tdiv_add_tmod (b : ℤ) (l : List ℤ) :
    l.sum = b * (l.map (·.tdiv b)).sum + (l.map (·.tmod b)).sum := by
  induction l with
  | nil => simp
  | cons a rest ih =>
    have ha := Int.mul_tdiv_add_tmod a b
    simp only [List.map_cons, List.sum_cons]
    linarith

lemma countP_pos_lt {l : List ℤ} (h : l.sum < 0) : l.countP (0 < ·) < l.length := by
  rw [List.countP_lt_length_iff]
  by_contra! hall
  have : 0 ≤ l.sum := List.sum_nonneg fun a ha => by
    have hpos : 0 < a := by simpa using hall a ha
    exact hpos.le
  omega

/-- The truncated sum is above the sum of the truncated terms by less than the number of terms. -/
lemma tdiv_sum_sub_lt {l : List ℤ} (hb : 0 < b) (hl : l ≠ []) :
    l.sum.tdiv b - (l.map (·.tdiv b)).sum < l.length := by
  have hterms := sum_eq_mul_tdiv_add_tmod b l
  have hsum := Int.mul_tdiv_add_tmod l.sum b
  have hcut := sum_tmod_le hb l
  refine lt_of_mul_lt_mul_left ?_ hb.le
  rcases le_or_gt 0 l.sum with hnonneg | hneg
  · -- the sum loses nothing below zero, and no term loses a whole unit
    have hkept := Int.tmod_nonneg b hnonneg
    have hlength : (0 : ℤ) < l.length := by exact_mod_cast List.length_pos_iff.mpr hl
    have hcount : (l.countP (0 < ·) : ℤ) ≤ l.length := by exact_mod_cast List.countP_le_length
    have := mul_le_mul_of_nonneg_right hcount (show 0 ≤ b - 1 by omega)
    linarith
  · -- some term is not above zero, which makes up for what the sum loses
    have hkept := Int.lt_tmod_of_pos l.sum hb
    have hcount : (l.countP (0 < ·) : ℤ) ≤ l.length - 1 := by
      have := countP_pos_lt hneg
      omega
    have := mul_le_mul_of_nonneg_right hcount (show 0 ≤ b - 1 by omega)
    linarith

/-- Truncating a sum once or its terms one by one differs by less than the number of terms. -/
lemma abs_tdiv_sum_sub_lt {l : List ℤ} (hb : 0 < b) (hl : l ≠ []) :
    |l.sum.tdiv b - (l.map (·.tdiv b)).sum| < l.length := by
  have hneg := tdiv_sum_sub_lt (l := l.map (-·)) hb (by simpa using hl)
  have hsum : (l.map (-·)).sum.tdiv b = -l.sum.tdiv b := by rw [← List.sum_neg, Int.neg_tdiv]
  have hterms : ((l.map (-·)).map (·.tdiv b)).sum = -(l.map (·.tdiv b)).sum := by
    simp only [List.sum_neg, List.map_map]
    exact congrArg List.sum (List.map_congr_left fun a _ => Int.neg_tdiv a b)
  rw [hsum, hterms, List.length_map] at hneg
  rw [abs_lt]
  exact ⟨by linarith, tdiv_sum_sub_lt hb hl⟩

end Rounding

namespace PerpPosition

variable {p : PerpPosition} {price : Price} {pnl : QuoteAmount}

lemma sign_mul_notional (base : ℤ) {price : ℤ} (hprice : 0 ≤ price) :
    base.sign * notional base price = (base * price).tdiv (10 ^ 9) := by
  have hvalue : (|base| * price).tdiv (10 ^ 9) = notional base price :=
    Int.tdiv_eq_ediv_of_nonneg (mul_nonneg (abs_nonneg base) hprice)
  rw [← hvalue]
  rcases lt_trichotomy base 0 with hshort | rfl | hlong
  · rw [Int.sign_eq_neg_one_of_neg hshort, abs_of_neg hshort, neg_mul base, Int.neg_tdiv,
      neg_one_mul, neg_neg]
  · simp
  · rw [Int.sign_eq_one_of_pos hlong, abs_of_pos hlong, one_mul]

lemma unrealizedPnl_eq_tdiv (h : p.unrealizedPnl price = .ok pnl) (hprice : 0 ≤ price.raw) :
    pnl.raw = (p.base.raw * price.raw).tdiv (10 ^ 9) + p.quote.raw := by
  rw [raw_unrealizedPnl h hprice, exactPnl, sign_mul_notional p.base.raw hprice]

lemma sum_unrealizedPnl {ps : List PerpPosition} {pnls : List QuoteAmount}
    (h : ps.mapM (·.unrealizedPnl price) = .ok pnls) (hprice : 0 ≤ price.raw) :
    (pnls.map (·.raw)).sum =
      ((ps.map (·.base.raw * price.raw)).map (·.tdiv (10 ^ 9))).sum + (ps.map (·.quote.raw)).sum := by
  induction ps generalizing pnls with
  | nil =>
    cases h
    rfl
  | cons p rest ih =>
    rw [List.mapM_cons] at h
    simp only [bind_eq_ok, pure_eq_ok] at h
    obtain ⟨pnl, hpnl, others, hothers, rfl⟩ := h
    simp only [List.map_cons, List.sum_cons, ih hothers, unrealizedPnl_eq_tdiv hpnl hprice]
    ring

end PerpPosition

namespace PerpMarket

variable {m : PerpMarket} {price : Price} {net : QuoteAmount} {ps : List PerpPosition}

lemma netUserPnl_eq_ok (h : m.netUserPnl price = .ok net) :
    net.raw = (m.amm.netBase.raw * price.raw).tdiv (10 ^ 9) + m.amm.quoteLong.raw
      + m.amm.quoteShort.raw := by
  simp only [netUserPnl, bind_eq_ok, Fixed.mul_eq_ok, Fixed.add_eq_ok,
    Product.rescale_eq_ok (p := .base) (q := .price) (r := .quote) (n := 9) rfl (by norm_num)] at h
  obtain ⟨product, hproduct, value, hvalue, long, hlong, h⟩ := h
  rw [h, hlong, hvalue, hproduct]

/-- The books of the market are those of the positions in a list. -/
structure Holds (m : PerpMarket) (ps : List PerpPosition) : Prop where
  netBase : m.amm.netBase.raw = (ps.map (·.base.raw)).sum
  quoteLong : m.amm.quoteLong.raw = ((ps.filter (0 ≤ ·.base.raw)).map (·.quote.raw)).sum
  quoteShort : m.amm.quoteShort.raw = ((ps.filter (·.base.raw < 0)).map (·.quote.raw)).sum

lemma Holds.quote_eq (h : m.Holds ps) :
    m.amm.quoteLong.raw + m.amm.quoteShort.raw = (ps.map (·.quote.raw)).sum := by
  have hsides := List.sum_map_filter_add_sum_map_filter_not (0 ≤ ·.base.raw) (·.quote.raw) ps
  simp only [not_le] at hsides
  rw [h.quoteLong, h.quoteShort, hsides]

/-- **Users are owed together what they are owed one by one**, up to one quote unit less than there
are positions, whatever their signs and the price. -/
theorem netUserPnl_sub_sum_pnl_le {pnls : List QuoteAmount} (hbooks : m.Holds ps) (hps : ps ≠ [])
    (hprice : 0 < price.raw) (hnet : m.netUserPnl price = .ok net)
    (hpnls : ps.mapM (·.unrealizedPnl price) = .ok pnls) :
    |net.raw - (pnls.map (·.raw)).sum| ≤ ps.length - 1 := by
  have hquote := hbooks.quote_eq
  have hvalue : (ps.map (·.base.raw * price.raw)).sum = m.amm.netBase.raw * price.raw := by
    rw [hbooks.netBase, List.sum_map_mul_right]
  have hdiffer : net.raw - (pnls.map (·.raw)).sum =
      (ps.map (·.base.raw * price.raw)).sum.tdiv (10 ^ 9)
        - ((ps.map (·.base.raw * price.raw)).map (·.tdiv (10 ^ 9))).sum := by
    rw [netUserPnl_eq_ok hnet, PerpPosition.sum_unrealizedPnl hpnls hprice.le, hvalue]
    omega
  have hcut := Rounding.abs_tdiv_sum_sub_lt (b := 10 ^ 9) (l := ps.map (·.base.raw * price.raw))
    (by norm_num) (by simpa using hps)
  rw [← hdiffer, List.length_map] at hcut
  omega

/-- Two longs and the short of a third user, who holds more than both. -/
def holders : List PerpPosition :=
  [⟨⟨0⟩, .ofRaw 3091100305, .ofRaw (-27000001), .ofRaw (-27000001)⟩,
    ⟨⟨0⟩, .ofRaw 1456321087, .ofRaw (-13500007), .ofRaw (-13500007)⟩,
    ⟨⟨0⟩, .ofRaw (-4793595014), .ofRaw 44100003, .ofRaw 44100003⟩]

/-- The market of these users. -/
def shortened : PerpMarket :=
  new ⟨0⟩ { Amm.balanced 0 Fixed.one with
    netBase := .ofRaw (-246173622)
    quoteLong := .ofRaw (-40500008)
    quoteShort := .ofRaw 44100003 }

theorem netUserPnl_sub_sum_pnl_le_attained : shortened.Holds holders ∧ ∃ net pnls,
    shortened.netUserPnl (.ofRaw 9065565) = .ok net ∧
    holders.mapM (·.unrealizedPnl (.ofRaw 9065565)) = .ok pnls ∧
    net.raw - (pnls.map (·.raw)).sum = 2 ∧
    |net.raw - (pnls.map (·.raw)).sum| ≤ holders.length - 1 := by
  have hbooks : shortened.Holds holders := by constructor <;> decide
  obtain ⟨net, pnls, hnet, hpnls, hgap⟩ : ∃ net pnls,
      shortened.netUserPnl (.ofRaw 9065565) = .ok net ∧
      holders.mapM (·.unrealizedPnl (.ofRaw 9065565)) = .ok pnls ∧
      net.raw - (pnls.map (·.raw)).sum = 2 := ⟨_, _, rfl, rfl, rfl⟩
  exact ⟨hbooks, net, pnls, hnet, hpnls, hgap,
    netUserPnl_sub_sum_pnl_le hbooks (List.cons_ne_nil _ _) (by decide) hnet hpnls⟩

end PerpMarket

end PerpExchange
