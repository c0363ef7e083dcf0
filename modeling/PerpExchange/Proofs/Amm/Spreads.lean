import PerpExchange.Amm.Spreads
import PerpExchange.Proofs.Amm.Quoting

/-!
The spreads of a pool, as exact integers.

Each side starts at half of the base spread. Takers who would trade through the oracle pay for its
distance, and takers who would add to the inventory pay for its size. What is above the cap is
shared out: the long side rounds down and the short side takes the rest, so no unit of the total is
lost. Under a cap of twice the price, half of the spread's share never reaches the quote reserve,
and the pool can always quote a bid.
-/

namespace PerpExchange

/-- The spread for takers of one direction. -/
def Spreads.of (s : Spreads) : Direction → Spread
  | .long => s.long
  | .short => s.short

/-- The capped spreads make up the whole of the total or the whole of the cap, whichever is less. -/
lemma Spreads.clamp_spec {s t : Spreads} {limit : Spread} (h : s.clamp limit = .ok t)
    (hpos : ∀ direction, 0 ≤ (s.of direction).raw) (hlimit : 0 ≤ limit.raw) :
    (∀ direction, 0 ≤ (t.of direction).raw) ∧
      t.long.raw + t.short.raw = min (s.long.raw + s.short.raw) limit.raw := by
  have hlong : 0 ≤ s.long.raw := hpos .long
  have hshort : 0 ≤ s.short.raw := hpos .short
  simp only [clamp, bind_eq_ok, Fixed.add_eq_ok] at h
  obtain ⟨total, htotal, h⟩ := h
  split_ifs at h with habove hzero
  · rw [pure_eq_ok] at h
    subst h
    rw [Fixed.lt_def] at habove
    refine ⟨fun direction => by cases direction <;> exact le_rfl, ?_⟩
    simp only [Fixed.raw_zero]
    omega
  · simp only [bind_eq_ok, Fixed.mulDiv, Fixed.mul_eq_ok, Fixed.sub_eq_ok, pure_eq_ok,
      Product.divTo_eq_ok (p := .spread) (q := .spread) (d := .spread) (r := .spread) rfl] at h
    obtain ⟨long, ⟨product, hproduct, -, hshare⟩, short, hrest, rfl⟩ := h
    rw [Fixed.lt_def] at habove
    have hscaled : 0 ≤ s.long.raw * limit.raw := mul_nonneg hlong hlimit
    have htotal_pos : 0 < total.raw := hlimit.trans_lt habove
    rw [hproduct, Int.tdiv_eq_ediv_of_nonneg hscaled] at hshare
    have hshare_nonneg : 0 ≤ long.raw := hshare ▸ Int.ediv_nonneg hscaled htotal_pos.le
    -- a side is at most the total, so its share is at most the cap
    have hshare_le : long.raw ≤ limit.raw := by
      rw [hshare]
      refine Int.ediv_le_of_le_mul htotal_pos ?_
      rw [mul_comm]
      exact mul_le_mul_of_nonneg_left (by omega) hlimit
    refine ⟨fun direction => ?_, by simp only; omega⟩
    cases direction with
    | long => exact hshare_nonneg
    | short =>
      show 0 ≤ short.raw
      omega
  · rw [pure_eq_ok] at h
    subst h
    rw [Fixed.lt_def] at habove
    exact ⟨hpos, by omega⟩

namespace Amm

variable {a : Amm} {oracle : Price} {direction : Direction} {s : Spreads}

/-! ### The spread of a direction -/

def reservePrice (a : Amm) : ℤ := a.quoteReserve.raw * a.peg.raw / a.baseReserve.raw

/-- How far the pool's price is from the oracle, as a fraction of the oracle's. -/
def divergence (a : Amm) (oracle : Price) : ℤ :=
  |a.reservePrice - oracle.raw| * 10 ^ 6 / oracle.raw

/-- The direction of the takers who would trade through the oracle. -/
def exposed (a : Amm) (oracle : Price) : Direction :=
  if a.reservePrice < oracle.raw then .long else .short

/-- Half of the base spread, and the divergence for the takers who would trade on it. -/
def startingSpread (a : Amm) (oracle : Price) (direction : Direction) : ℤ :=
  a.baseSpread.raw / 2 + if direction = a.exposed oracle then a.divergence oracle else 0

def skewFactor (a : Amm) : ℤ :=
  min (10 ^ 6 + |a.netBase.raw| * 10 ^ 6 / a.baseReserve.raw) (10 * 10 ^ 6)

/-- The spread before the cap: takers of the direction that users already lean to pay for the skew
as well. -/
def widenedSpread (a : Amm) (oracle : Price) (direction : Direction) : ℤ :=
  if 0 < direction.sign * a.netBase.raw then
    a.startingSpread oracle direction * a.skewFactor / 10 ^ 6
  else a.startingSpread oracle direction

def widenedTotal (a : Amm) (oracle : Price) : ℤ :=
  a.widenedSpread oracle .long + a.widenedSpread oracle .short

lemma divergence_nonneg (horacle : 0 < oracle.raw) : 0 ≤ a.divergence oracle :=
  Int.ediv_nonneg (mul_nonneg (abs_nonneg _) (by norm_num)) horacle.le

lemma startingSpread_nonneg (hspread : 0 ≤ a.baseSpread.raw) (horacle : 0 < oracle.raw) :
    0 ≤ a.startingSpread oracle direction := by
  have hdivergence := a.divergence_nonneg horacle
  unfold startingSpread
  split_ifs <;> omega

lemma skewFactor_nonneg (hbase : 0 < a.baseReserve.raw) : 0 ≤ a.skewFactor := by
  have hskew : 0 ≤ |a.netBase.raw| * 10 ^ 6 / a.baseReserve.raw :=
    Int.ediv_nonneg (mul_nonneg (abs_nonneg _) (by norm_num)) hbase.le
  unfold skewFactor
  omega

lemma widenedSpread_nonneg (hspread : 0 ≤ a.baseSpread.raw) (hbase : 0 < a.baseReserve.raw)
    (horacle : 0 < oracle.raw) : 0 ≤ a.widenedSpread oracle direction := by
  have hstart : 0 ≤ a.startingSpread oracle direction := startingSpread_nonneg hspread horacle
  unfold widenedSpread
  split_ifs
  · exact Int.ediv_nonneg (mul_nonneg hstart (skewFactor_nonneg hbase)) (by norm_num)
  · exact hstart

/-! ### The computed spreads -/

lemma raw_price {price : Price} (h : a.price = .ok price) (hpeg : 0 < a.peg.raw) :
    price.raw = a.reservePrice := by
  obtain ⟨⟨-, hquote⟩, hprice⟩ := Reserves.price_eq_ok h
  rw [hprice, Int.tdiv_eq_ediv_of_nonneg (mul_nonneg hquote.le hpeg.le)]
  rfl

/-- The computed divergence has the sign of the distance, or is zero. -/
lemma raw_divergence {price gap : Price} {quotient : Spread} (hprice : a.price = .ok price)
    (hgap : price.sub oracle = .ok gap) (hquotient : gap.divTo oracle = .ok quotient)
    (hpeg : 0 < a.peg.raw) (horacle : 0 < oracle.raw) :
    |quotient.raw| = a.divergence oracle ∧
      (quotient.raw < 0 → a.exposed oracle = .long) ∧
        (0 < quotient.raw → a.exposed oracle = .short) := by
  rw [Fixed.sub_eq_ok, raw_price hprice hpeg] at hgap
  rw [Fixed.divTo_eq_ok (n := 6) rfl (by norm_num)] at hquotient
  obtain ⟨-, -, hquotient⟩ := hquotient
  rw [hgap] at hquotient
  refine ⟨?_, fun hneg => if_pos ?_, fun hpos => if_neg ?_⟩
  · rw [hquotient, Rounding.abs_tdiv _ horacle, abs_mul]
    rfl
  · by_contra hdear
    have hnonneg := Int.tdiv_nonneg (mul_nonneg (sub_nonneg.mpr (not_lt.mp hdear))
      (show (0 : ℤ) ≤ 10 ^ 6 by norm_num)) horacle.le
    omega
  · have hscaled := Rounding.pos_of_tdiv_pos horacle.le (hquotient ▸ hpos)
    omega

lemma raw_divergedSpreads (h : a.divergedSpreads oracle = .ok s) (hpeg : 0 < a.peg.raw)
    (hspread : 0 ≤ a.baseSpread.raw) (horacle : 0 < oracle.raw) (direction : Direction) :
    (s.of direction).raw = a.startingSpread oracle direction := by
  simp only [divergedSpreads, bind_eq_ok, Fixed.divInt_eq_ok] at h
  obtain ⟨half, ⟨-, hhalf⟩, price, hprice, gap, hgap, quotient, hquotient, h⟩ := h
  obtain ⟨habs, hcheap, hdear⟩ := raw_divergence hprice hgap hquotient hpeg horacle
  rw [Int.tdiv_eq_ediv_of_nonneg hspread] at hhalf
  unfold startingSpread
  split_ifs at h with hneg
  · simp only [bind_eq_ok, Fixed.abs_eq_ok, Fixed.add_eq_ok, pure_eq_ok] at h
    obtain ⟨size, hsize, long, hlong, rfl⟩ := h
    rw [← Int.abs_eq_natAbs, habs] at hsize
    rw [hcheap hneg]
    cases direction <;> simp only [Spreads.of, reduceCtorEq, if_true, if_false] <;> omega
  · simp only [bind_eq_ok, Fixed.add_eq_ok, pure_eq_ok] at h
    obtain ⟨short, hshort, rfl⟩ := h
    rw [abs_of_nonneg (not_lt.mp hneg)] at habs
    rcases (not_lt.mp hneg).eq_or_lt with hzero | hpos
    · -- no divergence is left after rounding, so it does not matter who is exposed
      rw [← habs, ← hzero, ite_self]
      cases direction <;> simp only [Spreads.of] <;> omega
    · rw [hdear hpos]
      cases direction <;> simp only [Spreads.of, reduceCtorEq, if_true, if_false] <;> omega

lemma raw_skewScale {scale : Spread} (h : a.skewScale = .ok scale) :
    scale.raw = a.skewFactor := by
  simp only [skewScale, bind_eq_ok, Fixed.abs_eq_ok, Fixed.add_eq_ok, pure_eq_ok,
    Fixed.divTo_eq_ok (p := .base) (q := .base) (r := .spread) (n := 6) rfl (by norm_num)] at h
  obtain ⟨size, hsize, skew, ⟨-, -, hskew⟩, sum, hsum, rfl⟩ := h
  rw [hsize, ← Int.abs_eq_natAbs,
    Int.tdiv_eq_ediv_of_nonneg (mul_nonneg (abs_nonneg _) (by norm_num))] at hskew
  rw [Fixed.raw_min, hsum, hskew]
  rfl

lemma raw_scaledSpread {spread scale scaled : Spread} {product : Product .spread .spread}
    (hproduct : spread.mul scale = .ok product) (h : product.rescale = .ok scaled)
    (hspread : 0 ≤ spread.raw) (hscale : 0 ≤ scale.raw) :
    scaled.raw = spread.raw * scale.raw / 10 ^ 6 := by
  rw [Fixed.mul_eq_ok] at hproduct
  rw [Product.rescale_eq_ok (n := 6) rfl (by norm_num), hproduct,
    Int.tdiv_eq_ediv_of_nonneg (mul_nonneg hspread hscale)] at h
  exact h

/-- Spreads are computed for pools with both reserves, against a positive price. -/
lemma pos_of_widenedSpreads (h : a.widenedSpreads oracle = .ok s) :
    0 < oracle.raw ∧ 0 < a.baseReserve.raw ∧ 0 < a.quoteReserve.raw := by
  simp only [widenedSpreads, divergedSpreads, bind_eq_ok, Failure.liftM_violation_eq_ok,
    Failure.liftM_refusal_eq_ok, Refusal.guard_eq_ok] at h
  obtain ⟨-, horacle, -, ⟨-, -, price, hprice, -⟩, -⟩ := h
  exact ⟨horacle, (Reserves.price_eq_ok hprice).1⟩

lemma raw_widenedSpreads (h : a.widenedSpreads oracle = .ok s) (hpeg : 0 < a.peg.raw)
    (hspread : 0 ≤ a.baseSpread.raw) (direction : Direction) :
    (s.of direction).raw = a.widenedSpread oracle direction := by
  obtain ⟨horacle, hbase, -⟩ := pos_of_widenedSpreads h
  simp only [widenedSpreads, bind_eq_ok, Failure.liftM_violation_eq_ok] at h
  obtain ⟨-, -, started, hstarted, scale, hscale, h⟩ := h
  have hraw := raw_divergedSpreads hstarted hpeg hspread horacle
  have hpos : ∀ side, 0 ≤ (started.of side).raw := fun side =>
    hraw side ▸ startingSpread_nonneg hspread horacle
  have hfactor : 0 ≤ scale.raw := raw_skewScale hscale ▸ skewFactor_nonneg hbase
  unfold widenedSpread
  rw [← raw_skewScale hscale, ← hraw direction]
  split_ifs at h with hlong hshort
  · simp only [bind_eq_ok, Failure.liftM_violation_eq_ok, pure_eq_ok] at h
    obtain ⟨product, hproduct, long, hscaled, rfl⟩ := h
    cases direction with
    | long =>
      rw [Direction.sign, one_mul, if_pos hlong]
      exact raw_scaledSpread hproduct hscaled (hpos .long) hfactor
    | short =>
      rw [Direction.sign, if_neg (by omega)]
      rfl
  · simp only [bind_eq_ok, Failure.liftM_violation_eq_ok, pure_eq_ok] at h
    obtain ⟨product, hproduct, short, hscaled, rfl⟩ := h
    cases direction with
    | long =>
      rw [Direction.sign, if_neg (by omega)]
      rfl
    | short =>
      rw [Direction.sign, if_pos (by omega)]
      exact raw_scaledSpread hproduct hscaled (hpos .short) hfactor
  · rw [pure_eq_ok] at h
    subst h
    have hflat : ¬0 < direction.sign * a.netBase.raw := by
      rw [show a.netBase.raw = 0 by omega, mul_zero]
      exact lt_irrefl 0
    rw [if_neg hflat]

/-- The pool's spreads are not negative, and they come to the widened total or the cap. -/
lemma spreads_spec (h : a.spreads oracle = .ok s) (hpeg : 0 < a.peg.raw)
    (hspread : 0 ≤ a.baseSpread.raw) (hmax : 0 ≤ a.maxSpread.raw) :
    (∀ direction, 0 ≤ (s.of direction).raw) ∧
      s.long.raw + s.short.raw = min (a.widenedTotal oracle) a.maxSpread.raw := by
  simp only [spreads, bind_eq_ok, Failure.liftM_violation_eq_ok] at h
  obtain ⟨widened, hwidened, hclamp⟩ := h
  obtain ⟨horacle, hbase, -⟩ := pos_of_widenedSpreads hwidened
  have hraw := raw_widenedSpreads hwidened hpeg hspread
  obtain ⟨hpos, hsum⟩ := Spreads.clamp_spec hclamp
    (fun direction => hraw direction ▸ widenedSpread_nonneg hspread hbase horacle) hmax
  exact ⟨hpos, hsum.trans (by rw [widenedTotal, ← hraw .long, ← hraw .short]; rfl)⟩

/-! ### What the capped spreads quote -/

lemma quoteShift_lt {shift : QuoteReserve} (h : a.quoteShift direction = .ok shift)
    (hquote : 0 < a.quoteReserve.raw) (hspread : 0 ≤ (a.spreadOf direction).raw)
    (hlt : (a.spreadOf direction).raw < 2 * 10 ^ 6) : shift.raw < a.quoteReserve.raw := by
  have hscaled : 0 ≤ a.quoteReserve.raw * (a.spreadOf direction).raw :=
    mul_nonneg hquote.le hspread
  have hshare : a.quoteReserve.raw * (a.spreadOf direction).raw / 10 ^ 6
      < 2 * a.quoteReserve.raw := by
    refine Int.ediv_lt_of_lt_mul (by norm_num) ?_
    calc a.quoteReserve.raw * (a.spreadOf direction).raw
        < a.quoteReserve.raw * (2 * 10 ^ 6) := mul_lt_mul_of_pos_left hlt hquote
      _ = 2 * a.quoteReserve.raw * 10 ^ 6 := by ring
  rw [quoteShift_eq_ok h, Int.tdiv_eq_ediv_of_nonneg hscaled,
    Int.tdiv_eq_ediv_of_nonneg (Int.ediv_nonneg hscaled (by norm_num))]
  omega

lemma quoteShift_ne_error {e : Violation} (he : ¬e.IsArithmetic) :
    a.quoteShift direction ≠ .error e := by
  refine bind_ne_error (Product.ofChecked_ne_error (Int128.check_ne_error he)) fun _ _ => ?_
  refine bind_ne_error (Fixed.ofChecked_ne_error (Int128.moveDecimals_ne_error he)) fun _ _ => ?_
  exact Fixed.ofChecked_ne_error (Int128.divide_ne_error he)

/-- A pool whose spread is less than twice the price always has reserves to quote from. -/
lemma spreadReserves_ne_notPositive {side : ReserveSide} (hbase : 0 < a.baseReserve.raw)
    (hquote : 0 < a.quoteReserve.raw) (hspread : 0 ≤ (a.spreadOf direction).raw)
    (hlt : (a.spreadOf direction).raw < 2 * 10 ^ 6) :
    a.spreadReserves direction ≠ .error (.reserveNotPositive side) := by
  have he : ¬(Violation.reserveNotPositive side).IsArithmetic := id
  have hinvariant : a.invariant ≠ .error (.reserveNotPositive side) := by
    refine bind_ne_error ?_ fun _ _ => Product.ofChecked_ne_error (Int128.check_ne_error he)
    exact bind_ne_error (Violation.guard_ne_error (.inl hbase)) fun _ _ =>
      Violation.guard_ne_error (.inl hquote)
  refine bind_ne_error hinvariant fun _ _ => ?_
  refine bind_ne_error (quoteShift_ne_error he) fun shift hshift => ?_
  have hless := quoteShift_lt hshift hquote hspread hlt
  cases direction with
  | long =>
    refine bind_ne_error (Fixed.ofChecked_ne_error (Int128.check_ne_error he)) fun _ _ => ?_
    refine bind_ne_error (Fixed.ofChecked_ne_error ?_) fun _ _ => ok_ne_error
    exact Int128.divideShifted_ne_error he
  | short =>
    refine bind_ne_error (Fixed.ofChecked_ne_error (Int128.check_ne_error he)) fun quote hsub => ?_
    have hleft : 0 < quote.raw := by
      have hrest := Fixed.sub_eq_ok.mp hsub
      omega
    refine bind_ne_error (Violation.guard_ne_error (.inl hleft)) fun _ _ => ?_
    refine bind_ne_error (Fixed.ofChecked_ne_error ?_) fun _ _ => ok_ne_error
    exact Int128.divideShifted_ne_error he

/-- **Spreads fill the cap and no more.** The two spreads are not negative and come to the widened
total or to the cap, whichever is less. If the cap is below twice the price, the pool that takes
them on has reserves to quote either direction from. -/
theorem spreads_fill_cap (hpeg : 0 < a.peg.raw) (hspread : 0 ≤ a.baseSpread.raw)
    (hmax : 0 ≤ a.maxSpread.raw) (h : a.spreads oracle = .ok s) :
    0 ≤ s.long.raw ∧ 0 ≤ s.short.raw ∧
      s.long.raw + s.short.raw = min (a.widenedTotal oracle) a.maxSpread.raw ∧
      ∃ a', a.updateSpreads oracle = .ok a' ∧ (a.maxSpread.raw < 2 * 10 ^ 6 →
        ∀ direction side, a'.spreadReserves direction ≠ .error (.reserveNotPositive side)) := by
  obtain ⟨hpos, hsum⟩ := spreads_spec h hpeg hspread hmax
  have hlong : 0 ≤ s.long.raw := hpos .long
  have hshort : 0 ≤ s.short.raw := hpos .short
  obtain ⟨widened, hwidened, -⟩ := bind_eq_ok.mp h
  obtain ⟨-, hbase, hquote⟩ := pos_of_widenedSpreads hwidened
  refine ⟨hlong, hshort, hsum, { a with longSpread := s.long, shortSpread := s.short },
    by rw [updateSpreads, h]; rfl, fun hcap direction side => ?_⟩
  refine spreadReserves_ne_notPositive hbase hquote ?_ ?_ <;>
    cases direction <;> simp only [spreadOf] <;> omega

/-- A pool that quotes above the market, to users who are net short. -/
def overpriced : Amm :=
  { balanced (.ofInt 810000000000000) (.ofRaw 3300000) with
    netBase := .ofRaw (-40500000000000)
    baseSpread := .ofRaw 620
    maxSpread := .ofRaw 90000 }

theorem spreads_fill_cap_overpriced : ∃ s a', overpriced.spreads (.ofRaw 2700000) = .ok s ∧
    overpriced.updateSpreads (.ofRaw 2700000) = .ok a' ∧
    overpriced.maxSpread.raw < overpriced.widenedTotal (.ofRaw 2700000) ∧
    0 ≤ s.long.raw ∧ 0 ≤ s.short.raw ∧ s.long.raw + s.short.raw = overpriced.maxSpread.raw ∧
    a'.spreadReserves .short ≠ .error (.reserveNotPositive .quote) := by
  obtain ⟨s, hs, -⟩ : ∃ s, overpriced.spreads (.ofRaw 2700000) = .ok s ∧ 0 < s.long.raw := by
    decide +kernel
  have habove : overpriced.maxSpread.raw < overpriced.widenedTotal (.ofRaw 2700000) := by decide
  obtain ⟨hlong, hshort, hsum, a', ha', hquoted⟩ :=
    spreads_fill_cap (by decide) (by decide) (by decide) hs
  rw [min_eq_right habove.le] at hsum
  exact ⟨s, a', hs, ha', habove, hlong, hshort, hsum, hquoted (by decide) .short .quote⟩

end Amm

end PerpExchange
