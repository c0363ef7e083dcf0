import PerpExchange.Proofs.Position.Perp
import PerpExchange.Proofs.Trade.Fill

/-!
Limits, against the average price that an order which has one is filled at.

The size that a limit leaves keeps the exact value of the trade within the limit: the root is
rounded down, which helps a long, and for a short the reserve cannot go past it. What is booked is
that value in whole quote units, with one more for a long, so the average price can pass the limit
by less than a quote unit over the size.
-/

namespace PerpExchange

namespace Amm.FloorAt

variable {a : Amm} {limit : Price} {base : ℤ} {amount : BaseAmount} {s : Swap}

/-- A long up to the floor moves less than its size is worth at the limit. The floor can lie below
the exact base reserve by almost one, which takes a size of three to make up for. -/
lemma moved_lt (hf : a.FloorAt limit base) (h : a.Swapped amount .remove s)
    (hlimit : 0 < limit.raw) (hamount : amount.raw ≤ a.baseReserve.raw - base)
    (hsize : 3 ≤ amount.raw) : |a.moved .remove s| < limit.raw * amount.raw := by
  obtain ⟨hcurve, -⟩ := h.invariant_bounds
  have hnew := h.newBase
  have hpos := h.newBase_pos
  have hworth : 0 < limit.raw * amount.raw := mul_pos hlimit h.amount_pos
  simp only [h.abs_moved, SwapDirection.sign] at hnew ⊢
  obtain ⟨d, hd⟩ : ∃ d, d = s.reserves.quote.raw - a.quoteReserve.raw := ⟨_, rfl⟩
  obtain ⟨c, hc⟩ : ∃ c, c = s.reserves.base.raw := ⟨_, rfl⟩
  have hbase : a.baseReserve.raw = c + amount.raw := by omega
  have hmove : d * c ≤ a.quoteReserve.raw * amount.raw := by
    rw [← hc, show s.reserves.quote.raw = a.quoteReserve.raw + d by omega, hbase] at hcurve
    linarith
  rw [show -1 * (a.quoteReserve.raw - s.reserves.quote.raw) = d by omega]
  by_contra hover
  have hcb : 0 < c * a.baseReserve.raw := mul_pos (by omega) h.base_pos
  have hlt : limit.raw * amount.raw * (c * a.baseReserve.raw)
      < limit.raw * amount.raw * ((c + 1) * (c + 1)) := by
    calc limit.raw * amount.raw * (c * a.baseReserve.raw)
        ≤ d * |a.peg.raw| * (c * a.baseReserve.raw) :=
          mul_le_mul_of_nonneg_right (not_lt.mp hover) hcb.le
      _ = d * c * (a.baseReserve.raw * |a.peg.raw|) := by ring
      _ ≤ a.quoteReserve.raw * amount.raw * (a.baseReserve.raw * |a.peg.raw|) :=
          mul_le_mul_of_nonneg_right hmove (mul_nonneg h.base_pos.le (abs_nonneg _))
      _ = amount.raw * (a.baseReserve.raw * a.quoteReserve.raw * |a.peg.raw|) := by ring
      _ < amount.raw * ((base + 1) * (base + 1) * limit.raw) :=
          mul_lt_mul_of_pos_left hf.lt_square h.amount_pos
      _ = limit.raw * amount.raw * ((base + 1) * (base + 1)) := by ring
      _ ≤ limit.raw * amount.raw * ((c + 1) * (c + 1)) := by
          have hfloor := hf.base_nonneg
          refine mul_le_mul_of_nonneg_left ?_ hworth.le
          exact mul_self_le_mul_self (by omega) (by omega)
  have hroot : c * a.baseReserve.raw < (c + 1) * (c + 1) := lt_of_mul_lt_mul_left hlt hworth.le
  have hfar : c * (c + 3) ≤ c * a.baseReserve.raw :=
    mul_le_mul_of_nonneg_left (by omega) (by omega)
  linarith

/-- A short up to the floor moves at least what its size is worth at the limit. -/
lemma le_moved (hf : a.FloorAt limit base) (h : a.Swapped amount .add s)
    (hlimit : 0 < limit.raw) (hamount : amount.raw ≤ base - a.baseReserve.raw) :
    limit.raw * amount.raw ≤ |a.moved .add s| := by
  obtain ⟨hcurve, -⟩ := h.invariant_bounds
  have hnew := h.newBase
  have hpos := h.newBase_pos
  have hworth : 0 < limit.raw * amount.raw := mul_pos hlimit h.amount_pos
  simp only [h.abs_moved, SwapDirection.sign] at hnew ⊢
  obtain ⟨d, hd⟩ : ∃ d, d = a.quoteReserve.raw - s.reserves.quote.raw := ⟨_, rfl⟩
  obtain ⟨c, hc⟩ : ∃ c, c = s.reserves.base.raw := ⟨_, rfl⟩
  have hbase : c = a.baseReserve.raw + amount.raw := by omega
  have hmove : a.quoteReserve.raw * amount.raw ≤ d * c := by
    rw [← hc, show s.reserves.quote.raw = a.quoteReserve.raw - d by omega, hbase] at hcurve
    rw [hbase]
    linarith
  rw [show 1 * (a.quoteReserve.raw - s.reserves.quote.raw) = d by omega]
  have hcb : 0 < c * a.baseReserve.raw := mul_pos (by omega) h.base_pos
  have hle : limit.raw * amount.raw * (c * a.baseReserve.raw)
      ≤ d * |a.peg.raw| * (c * a.baseReserve.raw) := by
    calc limit.raw * amount.raw * (c * a.baseReserve.raw)
        ≤ limit.raw * amount.raw * (base * base) := by
          refine mul_le_mul_of_nonneg_left ?_ hworth.le
          exact mul_le_mul (by omega) (by have := h.amount_pos; omega) h.base_pos.le
            hf.base_nonneg
      _ = amount.raw * (base * base * limit.raw) := by ring
      _ ≤ amount.raw * (a.baseReserve.raw * a.quoteReserve.raw * |a.peg.raw|) :=
          mul_le_mul_of_nonneg_left hf.square_le h.amount_pos.le
      _ = a.quoteReserve.raw * amount.raw * (a.baseReserve.raw * |a.peg.raw|) := by ring
      _ ≤ d * c * (a.baseReserve.raw * |a.peg.raw|) :=
          mul_le_mul_of_nonneg_right hmove (mul_nonneg h.base_pos.le (abs_nonneg _))
      _ = d * |a.peg.raw| * (c * a.baseReserve.raw) := by ring
  exact le_of_mul_le_mul_right hle hcb

end Amm.FloorAt

/-! ### The booked quote and the average price -/

/-- How a long that moved `value`, in parts of a quote unit, on the reserves that quote it stands to
its limit: the value keeps to it, and the price does as far as whole quote units allow. -/
structure LongAtLimit (f : Fill) (limit : Price) (value : ℤ) : Prop where
  within_iff : f.averagePrice ≤ limit ↔
    |value.tdiv (10 ^ 9) + 1| * 10 ^ 9 < (limit.raw + 1) * f.size.raw
  value_lt : 3 ≤ f.size.raw → |value| < limit.raw * f.size.raw
  excess_lt : 3 ≤ f.size.raw →
    f.averagePrice.raw * f.size.raw < limit.raw * f.size.raw + 10 ^ 9
  within_of_dvd : 3 ≤ f.size.raw → (10 ^ 9 : ℤ) ∣ limit.raw * f.size.raw → f.averagePrice ≤ limit
  within_of_large : 10 ^ 9 ≤ f.size.raw → f.averagePrice ≤ limit

/-- How a short that moved `value`, in parts of a quote unit, on the reserves that quote it stands
to its limit. -/
structure ShortAtLimit (f : Fill) (limit : Price) (value : ℤ) : Prop where
  within_iff : limit ≤ f.averagePrice ↔
    limit.raw * f.size.raw ≤ |value.tdiv (10 ^ 9)| * 10 ^ 9
  le_value : limit.raw * f.size.raw ≤ |value|
  shortfall_lt :
    limit.raw * f.size.raw < f.averagePrice.raw * f.size.raw + f.size.raw + 10 ^ 9
  within_of_dvd : (10 ^ 9 : ℤ) ∣ limit.raw * f.size.raw → limit ≤ f.averagePrice

section Price

variable {f : Fill} {limit : Price} {value : ℤ}

lemma longAtLimit_of_quote (hsize : 0 < f.size.raw)
    (hquote : f.quote.raw = value.tdiv quoteUnit + 1)
    (hprice : f.averagePrice.raw = |f.quote.raw| * quoteUnit / f.size.raw)
    (hvalue : 3 ≤ f.size.raw → |value| < limit.raw * f.size.raw) : LongAtLimit f limit value := by
  have hiff : f.averagePrice ≤ limit ↔
      |value.tdiv quoteUnit + 1| * quoteUnit < (limit.raw + 1) * f.size.raw := by
    rw [Fixed.le_def, hprice, hquote, ← Int.lt_add_one_iff, Int.ediv_lt_iff_lt_mul hsize]
  -- the charge is added to the truncated value, whose sign is that of the peg
  have hbooked : |value.tdiv quoteUnit + 1| ≤ |value| / quoteUnit + 1 := by
    rw [← Rounding.abs_tdiv value quoteUnit_pos]
    exact (abs_add_le _ _).trans_eq (by rw [abs_one])
  have hpaid : |value.tdiv quoteUnit + 1| * quoteUnit ≤ |value| + quoteUnit := by
    have h₁ := mul_le_mul_of_nonneg_right hbooked quoteUnit_pos.le
    have h₂ := Int.ediv_mul_le |value| quoteUnit_pos.ne'
    linarith
  exact {
    within_iff := hiff
    value_lt := hvalue
    excess_lt := by
      intro hthree
      have hlt := hvalue hthree
      have hle := Int.ediv_mul_le (|f.quote.raw| * quoteUnit) hsize.ne'
      rw [← hprice, hquote] at hle
      exact (hle.trans hpaid).trans_lt (by rw [quoteUnit]; linarith)
    within_of_dvd := by
      rintro hthree ⟨units, hunits⟩
      have hlt := hvalue hthree
      have hfew : |value| / quoteUnit + 1 ≤ units := by
        have : |value| / quoteUnit < units := by
          rw [Int.ediv_lt_iff_lt_mul quoteUnit_pos, quoteUnit]
          linarith
        omega
      have hle := mul_le_mul_of_nonneg_right (hbooked.trans hfew) quoteUnit_pos.le
      rw [hiff]
      rw [quoteUnit] at hle ⊢
      linarith
    within_of_large := by
      intro hlarge
      have hlt := hvalue (by omega)
      rw [hiff]
      rw [quoteUnit] at hpaid ⊢
      linarith }

lemma shortAtLimit_of_quote (hsize : 0 < f.size.raw)
    (hquote : f.quote.raw = value.tdiv quoteUnit)
    (hprice : f.averagePrice.raw = |f.quote.raw| * quoteUnit / f.size.raw)
    (hvalue : limit.raw * f.size.raw ≤ |value|) : ShortAtLimit f limit value := by
  have hiff : limit ≤ f.averagePrice ↔
      limit.raw * f.size.raw ≤ |value.tdiv quoteUnit| * quoteUnit := by
    rw [Fixed.le_def, hprice, hquote, Int.le_ediv_iff_mul_le hsize]
  have hbooked := Rounding.abs_tdiv value quoteUnit_pos
  have hlost := Int.lt_ediv_add_one_mul_self |value| quoteUnit_pos
  exact {
    within_iff := hiff
    le_value := hvalue
    shortfall_lt := by
      have hlt := Int.lt_ediv_add_one_mul_self (|f.quote.raw| * quoteUnit) hsize
      rw [← hprice, hquote, hbooked] at hlt
      rw [quoteUnit] at hlt hlost
      linarith
    within_of_dvd := by
      rintro ⟨units, hunits⟩
      have hmany : units ≤ |value| / quoteUnit := by
        rw [Int.le_ediv_iff_mul_le quoteUnit_pos, quoteUnit]
        linarith
      have hle := mul_le_mul_of_nonneg_right hmany quoteUnit_pos.le
      rw [hiff, hbooked]
      rw [quoteUnit] at hle ⊢
      linarith }

end Price

namespace PerpMarket

variable {m : PerpMarket} {order : Order} {oracle : OracleReading} {f : Fill} {limit : Price}

lemma Filled.floorAt {amm : Amm} {r : Reserves} {quoted real : Swap}
    (h : m.Filled order oracle f amm r quoted real)
    (hlimit : order.price.limit? oracle.price = .ok (some limit)) :
    0 < limit.raw ∧ ∃ base, (amm.withReserves r).FloorAt limit base ∧
      f.size.raw ≤ order.direction.sign * (r.base.raw - base) := by
  obtain ⟨most, hmost, hsize⟩ := h.size
  obtain ⟨hpos, cap, hcap, hle⟩ := Order.sizeWithin_of_limit hmost hlimit
  obtain ⟨-, base, hbase, hroom⟩ := Amm.sizeToPrice_eq_ok hcap
  refine ⟨hpos, base.raw, Amm.floorAt_of_baseAtPrice hbase hpos, ?_⟩
  calc f.size.raw ≤ most.raw := standardize_le hsize h.size_pos
    _ ≤ cap.raw := hle
    _ = order.direction.sign * (r.base.raw - base.raw) := hroom

/-- **Where an order with a limit is filled.** On the reserves that quote it, the exact value of the
trade keeps to the limit. The average price of what is booked does exactly when that value, rounded
to quote units, still does; it passes the limit by less than one quote unit over the size, and not
at all if the size is worth whole quote units at the limit, or for a long of one base or more. -/
theorem fill_within_limit_iff (h : m.fill order oracle = .ok (.filled f))
    (hlimit : order.price.limit? oracle.price = .ok (some limit)) :
    ∃ amm r quoted, m.amm.repeg oracle = .ok amm ∧
      amm.spreadReserves order.direction = .ok r ∧
      (amm.withReserves r).swapBase f.size order.direction.swap = .ok quoted ∧
      f.quote = quoted.quote ∧
      match order.direction with
      | .long => LongAtLimit f limit ((amm.withReserves r).moved .remove quoted)
      | .short => ShortAtLimit f limit ((amm.withReserves r).moved .add quoted) := by
  obtain ⟨amm, r, quoted, real, hf⟩ := filled_of_fill h
  obtain ⟨hpos, base, hfloor, hroom⟩ := hf.floorAt hlimit
  have hprice := averagePrice_eq_ok hf.averagePrice hf.size_pos
  have hswapped := hf.quoted_swapped
  have hquote := hswapped.quote_eq
  rw [← hf.quote] at hquote
  refine ⟨amm, r, quoted, hf.repegged, hf.reserves, hf.quotedSwap, hf.quote, ?_⟩
  cases hdirection : order.direction with
  | long =>
    simp only [hdirection, Direction.sign, Direction.swap, SwapDirection.charge]
      at hswapped hquote hroom
    exact longAtLimit_of_quote hf.size_pos hquote hprice fun hsize =>
      hfloor.moved_lt hswapped hpos (by rw [Amm.baseReserve_withReserves]; omega) hsize
  | short =>
    simp only [hdirection, Direction.sign, Direction.swap, SwapDirection.charge, add_zero]
      at hswapped hquote hroom
    exact shortAtLimit_of_quote hf.size_pos hquote hprice
      (hfloor.le_moved hswapped hpos (by rw [Amm.baseReserve_withReserves]; omega))

theorem fill_within_limit_iff_one_base :
    ∃ f, (even Fixed.one).fill ⟨.long, Fixed.one, .limit (.ofRaw 1000100)⟩
        (.of Fixed.one) = .ok (.filled f) ∧
      10 ^ 9 ≤ f.size.raw ∧ f.averagePrice ≤ .ofRaw 1000100 := by
  obtain ⟨f, hfill, hsize⟩ :
      ∃ f, (even Fixed.one).fill ⟨.long, Fixed.one, .limit (.ofRaw 1000100)⟩
          (.of Fixed.one) = .ok (.filled f) ∧ 10 ^ 9 ≤ f.size.raw := by
    decide +kernel
  obtain ⟨amm, r, quoted, -, -, -, -, hlong⟩ := fill_within_limit_iff hfill rfl
  exact ⟨f, hfill, hsize, LongAtLimit.within_of_large hlong hsize⟩

/-- A long of a tenth of a base, with a limit one part in a million above the price of the pool. -/
def tight : Order := ⟨.long, .ofRaw 100000000, .limit (.ofRaw 1000001)⟩

theorem tight_passes_limit : tight.price = .limit (.ofRaw 1000001) ∧
    ∃ f, (even Fixed.one).fill tight (.of Fixed.one) = .ok (.filled f) ∧
      f.quote.raw = 100001 ∧ f.averagePrice.raw = 1000010 ∧ ¬f.averagePrice ≤ .ofRaw 1000001 := by
  decide +kernel

end PerpMarket

end PerpExchange
