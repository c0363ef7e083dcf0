import PerpExchange.Position.Perp
import PerpExchange.Proofs.Number.Fixed

/-!
What a fill does to a position, and what a changed position does to the books of its pool.

The base and the cash flows of a position take on exactly what the fill moved. The books give up
what the position held before and take on what it holds after, each on the side that it is booked.
The pnl of a position is its signed notional at the oracle price, in whole quote units, plus all
cash flows.
-/

namespace PerpExchange

lemma averagePrice_eq_ok {quote : QuoteAmount} {base : BaseAmount} {price : Price}
    (h : averagePrice quote base = .ok price) (hbase : 0 < base.raw) :
    price.raw = |quote.raw| * 10 ^ 9 / base.raw := by
  simp only [averagePrice, bind_eq_ok, Fixed.abs_eq_ok,
    Fixed.divTo_eq_ok (p := .quote) (q := .base) (r := .price) (n := 9) rfl (by norm_num)] at h
  obtain ⟨paid, hpaid, size, hsize, -, -, h⟩ := h
  have hquote : paid.raw = |quote.raw| := by rw [hpaid, Int.abs_eq_natAbs]
  have hpos : size.raw = base.raw := by rw [hsize]; exact Int.natAbs_of_nonneg hbase.le
  rw [h, hquote, hpos, Int.tdiv_eq_ediv_of_nonneg (mul_nonneg (abs_nonneg _) (by norm_num))]

lemma Direction.abs_sign_mul (direction : Direction) (x : ℤ) : |direction.sign * x| = |x| := by
  cases direction <;> simp [Direction.sign]

lemma Direction.sign_sign_mul (direction : Direction) {x : ℤ} (hx : 0 < x) :
    (direction.sign * x).sign = direction.sign := by
  cases direction <;> simp [Direction.sign, Int.sign_eq_one_of_pos hx]

/-- The size of some base at a price, in whole quote units. -/
def notional (base price : ℤ) : ℤ := |base| * price / 10 ^ 9

@[simp] lemma notional_zero (price : ℤ) : notional 0 price = 0 := by simp [notional]

lemma notional_nonneg (base : ℤ) {price : ℤ} (hprice : 0 ≤ price) : 0 ≤ notional base price :=
  Int.ediv_nonneg (mul_nonneg (abs_nonneg _) hprice) (by norm_num)

lemma notional_mono {base base' price : ℤ} (hprice : 0 ≤ price) (h : |base| ≤ |base'|) :
    notional base price ≤ notional base' price :=
  Int.ediv_le_ediv (by norm_num) (mul_le_mul_of_nonneg_right h hprice)

lemma notional_sign_mul (direction : Direction) (size price : ℤ) :
    notional (direction.sign * size) price = notional size price := by
  rw [notional, Direction.abs_sign_mul, notional]

lemma notional_bounds (base price : ℤ) :
    notional base price * 10 ^ 9 ≤ |base| * price ∧
      |base| * price < notional base price * 10 ^ 9 + 10 ^ 9 := by
  have hle := Int.ediv_mul_le (|base| * price) (show (10 ^ 9 : ℤ) ≠ 0 by norm_num)
  have hlt := Int.lt_ediv_add_one_mul_self (|base| * price) (show (0 : ℤ) < 10 ^ 9 by norm_num)
  exact ⟨hle, by rw [notional]; linarith⟩

lemma raw_baseValue {base : BaseAmount} {price : Price} {value : QuoteAmount}
    (h : baseValue base price = .ok value) (hprice : 0 ≤ price.raw) :
    value.raw = notional base.raw price.raw := by
  simp only [baseValue, bind_eq_ok, Fixed.abs_eq_ok, Fixed.mul_eq_ok,
    Product.rescale_eq_ok (p := .base) (q := .price) (r := .quote) (n := 9) rfl (by norm_num)] at h
  obtain ⟨size, hsize, product, hproduct, h⟩ := h
  have hsize' : size.raw = |base.raw| := by rw [hsize, Int.abs_eq_natAbs]
  rw [h, hproduct, hsize', Int.tdiv_eq_ediv_of_nonneg (mul_nonneg (abs_nonneg _) hprice), notional]

/-- The value of base does not depend on its sign. -/
lemma baseValue_of_abs_eq {base base' : BaseAmount} (h : |base.raw| = |base'.raw|)
    (price : Price) : baseValue base price = baseValue base' price := by
  have hsize : base.raw.natAbs = base'.raw.natAbs := by
    rwa [← Int.natCast_inj, ← Int.abs_eq_natAbs, ← Int.abs_eq_natAbs]
  rw [baseValue, baseValue, Fixed.abs, Fixed.abs, hsize]

namespace PerpPosition

variable {p : PerpPosition} {delta : PositionDelta} {u : PositionUpdate} {oracle : Price}
  {pnl pnl' quote : QuoteAmount}

lemma apply_eq_ok (h : p.apply delta = .ok u) :
    u.position.base.raw = p.base.raw + delta.base.raw ∧
      u.position.quote.raw = p.quote.raw + delta.quote.raw := by
  simp only [apply, bind_eq_ok, Fixed.add_eq_ok, pure_eq_ok] at h
  obtain ⟨⟨entry, realized⟩, -, base, hbase, quote, hquote, rfl⟩ := h
  exact ⟨hbase, hquote⟩

lemma market_of_apply (h : p.apply delta = .ok u) : u.position.market = p.market := by
  simp only [apply, bind_eq_ok, pure_eq_ok] at h
  obtain ⟨_, -, _, -, _, -, rfl⟩ := h
  rfl

lemma entry_of_open {i : MarketIndex} (h : (new i).apply delta = .ok u)
    (hbase : delta.base.raw ≠ 0) :
    u.position.base.raw = delta.base.raw ∧ u.position.entry.raw = delta.quote.raw := by
  have hnew : (new i).changeBy delta = .open := rfl
  simp only [apply, settle, hnew, bind_eq_ok, Fixed.add_eq_ok, pure_eq_ok] at h
  obtain ⟨_, ⟨entry, hentry, rfl⟩, base, hb, quote, -, rfl⟩ := h
  have hbase' : base.raw = delta.base.raw := by rw [hb]; exact zero_add _
  refine ⟨hbase', ?_⟩
  rw [if_neg (by rw [hbase']; exact hbase), hentry]
  exact zero_add _

lemma realizedPnl_of_close (h : p.apply delta = .ok u) (hopen : p.base.raw ≠ 0)
    (hclose : delta.base.raw = -p.base.raw) :
    u.realizedPnl.raw = delta.quote.raw + p.entry.raw := by
  obtain ⟨hsize, hsize'⟩ := Int128.wrappingAbs_of_add_eq_zero
    (m := p.base.toInt128) (n := delta.base.toInt128) (by omega)
  have hsign : p.base.raw.sign ≠ delta.base.raw.sign := by
    have := Int.sign_eq_zero_iff_zero.not.mpr hopen
    rw [hclose, Int.sign_neg]
    omega
  have hchange : p.changeBy delta = .close := by
    rw [changeBy, if_neg hopen, if_neg hsign, if_neg (by omega), if_pos (by omega)]
  simp only [apply, settle, hchange, bind_eq_ok, Fixed.mulInt_eq_ok, Fixed.divInt_eq_ok,
    Fixed.sub_eq_ok, Fixed.add_eq_ok, pure_eq_ok] at h
  obtain ⟨_, ⟨share, hshare, closed, ⟨hn, hclosed⟩, _, -, realized, hrealized, rfl⟩, _, -, _, -,
    rfl⟩ := h
  rw [hrealized, hclosed, hshare, hsize, hsize', Int.mul_tdiv_cancel _ (by omega)]

/-- The signed notional at the oracle price plus all cash flows. -/
def exactPnl (p : PerpPosition) (oracle : Price) : ℤ :=
  p.base.raw.sign * notional p.base.raw oracle.raw + p.quote.raw

lemma unrealizedPnl_eq_ok :
    p.unrealizedPnl oracle = .ok pnl ↔ ∃ value signed : QuoteAmount,
      baseValue p.base oracle = .ok value ∧
      signed.raw = (if p.base.raw < 0 then -value.raw else value.raw) ∧
      pnl.raw = signed.raw + p.quote.raw := by
  simp only [unrealizedPnl, bind_eq_ok]
  refine exists_congr fun value => ?_
  by_cases hshort : p.base.raw < 0
  · simp only [hshort, if_true, bind_eq_ok, Fixed.neg_eq_ok, Fixed.add_eq_ok]
    constructor
    · rintro ⟨hvalue, signed, h⟩
      exact ⟨signed, hvalue, h⟩
    · rintro ⟨signed, hvalue, h⟩
      exact ⟨hvalue, signed, h⟩
  · simp only [hshort, if_false, bind_eq_ok, pure_eq_ok, Fixed.add_eq_ok]
    constructor
    · rintro ⟨hvalue, signed, rfl, h⟩
      exact ⟨value, hvalue, rfl, h⟩
    · rintro ⟨signed, hvalue, hsigned, h⟩
      exact ⟨hvalue, value, rfl, by rw [h, hsigned]⟩

lemma raw_unrealizedPnl (h : p.unrealizedPnl oracle = .ok pnl) (hprice : 0 ≤ oracle.raw) :
    pnl.raw = p.exactPnl oracle := by
  obtain ⟨value, signed, hvalue, hsigned, h⟩ := unrealizedPnl_eq_ok.mp h
  rw [raw_baseValue hvalue hprice] at hsigned
  rw [h, hsigned, exactPnl]
  split_ifs with hshort
  · rw [Int.sign_eq_neg_one_of_neg hshort, neg_one_mul]
  · rcases (not_lt.mp hshort).eq_or_lt with hflat | hlong
    · rw [← hflat, notional_zero, mul_zero]
    · rw [Int.sign_eq_one_of_pos hlong, one_mul]

/-- Cash that flows into a position raises its pnl by as much. -/
lemma unrealizedPnl_withQuote (h : p.unrealizedPnl oracle = .ok pnl)
    (hpnl : pnl'.raw = pnl.raw + (quote.raw - p.quote.raw)) :
    { p with quote }.unrealizedPnl oracle = .ok pnl' := by
  obtain ⟨value, signed, hvalue, hsigned, h⟩ := unrealizedPnl_eq_ok.mp h
  exact unrealizedPnl_eq_ok.mpr ⟨value, signed, hvalue, hsigned, by dsimp only; omega⟩

lemma base_of_direction {direction : Direction} (h : p.direction = some direction) :
    p.base.raw = direction.sign * |p.base.raw| ∧ 0 < |p.base.raw| := by
  unfold PerpPosition.direction at h
  split_ifs at h with hlong hshort
  · cases h
    rw [abs_of_pos hlong, Direction.sign, one_mul]
    exact ⟨rfl, hlong⟩
  · cases h
    rw [abs_of_neg hshort, Direction.sign, neg_one_mul, neg_neg]
    exact ⟨rfl, neg_pos.mpr hshort⟩

/-- The notional of a position of known size counts on the side of its direction. -/
lemma exactPnl_eq {direction : Direction} {size : ℤ} (hsize : 0 ≤ size)
    (hbase : p.base.raw = direction.sign * size) :
    p.exactPnl oracle = direction.sign * notional size oracle.raw + p.quote.raw := by
  rw [exactPnl, hbase, notional_sign_mul]
  rcases hsize.eq_or_lt with hzero | hpos
  · simp [← hzero]
  · rw [Direction.sign_sign_mul direction hpos]

lemma isAvailable_iff : p.isAvailable = true ↔ p.base.raw = 0 ∧ p.quote.raw = 0 := by
  simp [isAvailable, isOpen]

lemma exactPnl_of_available (h : p.isAvailable = true) : p.exactPnl oracle = 0 := by
  obtain ⟨hbase, hquote⟩ := isAvailable_iff.mp h
  simp [exactPnl, hbase, hquote]

/-- What the position adds to the quote of users who are long or flat. -/
def longQuote (p : PerpPosition) : ℤ := if 0 ≤ p.base.raw then p.quote.raw else 0

def shortQuote (p : PerpPosition) : ℤ := if p.base.raw < 0 then p.quote.raw else 0

lemma longQuote_of_booked_long (h : p.isBookedLong = true) :
    p.longQuote = p.quote.raw ∧ p.shortQuote = 0 := by
  have hp : 0 ≤ p.base.raw := by simpa [isBookedLong] using h
  exact ⟨if_pos hp, if_neg (by omega)⟩

lemma shortQuote_of_booked_short (h : ¬p.isBookedLong = true) :
    p.longQuote = 0 ∧ p.shortQuote = p.quote.raw := by
  have hp : p.base.raw < 0 := by simpa [isBookedLong] using h
  exact ⟨if_neg (by omega), if_pos hp⟩

end PerpPosition

namespace Amm

variable {a b : Amm} {p before after : PerpPosition}

lemma withoutQuote_eq_ok (h : a.withoutQuote p = .ok b) :
    ∃ quoteLong quoteShort, b = { a with quoteLong, quoteShort } ∧
      quoteLong.raw = a.quoteLong.raw - p.longQuote ∧
      quoteShort.raw = a.quoteShort.raw - p.shortQuote := by
  unfold withoutQuote at h
  split_ifs at h with hside
  · simp only [bind_eq_ok, Fixed.sub_eq_ok, pure_eq_ok] at h
    obtain ⟨quoteLong, hquote, rfl⟩ := h
    obtain ⟨hl, hs⟩ := PerpPosition.longQuote_of_booked_long hside
    exact ⟨quoteLong, a.quoteShort, rfl, by rw [hl]; exact hquote, by rw [hs]; ring⟩
  · simp only [bind_eq_ok, Fixed.sub_eq_ok, pure_eq_ok] at h
    obtain ⟨quoteShort, hquote, rfl⟩ := h
    obtain ⟨hl, hs⟩ := PerpPosition.shortQuote_of_booked_short hside
    exact ⟨a.quoteLong, quoteShort, rfl, by rw [hl]; ring, by rw [hs]; exact hquote⟩

lemma withQuote_eq_ok (h : a.withQuote p = .ok b) :
    ∃ quoteLong quoteShort, b = { a with quoteLong, quoteShort } ∧
      quoteLong.raw = a.quoteLong.raw + p.longQuote ∧
      quoteShort.raw = a.quoteShort.raw + p.shortQuote := by
  unfold withQuote at h
  split_ifs at h with hside
  · simp only [bind_eq_ok, Fixed.add_eq_ok, pure_eq_ok] at h
    obtain ⟨quoteLong, hquote, rfl⟩ := h
    obtain ⟨hl, hs⟩ := PerpPosition.longQuote_of_booked_long hside
    exact ⟨quoteLong, a.quoteShort, rfl, by rw [hl]; exact hquote, by rw [hs]; ring⟩
  · simp only [bind_eq_ok, Fixed.add_eq_ok, pure_eq_ok] at h
    obtain ⟨quoteShort, hquote, rfl⟩ := h
    obtain ⟨hl, hs⟩ := PerpPosition.shortQuote_of_booked_short hside
    exact ⟨a.quoteLong, quoteShort, rfl, by rw [hl]; ring, by rw [hs]; exact hquote⟩

/-- **The books follow a position**: what it held before goes out, what it holds after comes in,
and nothing else of the pool changes. -/
theorem rebook_eq_ok (h : a.rebook before after = .ok b) :
    ∃ netBase quoteLong quoteShort, b = { a with netBase, quoteLong, quoteShort } ∧
      netBase.raw = a.netBase.raw + (after.base.raw - before.base.raw) ∧
      quoteLong.raw = a.quoteLong.raw - before.longQuote + after.longQuote ∧
      quoteShort.raw = a.quoteShort.raw - before.shortQuote + after.shortQuote := by
  simp only [rebook, bind_eq_ok, Fixed.sub_eq_ok, Fixed.add_eq_ok] at h
  obtain ⟨change, hchange, netBase, hnet, removed, hremoved, h⟩ := h
  obtain ⟨long₁, short₁, rfl, hlong₁, hshort₁⟩ := withoutQuote_eq_ok hremoved
  obtain ⟨long₂, short₂, rfl, hlong₂, hshort₂⟩ := withQuote_eq_ok h
  refine ⟨netBase, long₂, short₂, rfl, by rw [hnet, hchange], ?_, ?_⟩
  · rw [hlong₂, hlong₁]
  · rw [hshort₂, hshort₁]

end Amm

end PerpExchange
