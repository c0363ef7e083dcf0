import PerpExchange.Market.Prices
import PerpExchange.Proofs.Amm.Quoting
import PerpExchange.Proofs.Amm.Repeg

/-!
The order of the prices of a market.

Takers are quoted from behind the repegged pool, so the ratio of the reserves that quote them is on
the far side of the pool's own, and the truncated prices are in the same order.
-/

namespace PerpExchange

namespace Amm

variable {a : Amm} {direction : Direction} {r : Reserves} {quoted price : Price}

lemma Behind.price_le (hr : a.Behind direction r) (hquoted : r.price a.peg = .ok quoted)
    (hprice : a.price = .ok price) (hpeg : 0 ≤ a.peg.raw) :
    0 ≤ direction.sign * (quoted.raw - price.raw) := by
  obtain ⟨⟨hrb, hrq⟩, -⟩ := Reserves.price_eq_ok hquoted
  obtain ⟨⟨hb, hq⟩, -⟩ := Reserves.price_eq_ok hprice
  have hbase := hr.base
  have hquote := hr.quote
  cases direction with
  | long =>
    simp only [Direction.sign, one_mul] at hbase hquote ⊢
    have hratio : a.quoteReserve.raw * r.base.raw ≤ r.quote.raw * a.baseReserve.raw :=
      mul_le_mul (by omega) (by omega) hrb.le hrq.le
    have := Reserves.price_le hprice hquoted hpeg hratio
    omega
  | short =>
    simp only [Direction.sign, neg_one_mul] at hbase hquote ⊢
    have hratio : r.quote.raw * a.baseReserve.raw ≤ a.quoteReserve.raw * r.base.raw :=
      mul_le_mul (by omega) (by omega) hb.le hq.le
    have := Reserves.price_le hquoted hprice hpeg hratio
    omega

end Amm

namespace PerpMarket

variable {m : PerpMarket} {oracle : OracleReading} {direction : Direction}
  {quoted bid mark ask : Price}

lemma markPrice_le_quotedPrice (hquoted : m.quotedPrice oracle direction = .ok quoted)
    (hmark : m.markPrice oracle = .ok mark) (hpeg : 1 ≤ m.amm.peg.raw)
    (hspread : 0 ≤ (m.amm.spreadOf direction).raw) :
    0 ≤ direction.sign * (quoted.raw - mark.raw) := by
  simp only [quotedPrice, markPrice, bind_eq_ok] at hquoted hmark
  obtain ⟨amm, hamm, r, hr, hquoted⟩ := hquoted
  obtain ⟨_, hamm', hmark⟩ := hmark
  cases hamm.symm.trans hamm'
  have hpeg' := Amm.one_le_peg_of_repeg hpeg hamm
  have hspread' : 0 ≤ (amm.spreadOf direction).raw := by
    obtain ⟨_, _, _, rfl⟩ := Amm.repeg_frame hamm
    cases direction <;> exact hspread
  exact (Amm.behind_of_spreadReserves hr hspread').price_le hquoted hmark (by omega)

/-- **The bid is at most the mark, and the mark at most the ask**, against every oracle reading and
whatever the repeg does, as long as no spread is negative. -/
theorem bid_mark_ask_ordered (hpeg : 1 ≤ m.amm.peg.raw) (hlong : 0 ≤ m.amm.longSpread.raw)
    (hshort : 0 ≤ m.amm.shortSpread.raw) (hbid : m.bidPrice oracle = .ok bid)
    (hmark : m.markPrice oracle = .ok mark) (hask : m.askPrice oracle = .ok ask) :
    bid ≤ mark ∧ mark ≤ ask := by
  have hbelow := markPrice_le_quotedPrice hbid hmark hpeg hshort
  have habove := markPrice_le_quotedPrice hask hmark hpeg hlong
  simp only [Direction.sign, one_mul, neg_one_mul] at hbelow habove
  exact ⟨by rw [Fixed.le_def]; omega, by rw [Fixed.le_def]; omega⟩

/-- An odd pool whose spreads are a few parts in a million and whose budget stops its repeg. -/
def skewed : PerpMarket :=
  new ⟨0⟩ { Amm.balanced (.ofInt 1000003000007) (.ofRaw 1234567) with
    quoteReserve := .ofRaw 2000000000039
    netBase := .ofRaw 70000000000
    longSpread := .ofRaw 7
    shortSpread := .ofRaw 5
    repegIntensity := 60
    budget := .ofRaw 1600 }

theorem bid_mark_ask_ordered_skewed : ∃ bid mark ask : Price,
    (skewed.bidPrice (.of (.ofRaw 2600000)) = .ok bid ∧
      skewed.markPrice (.of (.ofRaw 2600000)) = .ok mark ∧
      skewed.askPrice (.of (.ofRaw 2600000)) = .ok ask) ∧
    bid ≤ mark ∧ mark ≤ ask := by
  obtain ⟨bid, hbid⟩ : ∃ bid, skewed.bidPrice (.of (.ofRaw 2600000)) = .ok bid := ⟨_, rfl⟩
  obtain ⟨mark, hmark⟩ : ∃ mark, skewed.markPrice (.of (.ofRaw 2600000)) = .ok mark := ⟨_, rfl⟩
  obtain ⟨ask, hask⟩ : ∃ ask, skewed.askPrice (.of (.ofRaw 2600000)) = .ok ask := ⟨_, rfl⟩
  exact ⟨bid, mark, ask, ⟨hbid, hmark, hask⟩,
    bid_mark_ask_ordered (by decide) (by decide) (by decide) hbid hmark hask⟩

end PerpMarket

end PerpExchange
