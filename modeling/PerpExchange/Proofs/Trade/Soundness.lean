import PerpExchange.Proofs.Trade.Run

/-!
What every fill keeps to, and what a market keeps through every run of orders.

The repeg keeps the peg positive and the budget out of debt, and the swap keeps both reserves
positive, so a sound pool stays sound whatever arrives. Each fill stays on the curve from below,
trades whole steps of no more than the order, and moves the price of the repegged pool against the
taker.
-/

namespace PerpExchange

/-- A pool that can trade and is not in debt. -/
structure Amm.Sound (a : Amm) : Prop where
  base_pos : 0 < a.baseReserve.raw
  quote_pos : 0 < a.quoteReserve.raw
  peg_pos : 1 ≤ a.peg.raw
  step_pos : 0 < a.stepSize.raw
  budget_nonneg : 0 ≤ a.budget.raw

lemma Amm.Sound.repeg {a b : Amm} {oracle : OracleReading} (ha : a.Sound)
    (h : a.repeg oracle = .ok b) : b.Sound := by
  rcases repegged_or_eq ha.peg_pos h with ⟨optimal, steps, cost, hb⟩ | rfl
  · have hpeg := hb.peg_pos ha.peg_pos
    have hbudget := hb.budget_nonneg ha.budget_nonneg
    rw [hb.frame]
    exact {
      base_pos := ha.base_pos
      quote_pos := ha.quote_pos
      peg_pos := hpeg
      step_pos := ha.step_pos
      budget_nonneg := hbudget }
  · exact ha

/-- What a fill keeps to, from the market before it to the market that it leaves. -/
structure Execution.Sound (e : Execution) : Prop where
  /-- The invariant falls by less than one unit of quote reserve over the new base reserve. -/
  invariant : ∃ k k', e.before.amm.invariant = .ok k ∧ e.fill.market.amm.invariant = .ok k' ∧
    k'.raw ≤ k.raw ∧ k.raw - k'.raw < e.fill.market.amm.baseReserve.raw
  size : ∃ n : ℕ, 0 < n ∧ e.fill.size.raw = n * e.before.amm.stepSize.raw
  size_le : e.fill.size.raw ≤ e.arrival.order.size.raw
  /-- The exact price of the repegged pool, and the price in whole units where it has one, do not
  fall for a long and do not rise for a short. -/
  price : ∃ amm, e.before.amm.repeg e.arrival.oracle = .ok amm ∧
    e.fill.market.amm.peg = amm.peg ∧
    0 ≤ e.arrival.order.direction.sign *
      (e.fill.market.amm.quoteReserve.raw * amm.baseReserve.raw
        - amm.quoteReserve.raw * e.fill.market.amm.baseReserve.raw) ∧
    ∀ before after, amm.price = .ok before → e.fill.market.amm.price = .ok after →
      0 ≤ e.arrival.order.direction.sign * (after.raw - before.raw)
  frame : ∃ baseReserve quoteReserve peg budget lastOraclePrice,
    e.fill.market = e.before.withAmm
      { e.before.amm with baseReserve, quoteReserve, peg, budget, lastOraclePrice }

namespace PerpMarket

variable {m : PerpMarket} {f : Fill} {arrival : Arrival}

namespace Filled

variable {amm : Amm} {r : Reserves} {quoted real : Swap}

lemma sound (h : m.Filled arrival.order arrival.oracle f amm r quoted real) (hm : m.amm.Sound) :
    f.market.amm.Sound := by
  have hamm := hm.repeg h.repegged
  obtain ⟨budget, hbudget, hpool⟩ := h.amm_eq
  rw [hpool]
  exact {
    base_pos := h.real_swapped.newBase_pos
    quote_pos := h.real_swapped.newQuote_pos
    peg_pos := hamm.peg_pos
    step_pos := hamm.step_pos
    budget_nonneg := hbudget ▸ add_nonneg hamm.budget_nonneg h.surplus_nonneg }

lemma invariant_le (h : m.Filled arrival.order arrival.oracle f amm r quoted real) :
    ∃ k k', m.amm.invariant = .ok k ∧ f.market.amm.invariant = .ok k' ∧
      k'.raw ≤ k.raw ∧ k.raw - k'.raw < f.market.amm.baseReserve.raw := by
  obtain ⟨_, _, _, rfl⟩ := Amm.repeg_frame h.repegged
  obtain ⟨k, hk⟩ := Amm.invariant_of_swapBase h.realSwap
  obtain ⟨budget, -, hpool⟩ := h.amm_eq
  obtain ⟨hle, hlt⟩ := h.real_swapped.invariant_bounds
  have hnew := mul_pos h.real_swapped.newBase_pos h.real_swapped.newQuote_pos
  have hraw := (Amm.invariant_eq_ok.mp hk).2
  simp only at hraw hle hlt
  have hfits : Fits (real.reserves.base.raw * real.reserves.quote.raw) :=
    Int128.fits_of_le (0 : Int128).fits k.fits hnew.le (hraw ▸ hle)
  refine ⟨k, ⟨⟨_, hfits⟩⟩, hk, ?_, hraw ▸ hle, ?_⟩
  · rw [hpool]
    exact Amm.invariant_eq_ok.mpr
      ⟨⟨h.real_swapped.newBase_pos, h.real_swapped.newQuote_pos⟩, rfl⟩
  · rw [hpool, hraw]
    simp only [Amm.baseReserve_withReserves]
    omega

lemma price_move (h : m.Filled arrival.order arrival.oracle f amm r quoted real)
    (hpeg : 0 ≤ amm.peg.raw) :
    0 ≤ arrival.order.direction.sign *
      (f.market.amm.quoteReserve.raw * amm.baseReserve.raw
        - amm.quoteReserve.raw * f.market.amm.baseReserve.raw) ∧
    ∀ before after, amm.price = .ok before → f.market.amm.price = .ok after →
      0 ≤ arrival.order.direction.sign * (after.raw - before.raw) := by
  obtain ⟨budget, -, hpool⟩ := h.amm_eq
  have hratio := h.real_swapped.ratio_move_nonneg
  rw [Direction.sign_swap] at hratio
  rw [hpool]
  refine ⟨?_, fun before after hbefore hafter => ?_⟩
  · simp only [Amm.baseReserve_withReserves, Amm.quoteReserve_withReserves]
    linarith
  · have hbefore : amm.reserves.price amm.peg = .ok before := hbefore
    have hafter : real.reserves.price amm.peg = .ok after := hafter
    cases hdirection : arrival.order.direction with
    | long =>
      simp only [hdirection, Direction.sign] at hratio ⊢
      have := Reserves.price_le hbefore hafter hpeg (by simp only [Amm.reserves]; omega)
      omega
    | short =>
      simp only [hdirection, Direction.sign] at hratio ⊢
      have := Reserves.price_le hafter hbefore hpeg (by simp only [Amm.reserves]; omega)
      omega

lemma size_steps (h : m.Filled arrival.order arrival.oracle f amm r quoted real)
    (hstep : 0 < m.amm.stepSize.raw) :
    ∃ n : ℕ, 0 < n ∧ f.size.raw = n * m.amm.stepSize.raw := by
  obtain ⟨_, _, _, rfl⟩ := Amm.repeg_frame h.repegged
  obtain ⟨most, -, hsize⟩ := h.size
  obtain ⟨n, hn⟩ := standardize_dvd hsize
  have hsize_pos := h.size_pos
  rw [hn] at hsize_pos
  have hn_pos : 0 < n := (mul_pos_iff_of_pos_left hstep).mp hsize_pos
  refine ⟨n.toNat, by omega, ?_⟩
  rw [hn, Int.toNat_of_nonneg hn_pos.le, mul_comm]

lemma executed (h : m.Filled arrival.order arrival.oracle f amm r quoted real)
    (hm : m.amm.Sound) : Execution.Sound ⟨m, arrival, f⟩ := by
  obtain ⟨hexact, hprice⟩ := h.price_move (by have := (hm.repeg h.repegged).peg_pos; omega)
  obtain ⟨budget, -, hpool⟩ := h.amm_eq
  obtain ⟨peg, budget', price, hframe⟩ := h.frame
  exact {
    invariant := h.invariant_le
    size := h.size_steps hm.step_pos
    size_le := h.size_le
    price := ⟨amm, h.repegged, by rw [hpool]; rfl, hexact, hprice⟩
    frame := ⟨_, _, peg, budget', price, hframe⟩ }

end Filled

lemma run_executed (m : PerpMarket) (hm : m.amm.Sound) (arrivals : List Arrival) :
    (m.run arrivals).1.amm.Sound ∧ ∀ e ∈ (m.run arrivals).2,
      e.before.fill e.arrival.order e.arrival.oracle = .ok (.filled e.fill) ∧ e.Sound := by
  refine run_induction
    (motive := fun m result => m.amm.Sound → result.1.amm.Sound ∧ ∀ e ∈ result.2,
      e.before.fill e.arrival.order e.arrival.oracle = .ok (.filled e.fill) ∧ e.Sound)
    ?_ ?_ m arrivals hm
  · intro m hm
    exact ⟨hm, fun e he => absurd he List.not_mem_nil⟩
  · intro m arrival fill last executions hfill ih hm
    obtain ⟨amm, r, quoted, real, hf⟩ := filled_of_fill hfill
    obtain ⟨hlast, hexecutions⟩ := ih (hf.sound hm)
    exact ⟨hlast, List.forall_mem_cons.mpr ⟨⟨hfill, hf.executed hm⟩, hexecutions⟩⟩

/-- **A sound market stays sound through every run of orders**, with or without repegs and whatever
its spreads, and every fill of the run keeps to the curve, the order, the direction and the
frame. -/
theorem run_stays_sound (m : PerpMarket) (hm : m.amm.Sound) (arrivals : List Arrival) :
    let last := (m.run arrivals).1
    (0 < last.amm.baseReserve.raw ∧ 0 < last.amm.quoteReserve.raw ∧ 1 ≤ last.amm.peg.raw ∧
      0 ≤ last.amm.budget.raw) ∧
    ∀ e ∈ (m.run arrivals).2,
      e.before.fill e.arrival.order e.arrival.oracle = .ok (.filled e.fill) ∧ e.Sound := by
  obtain ⟨hlast, hexecutions⟩ := run_executed m hm arrivals
  exact ⟨⟨hlast.base_pos, hlast.quote_pos, hlast.peg_pos, hlast.budget_nonneg⟩, hexecutions⟩

/-- A market that repegs half of the way, with spreads, a step of a thousandth of base, and little
to spend for users who are long. -/
def restless : PerpMarket :=
  (even Fixed.one).withAmm
    { (even Fixed.one).amm with
      netBase := .ofRaw 1000000000000
      longSpread := .ofRaw 3500
      shortSpread := .ofRaw 1500
      stepSize := .ofRaw 1000000
      repegIntensity := 50
      budget := .ofRaw 1200 }

/-- A long while the oracle is above the pool, and a short of an odd size once it has fallen. -/
def reversal : List Arrival :=
  [⟨⟨.long, .ofRaw 5000000000, .market⟩, .of (.ofRaw 1100000)⟩,
    ⟨⟨.short, .ofRaw 7000000001, .market⟩, .of (.ofRaw 900000)⟩]

lemma restless_sound : restless.amm.Sound := by
  constructor <;> decide

theorem run_stays_sound_reversal :
    (restless.amm.Sound ∧ (restless.run reversal).2.map (·.fill.quote.raw) = [5017571, 6640012] ∧
      (restless.run reversal).1.amm.baseReserve.raw = 500002000000000 ∧
      (restless.run reversal).1.amm.quoteReserve.raw = 499998000007999 ∧
      (restless.run reversal).1.amm.peg.raw = 949992) ∧
      0 ≤ (restless.run reversal).1.amm.budget.raw ∧
      ∀ e ∈ (restless.run reversal).2, e.fill.size.raw ≤ e.arrival.order.size.raw := by
  obtain ⟨⟨-, -, -, hbudget⟩, hexecutions⟩ := run_stays_sound restless restless_sound reversal
  exact ⟨⟨restless_sound, by decide, by decide, by decide, by decide⟩, hbudget,
    fun e he => (hexecutions e he).2.size_le⟩

end PerpMarket

end PerpExchange
