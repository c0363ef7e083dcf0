import PerpExchange.Proofs.Margin.Account

/-!
Initial margin is at least as strict as maintenance margin.

Position by position, initial margin requires no less and counts no more: a ratio or a liability
weight only grows along its curve, an asset weight only shrinks, and the roundings keep the order.
The margin of an account is the sum over its positions, so the order carries over to it, and an
account that meets initial margin meets maintenance margin.
-/

namespace PerpExchange

/-- A requirement and collateral `x` that are no milder than `y`. -/
structure Stricter (x y : ℤ × ℤ) : Prop where
  requirement : y.1 ≤ x.1
  collateral : x.2 ≤ y.2

namespace Stricter

variable {x y x' y' : ℤ × ℤ}

lemma refl (x : ℤ × ℤ) : Stricter x x := ⟨le_rfl, le_rfl⟩

lemma add (h : Stricter x y) (h' : Stricter x' y') : Stricter (x + x') (y + y') :=
  ⟨add_le_add h.requirement h'.requirement, add_le_add h.collateral h'.collateral⟩

/-- What holds of each position holds of them together. -/
lemma sum {α : Type} {f g : α → ℤ × ℤ} {l : List α} (h : ∀ p ∈ l, Stricter (f p) (g p)) :
    Stricter (l.map f).sum (l.map g).sum := by
  induction l with
  | nil => exact refl 0
  | cons p rest ih =>
    obtain ⟨hp, hrest⟩ := List.forall_mem_cons.mp h
    rw [List.map_cons, List.map_cons, List.sum_cons, List.sum_cons]
    exact hp.add (ih hrest)

end Stricter

lemma PerpPosition.stricter_of_margin {p : PerpPosition} {m : PerpMarket} {oracle : Price}
    {initial maintenance : PositionMargin} (hi : p.margin m oracle .initial = .ok initial)
    (hm : p.margin m oracle .maintenance = .ok maintenance) (hprice : 0 ≤ oracle.raw)
    (hlisted : m.Listed) (hweights : m.initialPnlWeight ≤ m.maintenancePnlWeight) :
    Stricter initial.pair maintenance.pair := by
  obtain ⟨value, ratio, pnl, weight, hvalue, hratio, hpnl, hweight, hrequirement, hcollateral⟩ :=
    margin_eq_ok hi
  obtain ⟨value', ratio', pnl', weight', hvalue', hratio', hpnl', hweight', hrequirement',
    hcollateral'⟩ := margin_eq_ok hm
  obtain rfl : value = value' := by simpa [hvalue] using hvalue'
  obtain rfl : pnl = pnl' := by simpa [hpnl] using hpnl'
  constructor
  · rw [PositionMargin.pair, PositionMargin.pair, hrequirement, hrequirement']
    refine Rounding.ceil_quotient_mono (by norm_num) (mul_le_mul_of_nonneg_left ?_ ?_)
    · rw [PerpMarket.marginRatio_maintenance hratio']
      exact hlisted.chargedRatio_le hratio
    · rw [raw_baseValue hvalue hprice]
      exact notional_nonneg _ hprice
  · rw [PositionMargin.pair, PositionMargin.pair, hcollateral, hcollateral']
    refine Int.tdiv_le_tdiv (by norm_num) ?_
    rcases le_or_gt pnl.raw 0 with hloss | hprofit
    · rw [PerpMarket.pnlWeight_of_nonpos hweight hloss,
        PerpMarket.pnlWeight_of_nonpos hweight' hloss]
    · exact mul_le_mul_of_nonneg_left
        (PerpMarket.pnlWeight_initial_le hweight hweight' hprofit hweights) hprofit.le

lemma SpotPosition.stricter_of_margin {p : SpotPosition} {m : SpotMarket} {price : Price}
    {initial maintenance : PositionMargin} (hi : p.margin m price .initial = .ok initial)
    (hm : p.margin m price .maintenance = .ok maintenance) (hprice : 0 ≤ price.raw)
    (hlisted : m.Listed) (hindexed : m.Indexed) (hbalance : 0 ≤ p.balance.raw) :
    Stricter initial.pair maintenance.pair := by
  cases hside : p.side with
  | deposit =>
    obtain ⟨tokens, value, weight, htokens, hvalue, hweight, hrequirement, hcollateral⟩ :=
      margin_of_deposit hi hside
    obtain ⟨tokens', value', weight', htokens', hvalue', hweight', hrequirement', hcollateral'⟩ :=
      margin_of_deposit hm hside
    obtain rfl : tokens = tokens' := by simpa [htokens] using htokens'
    obtain rfl : value = value' := by simpa [hvalue] using hvalue'
    have hworth := TokenAmount.quoteValue_nonneg hvalue
      (SpotMarket.tokensOf_nonneg htokens hindexed hbalance) hprice
    constructor
    · exact (hrequirement'.trans hrequirement.symm).le
    · rw [PositionMargin.pair, PositionMargin.pair, hcollateral, hcollateral']
      exact Int.tdiv_le_tdiv (by norm_num)
        (mul_le_mul_of_nonneg_left (hlisted.assetWeight_le hweight hweight') hworth)
  | borrow =>
    obtain ⟨tokens, value, weight, htokens, hvalue, hweight, hrequirement, hcollateral⟩ :=
      margin_of_borrow hi hside
    obtain ⟨tokens', value', weight', htokens', hvalue', hweight', hrequirement', hcollateral'⟩ :=
      margin_of_borrow hm hside
    obtain rfl : tokens = tokens' := by simpa [htokens] using htokens'
    obtain rfl : value = value' := by simpa [hvalue] using hvalue'
    have hworth := TokenAmount.quoteValue_nonneg hvalue
      (SpotMarket.tokensOf_nonneg htokens hindexed hbalance) hprice
    constructor
    · rw [PositionMargin.pair, PositionMargin.pair, hrequirement, hrequirement']
      exact Rounding.ceil_quotient_mono (by norm_num)
        (mul_le_mul_of_nonneg_left (hlisted.le_liabilityWeight hweight hweight') hworth)
    · exact (hcollateral.trans hcollateral'.symm).le

/-- All markets of a snapshot pass the checks of a listing, and profits weigh no more for initial
margin than for maintenance. -/
structure Snapshot.Listed (s : Snapshot) : Prop where
  spots : ∀ {i m}, s.spots.get? i = some m → m.Listed ∧ m.Indexed
  perps : ∀ {i m}, s.perps.get? i = some m →
    m.Listed ∧ m.initialPnlWeight ≤ m.maintenancePnlWeight

namespace Snapshot

variable {s : Snapshot}

lemma spot_eq_ok {i : MarketIndex} {m : SpotMarket} :
    s.spot i = .ok m ↔ s.spots.get? i = some m := by
  unfold spot
  cases s.spots.get? i <;> simp

lemma perp_eq_ok {i : MarketIndex} {m : PerpMarket} :
    s.perp i = .ok m ↔ s.perps.get? i = some m := by
  unfold perp
  cases s.perps.get? i <;> simp

lemma Listed.empty : Snapshot.empty.Listed := ⟨nofun, nofun⟩

lemma Listed.withSpot (hs : s.Listed) {m : SpotMarket} (hm : m.Listed ∧ m.Indexed)
    (oracle : Option OracleReading) : (s.withSpot m oracle).Listed where
  perps := hs.perps
  spots {i m'} h := by
    simp only [Snapshot.withSpot, MarketTable.get?_insert] at h
    split_ifs at h
    · cases h
      exact hm
    · exact hs.spots h

lemma Listed.withPerp (hs : s.Listed) {m : PerpMarket}
    (hm : m.Listed ∧ m.initialPnlWeight ≤ m.maintenancePnlWeight) (oracle : OracleReading) :
    (s.withPerp m oracle).Listed where
  spots := hs.spots
  perps {i m'} h := by
    simp only [Snapshot.withPerp, MarketTable.get?_insert] at h
    split_ifs at h
    · cases h
      exact hm
    · exact hs.perps h

/-- A perp market and a spot market whose weights curve with the size. The users of the perp market
are owed more than it allows. -/
def curved : Snapshot :=
  ((empty.withPerp
    { PerpMarket.new ⟨0⟩ { Amm.balanced 0 Fixed.one with quoteLong := .ofRaw 44000000 } with
      imf := .ofRaw 600
      pnlImf := .ofRaw 600
      initialPnlWeight := .ofRaw 8500
      maxImbalance := .ofRaw 33000000 }
    (.of (.ofRaw 9100000))).withSpot .quote none).withSpot
      { SpotMarket.volatile ⟨1⟩ 9 with imf := .ofRaw 600 } (some (.of (.ofRaw 3200000)))

end Snapshot

lemma PerpPosition.stricter_of_marginIn {p : PerpPosition} {s : Snapshot}
    {initial maintenance : PositionMargin} (hi : p.marginIn s .initial = .ok initial)
    (hm : p.marginIn s .maintenance = .ok maintenance) (hs : s.Listed) :
    Stricter initial.pair maintenance.pair := by
  obtain ⟨m, oracle, hmarket, horacle, hprice, hi⟩ := marginIn_eq_ok hi
  obtain ⟨m', oracle', hmarket', horacle', -, hm⟩ := marginIn_eq_ok hm
  obtain rfl : m = m' := by simpa [hmarket] using hmarket'
  obtain rfl : oracle = oracle' := by simpa [horacle] using horacle'
  obtain ⟨hlisted, hweights⟩ := hs.perps (Snapshot.perp_eq_ok.mp hmarket)
  exact stricter_of_margin hi hm hprice.le hlisted hweights

lemma SpotPosition.stricter_of_marginIn {p : SpotPosition} {s : Snapshot}
    {initial maintenance : PositionMargin} (hi : p.marginIn s .initial = .ok initial)
    (hm : p.marginIn s .maintenance = .ok maintenance) (hs : s.Listed)
    (hbalance : 0 ≤ p.balance.raw) : Stricter initial.pair maintenance.pair := by
  obtain ⟨m, price, hmarket, hprice, hpos, hi⟩ := marginIn_eq_ok hi
  obtain ⟨m', price', hmarket', hprice', -, hm⟩ := marginIn_eq_ok hm
  obtain rfl : m = m' := by simpa [hmarket] using hmarket'
  obtain rfl : price = price' := by simpa [hprice] using hprice'
  obtain ⟨hlisted, hindexed⟩ := hs.spots (Snapshot.spot_eq_ok.mp hmarket)
  exact stricter_of_margin hi hm hpos.le hlisted hindexed hbalance

namespace Account

variable {a : Account} {s : Snapshot} {initial maintenance : MarginTotal}

lemma stricter_of_margined (hi : a.Margined s .initial initial)
    (hm : a.Margined s .maintenance maintenance) (hs : s.Listed)
    (ha : ∀ p ∈ a.spots, 0 ≤ p.balance.raw) : Stricter initial.pair maintenance.pair := by
  rw [hi.pair_eq, hm.pair_eq]
  refine Stricter.add (Stricter.sum fun p hp => ?_) (Stricter.sum fun p hp => ?_)
  · obtain ⟨hp, hbalance⟩ := List.mem_filter.mp hp
    have hne : p.balance.raw ≠ 0 := by simpa using hbalance
    obtain ⟨x, hx⟩ := hi.spots_ok p hp hne
    obtain ⟨y, hy⟩ := hm.spots_ok p hp hne
    rw [hx, hy]
    exact p.stricter_of_marginIn hx hy hs (ha p hp)
  · cases hopen : p.isAvailable with
    | true =>
      rw [p.counted_of_available hopen, p.counted_of_available hopen]
      exact .refl 0
    | false =>
      obtain ⟨x, hx⟩ := hi.perps_ok p hp hopen
      obtain ⟨y, hy⟩ := hm.perps_ok p hp hopen
      rw [hx, hy]
      exact p.stricter_of_marginIn hx hy hs

/-- **Initial margin is at least as strict as maintenance**, for whole accounts. -/
theorem initial_margin_stricter (hs : s.Listed) (ha : ∀ p ∈ a.spots, 0 ≤ p.balance.raw)
    (hi : a.margin s .initial = .ok initial) (hm : a.margin s .maintenance = .ok maintenance) :
    maintenance.requirement ≤ initial.requirement ∧ initial.collateral ≤ maintenance.collateral ∧
      (initial.isMet = true → maintenance.isMet = true) := by
  obtain ⟨hrequirement, hcollateral⟩ :=
    stricter_of_margined (margined_of_margin hi) (margined_of_margin hm) hs ha
  refine ⟨hrequirement, hcollateral, fun hmet => ?_⟩
  rw [MarginTotal.isMet_iff] at hmet ⊢
  exact hrequirement.trans (hmet.trans hcollateral)

/-- A long in profit and a deposit, against a borrow of quote. -/
def geared : Account :=
  { new ⟨1⟩ with
    perps := [⟨⟨0⟩, .ofRaw 26000000000, .ofRaw (-210000000), .ofRaw (-210000000)⟩]
    spots := [{ SpotPosition.new ⟨1⟩ with balance := .ofRaw 70000000009 },
      { SpotPosition.new .quote with side := .borrow, balance := .ofRaw 8000000001 }] }

theorem initial_margin_stricter_geared : ∃ initial maintenance : MarginTotal,
    geared.margin .curved .initial = .ok initial ∧
    geared.margin .curved .maintenance = .ok maintenance ∧
    maintenance.requirement ≤ initial.requirement ∧ initial.collateral ≤ maintenance.collateral ∧
    initial.isMet = true ∧ maintenance.isMet = true ∧
    (initial.requirement.raw = 31660001 ∧ maintenance.requirement.raw = 19830001) ∧
    initial.collateral.raw = 196157500 ∧ maintenance.collateral.raw = 228200000 := by
  obtain ⟨initial, hi, hmet, hstrict, hlow⟩ : ∃ t, geared.margin .curved .initial = .ok t ∧
      t.isMet = true ∧ t.requirement.raw = 31660001 ∧ t.collateral.raw = 196157500 := by
    decide +kernel
  obtain ⟨maintenance, hm, hmild, hhigh⟩ : ∃ t, geared.margin .curved .maintenance = .ok t ∧
      t.requirement.raw = 19830001 ∧ t.collateral.raw = 228200000 := by
    decide +kernel
  have hquote : SpotMarket.quote.Listed := rfl
  have hvolatile : SpotMarket.Listed { SpotMarket.volatile ⟨1⟩ 9 with imf := .ofRaw 600 } := rfl
  have hlisted : Snapshot.curved.Listed :=
    ((Snapshot.Listed.empty.withPerp ⟨⟨0, by decide⟩, by decide⟩ _).withSpot
      ⟨hquote, fun side => by cases side <;> decide⟩ _).withSpot
      ⟨hvolatile, fun side => by cases side <;> decide⟩ _
  obtain ⟨hrequirement, hcollateral, hstricter⟩ :=
    initial_margin_stricter hlisted (by decide) hi hm
  exact ⟨initial, maintenance, hi, hm, hrequirement, hcollateral, hmet, hstricter hmet,
    ⟨hstrict, hmild⟩, hlow, hhigh⟩

end Account

end PerpExchange
