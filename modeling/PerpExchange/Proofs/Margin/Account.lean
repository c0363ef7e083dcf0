import Mathlib.Algebra.Group.Prod
import PerpExchange.Margin.Account
import PerpExchange.Proofs.Account
import PerpExchange.Proofs.Margin.Position

/-!
The margin of an account, as a sum over its positions.

Every position adds a requirement and collateral of its own, whatever the other positions are, and
a position that holds nothing adds nothing. So two accounts that differ in one perp position differ
in their margin by what that position adds.
-/

namespace PerpExchange

def PositionMargin.pair (x : PositionMargin) : ℤ × ℤ := (x.requirement.raw, x.collateral.raw)

/-- What a position counts for, where nothing failed. -/
def PositionMargin.counted : Except Failure PositionMargin → ℤ × ℤ
  | .ok x => x.pair
  | .error _ => 0

def PerpPosition.marginIn (p : PerpPosition) (s : Snapshot) (kind : MarginKind) :
    Except Failure PositionMargin := do
  let market ← s.perp p.market
  let oracle ← s.pricedPerpOracle p.market
  p.margin market oracle.price kind

def SpotPosition.marginIn (p : SpotPosition) (s : Snapshot) (kind : MarginKind) :
    Except Failure PositionMargin := do
  let market ← s.spot p.market
  let price ← s.spotPrice p.market
  p.margin market price kind

@[simp] lemma Snapshot.pricedPerpOracle_eq_ok {s : Snapshot} {i : MarketIndex}
    {reading : OracleReading} :
    s.pricedPerpOracle i = .ok reading ↔ s.perpOracle i = .ok reading ∧ 0 < reading.price.raw := by
  simp only [pricedPerpOracle, bind_eq_ok, Refusal.guard_eq_ok, pure_eq_ok]
  constructor
  · rintro ⟨r, hr, -, hprice, rfl⟩
    exact ⟨hr, hprice⟩
  · rintro ⟨hr, hprice⟩
    exact ⟨reading, hr, (), hprice, rfl⟩

lemma Snapshot.spotPrice_pos {s : Snapshot} {i : MarketIndex} {price : Price}
    (h : s.spotPrice i = .ok price) : 0 < price.raw := by
  unfold spotPrice at h
  split_ifs at h
  · cases h
    decide
  · split at h
    · simp only [bind_eq_ok, Refusal.guard_eq_ok, pure_eq_ok] at h
      obtain ⟨-, hprice, rfl⟩ := h
      exact hprice
    · cases h

namespace MarginTotal

variable {s : Snapshot} {t t' : MarginTotal}

def pair (t : MarginTotal) : ℤ × ℤ := (t.requirement.raw, t.collateral.raw)

/-- What the collateral is below the requirement, at least nothing. -/
def shortfall (t : MarginTotal) : ℤ := max (t.requirement.raw - t.collateral.raw) 0

lemma raw_shortage {short : QuoteAmount} (h : t.shortage = .ok short) :
    short.raw = t.shortfall := by
  simp only [shortage, bind_eq_ok, Fixed.sub_eq_ok, pure_eq_ok] at h
  obtain ⟨difference, hdifference, rfl⟩ := h
  rw [Fixed.raw_max, hdifference, Fixed.raw_zero, shortfall]

lemma isMet_iff : t.isMet = true ↔ t.requirement.raw ≤ t.collateral.raw := decide_eq_true_iff

lemma shortfall_of_not_isMet (h : ¬t.isMet = true) :
    t.shortfall = t.requirement.raw - t.collateral.raw ∧ 0 < t.shortfall := by
  rw [isMet_iff] at h
  have hshort : t.shortfall = t.requirement.raw - t.collateral.raw := max_eq_left (by omega)
  exact ⟨hshort, by omega⟩

lemma add_eq_ok {x : PositionMargin} (h : t.add x = .ok t') :
    t'.kind = t.kind ∧ t'.pair = t.pair + x.pair := by
  simp only [add, bind_eq_ok, Fixed.add_eq_ok, pure_eq_ok] at h
  obtain ⟨requirement, hrequirement, collateral, hcollateral, rfl⟩ := h
  exact ⟨rfl, Prod.ext hrequirement hcollateral⟩

lemma addSpot_eq_ok {p : SpotPosition} (h : t.addSpot s p = .ok t') :
    t'.kind = t.kind ∧ ∃ x, p.marginIn s t.kind = .ok x ∧ t'.pair = t.pair + x.pair := by
  simp only [addSpot, bind_eq_ok, Failure.liftM_refusal_eq_ok, Failure.liftM_violation_eq_ok] at h
  obtain ⟨market, hmarket, price, hprice, x, hx, t₁, hadd, h⟩ := h
  obtain ⟨hkind, hpair⟩ := add_eq_ok hadd
  have hown : p.marginIn s t.kind = .ok x := by
    simp only [SpotPosition.marginIn, bind_eq_ok, Failure.liftM_refusal_eq_ok,
      Failure.liftM_violation_eq_ok]
    exact ⟨market, hmarket, price, hprice, hx⟩
  cases hside : p.side with
  | deposit =>
    simp only [hside, pure_eq_ok] at h
    exact h ▸ ⟨hkind, x, hown, hpair⟩
  | borrow =>
    simp only [hside, pure_eq_ok] at h
    exact h ▸ ⟨hkind, x, hown, hpair⟩

lemma addPerp_eq_ok {p : PerpPosition} (h : t.addPerp s p = .ok t') :
    t'.kind = t.kind ∧ ∃ x, p.marginIn s t.kind = .ok x ∧ t'.pair = t.pair + x.pair := by
  simp only [addPerp, bind_eq_ok, Failure.liftM_refusal_eq_ok, Failure.liftM_violation_eq_ok,
    pure_eq_ok] at h
  obtain ⟨market, hmarket, oracle, horacle, x, hx, t₁, hadd, rfl⟩ := h
  obtain ⟨hkind, hpair⟩ := add_eq_ok hadd
  refine ⟨hkind, x, ?_, hpair⟩
  simp only [PerpPosition.marginIn, bind_eq_ok, Failure.liftM_refusal_eq_ok,
    Failure.liftM_violation_eq_ok]
  exact ⟨market, hmarket, oracle, horacle, hx⟩

/-- A total that takes on positions one by one takes on the sum of what they add. -/
lemma foldlM_eq_ok {α : Type} {add : MarginTotal → α → Except Failure MarginTotal}
    (own : MarginKind → α → Except Failure PositionMargin)
    (hadd : ∀ {t p t'}, add t p = .ok t' →
      t'.kind = t.kind ∧ ∃ x, own t.kind p = .ok x ∧ t'.pair = t.pair + x.pair)
    {l : List α} (h : l.foldlM add t = .ok t') :
    t'.kind = t.kind ∧ (∀ p ∈ l, ∃ x, own t.kind p = .ok x) ∧
      t'.pair = t.pair + (l.map fun p => PositionMargin.counted (own t.kind p)).sum := by
  induction l generalizing t with
  | nil =>
    cases h
    simp
  | cons p rest ih =>
    rw [List.foldlM_cons, bind_eq_ok] at h
    obtain ⟨t₁, hfirst, hrest⟩ := h
    obtain ⟨hkind, x, hx, hpair⟩ := hadd hfirst
    obtain ⟨hkind', hown, hsum⟩ := ih hrest
    rw [hkind] at hkind' hown hsum
    refine ⟨hkind', List.forall_mem_cons.mpr ⟨⟨x, hx⟩, hown⟩, ?_⟩
    rw [hsum, hpair, List.map_cons, List.sum_cons, hx, PositionMargin.counted, add_assoc]

end MarginTotal

lemma sum_map_filter_of_zero {α M : Type} [AddCommMonoid M] {p : α → Bool} {f : α → M}
    {l : List α} (h : ∀ a ∈ l, p a = false → f a = 0) :
    ((l.filter p).map f).sum = (l.map f).sum := by
  induction l with
  | nil => rfl
  | cons a rest ih =>
    obtain ⟨ha, hrest⟩ := List.forall_mem_cons.mp h
    cases hp : p a with
    | false => simp [hp, ih hrest, ha hp]
    | true => simp [hp, ih hrest]

lemma PerpPosition.marginIn_eq_ok {p : PerpPosition} {s : Snapshot} {kind : MarginKind}
    {x : PositionMargin} (h : p.marginIn s kind = .ok x) :
    ∃ m oracle, s.perp p.market = .ok m ∧ s.perpOracle p.market = .ok oracle ∧
      0 < oracle.price.raw ∧ p.margin m oracle.price kind = .ok x := by
  simp only [marginIn, bind_eq_ok, Failure.liftM_refusal_eq_ok, Failure.liftM_violation_eq_ok,
    Snapshot.pricedPerpOracle_eq_ok] at h
  obtain ⟨m, hm, oracle, ⟨horacle, hprice⟩, h⟩ := h
  exact ⟨m, oracle, hm, horacle, hprice, h⟩

lemma SpotPosition.marginIn_eq_ok {p : SpotPosition} {s : Snapshot} {kind : MarginKind}
    {x : PositionMargin} (h : p.marginIn s kind = .ok x) :
    ∃ m price, s.spot p.market = .ok m ∧ s.spotPrice p.market = .ok price ∧ 0 < price.raw ∧
      p.margin m price kind = .ok x := by
  simp only [marginIn, bind_eq_ok, Failure.liftM_refusal_eq_ok, Failure.liftM_violation_eq_ok] at h
  obtain ⟨m, hm, price, hprice, h⟩ := h
  exact ⟨m, price, hm, hprice, Snapshot.spotPrice_pos hprice, h⟩

lemma PerpPosition.counted_of_available {p : PerpPosition} (hp : p.isAvailable = true)
    (s : Snapshot) (kind : MarginKind) : PositionMargin.counted (p.marginIn s kind) = 0 := by
  cases h : p.marginIn s kind with
  | error e => rfl
  | ok x =>
    obtain ⟨m, oracle, -, -, hprice, hx⟩ := marginIn_eq_ok h
    obtain ⟨hrequirement, hcollateral⟩ := margin_of_available hx hprice.le hp
    exact Prod.ext hrequirement hcollateral

namespace Account

variable {a b : Account} {s : Snapshot} {kind : MarginKind} {t t' : MarginTotal}

/-- What is known of an account whose margin was computed. -/
structure Margined (a : Account) (s : Snapshot) (kind : MarginKind) (t : MarginTotal) : Prop where
  kind_eq : t.kind = kind
  spots_ok : ∀ p ∈ a.spots, p.balance.raw ≠ 0 → ∃ x, p.marginIn s kind = .ok x
  perps_ok : ∀ p ∈ a.perps, p.isAvailable = false → ∃ x, p.marginIn s kind = .ok x
  pair_eq : t.pair =
    ((a.spots.filter (·.balance.raw != 0)).map fun p =>
      PositionMargin.counted (p.marginIn s kind)).sum +
    (a.perps.map fun p => PositionMargin.counted (p.marginIn s kind)).sum

lemma margined_of_margin (h : a.margin s kind = .ok t) : a.Margined s kind t := by
  simp only [margin, bind_eq_ok] at h
  obtain ⟨spots, hspots, hperps⟩ := h
  obtain ⟨hkind, hspots_ok, hspots_pair⟩ :=
    MarginTotal.foldlM_eq_ok (fun kind p => p.marginIn s kind) MarginTotal.addSpot_eq_ok hspots
  obtain ⟨hkind', hperps_ok, hperps_pair⟩ :=
    MarginTotal.foldlM_eq_ok (fun kind p => p.marginIn s kind) MarginTotal.addPerp_eq_ok hperps
  have hspots_kind : spots.kind = kind := hkind
  rw [hspots_kind] at hkind' hperps_ok hperps_pair
  have hsum := sum_map_filter_of_zero (l := a.perps) (p := fun p => !p.isAvailable)
    (f := fun p => PositionMargin.counted (p.marginIn s kind))
    fun p _ hp => p.counted_of_available (by simpa using hp) s kind
  exact {
    kind_eq := hkind'
    spots_ok := fun p hp hbalance => hspots_ok p (List.mem_filter.mpr ⟨hp, by simpa using hbalance⟩)
    perps_ok := fun p hp hopen => hperps_ok p (List.mem_filter.mpr ⟨hp, by simpa using hopen⟩)
    pair_eq := by
      rw [hperps_pair, hspots_pair, hsum, show (MarginTotal.zero kind).pair = 0 from rfl, zero_add]
      rfl }

/-- Two accounts that differ in one perp position differ in their margin by what it adds. -/
lemma pair_of_replaced {market : MarketIndex} {p q : PerpPosition} (ha : a.Margined s kind t)
    (hb : b.Margined s kind t') (hp : a.perp? market = some p) (hspots : b.spots = a.spots)
    (hperps : b.perps = modifyFirst (·.market == market) (fun _ => q) a.perps) :
    t'.pair = t.pair +
      (PositionMargin.counted (q.marginIn s kind) -
        PositionMargin.counted (p.marginIn s kind)) := by
  rw [hb.pair_eq, ha.pair_eq, hspots, hperps, sum_modifyFirst _ hp, add_assoc]

end Account

end PerpExchange
