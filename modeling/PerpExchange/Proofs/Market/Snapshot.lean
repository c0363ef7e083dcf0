import PerpExchange.Market.Snapshot
import PerpExchange.Proofs.Checked

/-!
What of a snapshot's history its look-ups can see.

A market that is put in takes the place of the market of its kind and index. So a look-up finds what
the last insertion for it left, and insertions for different markets can be exchanged. The oracle of
a spot market is the exception: an insertion without one leaves the one of an earlier insertion in
its place.
-/

namespace PerpExchange

inductive Insertion where
  | perp (market : PerpMarket) (oracle : OracleReading)
  | spot (market : SpotMarket) (oracle : Option OracleReading)

namespace Insertion

/-- The place that a market takes: its index, among the markets of its kind. -/
def place : Insertion → MarketIndex ⊕ MarketIndex
  | .perp m _ => .inl m.index
  | .spot m _ => .inr m.index

def perp? (i : MarketIndex) : Insertion → Option (PerpMarket × OracleReading)
  | .perp m oracle => if m.index = i then some (m, oracle) else none
  | .spot _ _ => none

def spot? (i : MarketIndex) : Insertion → Option (SpotMarket × Option OracleReading)
  | .perp _ _ => none
  | .spot m oracle => if m.index = i then some (m, oracle) else none

lemma isSome_perp? (c : Insertion) (i : MarketIndex) :
    (c.perp? i).isSome ↔ c.place = .inl i := by
  cases c <;> simp [perp?, place]

lemma isSome_spot? (c : Insertion) (i : MarketIndex) :
    (c.spot? i).isSome ↔ c.place = .inr i := by
  cases c <;> simp [spot?, place]

/-- The insertions whose place no later one takes. -/
def lastOnly : List Insertion → List Insertion
  | [] => []
  | c :: rest => if ∃ later ∈ rest, later.place = c.place then lastOnly rest else c :: lastOnly rest

/-- Of what is put into one place, the last thing stays. -/
lemma filterMap_lastOnly {α : Type} {read : Insertion → Option α}
    {place : MarketIndex ⊕ MarketIndex} (hread : ∀ c, (read c).isSome ↔ c.place = place)
    (calls : List Insertion) :
    (lastOnly calls).filterMap read = (calls.filterMap read).getLast?.toList := by
  induction calls with
  | nil => rfl
  | cons c rest ih =>
    rw [lastOnly]
    cases hc : read c with
    | none =>
      split_ifs <;> simp [hc, ih]
    | some a =>
      have hplace : c.place = place := (hread c).mp (by simp [hc])
      have hempty : rest.filterMap read = [] ↔ ¬∃ later ∈ rest, later.place = c.place := by
        simp [List.filterMap_eq_nil_iff, ← Option.not_isSome_iff_eq_none, hread, hplace]
      split_ifs with htaken
      · have hne : rest.filterMap read ≠ [] := fun h => hempty.mp h htaken
        rw [ih, List.filterMap_cons_some hc, List.getLast?_cons_of_ne_nil hne]
      · have hnil : rest.filterMap read = [] := hempty.mpr htaken
        simp [hc, ih, hnil]

/-- What is put into one place does not depend on when the others are filled. -/
lemma filterMap_swap {α : Type} {read : Insertion → Option α} {place : MarketIndex ⊕ MarketIndex}
    (hread : ∀ c, (read c).isSome ↔ c.place = place) {a b : Insertion} (h : a.place ≠ b.place)
    (front rest : List Insertion) :
    (front ++ a :: b :: rest).filterMap read = (front ++ b :: a :: rest).filterMap read := by
  have hone : ¬((read a).isSome ∧ (read b).isSome) := fun ⟨ha, hb⟩ =>
    h (((hread a).mp ha).trans ((hread b).mp hb).symm)
  cases ha : read a <;> cases hb : read b <;> simp_all

end Insertion

namespace Snapshot

open Insertion

def put (s : Snapshot) : Insertion → Snapshot
  | .perp m oracle => s.withPerp m oracle
  | .spot m oracle => s.withSpot m oracle

def ofInsertions (calls : List Insertion) : Snapshot := calls.foldl put empty

/-- A part of a snapshot that insertions write and nothing else changes is what was written last. -/
lemma read_foldl_put {α : Type} (read : Snapshot → Option α) {write : Insertion → Option α}
    (hput : ∀ s c, read (s.put c) = (write c).or (read s)) (calls : List Insertion) (s : Snapshot) :
    read (calls.foldl put s) = (calls.filterMap write).getLast?.or (read s) := by
  induction calls generalizing s with
  | nil => rfl
  | cons c rest ih =>
    rw [List.foldl_cons, ih, hput, ← Option.or_assoc]
    cases hc : write c with
    | none => simp [hc]
    | some a => simp [hc, List.getLast?_cons]

/-- What insertions say of the perp market of an index, the last of them last. -/
def perpsOf (calls : List Insertion) (i : MarketIndex) : List (PerpMarket × OracleReading) :=
  calls.filterMap (·.perp? i)

def spotsOf (calls : List Insertion) (i : MarketIndex) : List (SpotMarket × Option OracleReading) :=
  calls.filterMap (·.spot? i)

lemma perpsOf_lastOnly (calls : List Insertion) (i : MarketIndex) :
    perpsOf (lastOnly calls) i = (perpsOf calls i).getLast?.toList :=
  filterMap_lastOnly (fun c => c.isSome_perp? i) calls

lemma spotsOf_lastOnly (calls : List Insertion) (i : MarketIndex) :
    spotsOf (lastOnly calls) i = (spotsOf calls i).getLast?.toList :=
  filterMap_lastOnly (fun c => c.isSome_spot? i) calls

variable {calls : List Insertion} {i : MarketIndex}

/-! ### What one insertion writes -/

variable {s : Snapshot} {c : Insertion}

lemma perps_put : (s.put c).perps.get? i = ((c.perp? i).map Prod.fst).or (s.perps.get? i) := by
  cases c with
  | perp m oracle =>
    by_cases hm : m.index = i <;> simp [put, withPerp, perp?, MarketTable.get?_insert, hm]
  | spot m oracle => simp [put, withSpot, perp?]

lemma perpOracles_put :
    (s.put c).perpOracles.get? i = ((c.perp? i).map Prod.snd).or (s.perpOracles.get? i) := by
  cases c with
  | perp m oracle =>
    by_cases hm : m.index = i <;> simp [put, withPerp, perp?, MarketTable.get?_insert, hm]
  | spot m oracle => simp [put, withSpot, perp?]

lemma spots_put : (s.put c).spots.get? i = ((c.spot? i).map Prod.fst).or (s.spots.get? i) := by
  cases c with
  | perp m oracle => simp [put, withPerp, spot?]
  | spot m oracle =>
    by_cases hm : m.index = i <;> simp [put, withSpot, spot?, MarketTable.get?_insert, hm]

lemma spotOracles_put :
    (s.put c).spotOracles.get? i = ((c.spot? i).bind Prod.snd).or (s.spotOracles.get? i) := by
  rcases c with ⟨m, oracle⟩ | ⟨m, _ | oracle⟩
  · simp [put, withPerp, spot?]
  · by_cases hm : m.index = i <;> simp [put, withSpot, spot?, hm]
  · by_cases hm : m.index = i <;> simp [put, withSpot, spot?, MarketTable.get?_insert, hm]

/-! ### What a snapshot holds -/

lemma perps_ofInsertions :
    (ofInsertions calls).perps.get? i = (perpsOf calls i).getLast?.map Prod.fst := by
  have h := read_foldl_put (·.perps.get? i) (fun _ _ => perps_put) calls empty
  simpa [ofInsertions, perpsOf, empty, ← List.map_filterMap] using h

lemma perpOracles_ofInsertions :
    (ofInsertions calls).perpOracles.get? i = (perpsOf calls i).getLast?.map Prod.snd := by
  have h := read_foldl_put (·.perpOracles.get? i) (fun _ _ => perpOracles_put) calls empty
  simpa [ofInsertions, perpsOf, empty, ← List.map_filterMap] using h

lemma spots_ofInsertions :
    (ofInsertions calls).spots.get? i = (spotsOf calls i).getLast?.map Prod.fst := by
  have h := read_foldl_put (·.spots.get? i) (fun _ _ => spots_put) calls empty
  simpa [ofInsertions, spotsOf, empty, ← List.map_filterMap] using h

lemma spotOracles_ofInsertions :
    (ofInsertions calls).spotOracles.get? i = ((spotsOf calls i).filterMap Prod.snd).getLast? := by
  have h := read_foldl_put (·.spotOracles.get? i) (fun _ _ => spotOracles_put) calls empty
  simpa [ofInsertions, spotsOf, empty, List.filterMap_filterMap] using h

/-! ### Look-ups -/

/-- Every look-up but that of a spot price has the same answer. -/
structure SameMarkets (s t : Snapshot) : Prop where
  perp : ∀ i, s.perp i = t.perp i
  perpOracle : ∀ i, s.perpOracle i = t.perpOracle i
  spot : ∀ i, s.spot i = t.spot i

lemma sameMarkets_of_last {others : List Insertion}
    (hperps : ∀ i, (perpsOf calls i).getLast? = (perpsOf others i).getLast?)
    (hspots : ∀ i, (spotsOf calls i).getLast? = (spotsOf others i).getLast?) :
    SameMarkets (ofInsertions calls) (ofInsertions others) where
  perp i := by simp only [perp, perps_ofInsertions, hperps]
  perpOracle i := by simp only [perpOracle, perpOracles_ofInsertions, hperps]
  spot i := by simp only [spot, spots_ofInsertions, hspots]

lemma spotPrice_congr {t : Snapshot} (h : s.spotOracles.get? i = t.spotOracles.get? i) :
    s.spotPrice i = t.spotPrice i := by
  simp only [spotPrice, h]

/-- Only where there is no oracle is it missing; with one, there is a price or it is refused. -/
lemma spotPrice_eq_missing_iff (hi : i ≠ .quote) :
    s.spotPrice i = .error (.oracleMissing i) ↔ s.spotOracles.get? i = none := by
  rw [spotPrice, if_neg hi]
  cases s.spotOracles.get? i with
  | none => simp
  | some reading =>
    simp only [reduceCtorEq, iff_false]
    exact bind_ne_error (Refusal.guard_ne_error (.inr nofun)) fun _ _ => ok_ne_error

lemma spotOracles_lastOnly :
    (ofInsertions (lastOnly calls)).spotOracles.get? i = (spotsOf calls i).getLast?.bind Prod.snd := by
  rw [spotOracles_ofInsertions, spotsOf_lastOnly]
  rcases (spotsOf calls i).getLast? with _ | ⟨m, _ | oracle⟩ <;> rfl

/-- The last insertion of a spot market came without an oracle, and one before it with one. -/
def KeepsOracle (calls : List Insertion) (i : MarketIndex) : Prop :=
  i ≠ .quote ∧ (∃ m, (spotsOf calls i).getLast? = some (m, none)) ∧
    ∃ m oracle, (m, some oracle) ∈ spotsOf calls i

lemma spotPrice_lastOnly_iff :
    (ofInsertions calls).spotPrice i = (ofInsertions (lastOnly calls)).spotPrice i ↔
      ¬KeepsOracle calls i := by
  by_cases hi : i = .quote
  · simp [spotPrice, KeepsOracle, hi]
  rcases hlast : (spotsOf calls i).getLast? with _ | ⟨m, _ | oracle⟩
  -- never put in: there is no oracle on either side
  · have hnone : spotsOf calls i = [] := List.getLast?_eq_none_iff.mp hlast
    refine iff_of_true (spotPrice_congr ?_) (by simp [KeepsOracle, hlast])
    rw [spotOracles_lastOnly, spotOracles_ofInsertions, hnone]
    rfl
  -- put in last without an oracle: the last insertion alone gives no price, an earlier one may
  · have hmissing : (ofInsertions (lastOnly calls)).spotPrice i = .error (.oracleMissing i) := by
      rw [spotPrice_eq_missing_iff hi, spotOracles_lastOnly, hlast]
      rfl
    rw [hmissing, spotPrice_eq_missing_iff hi, spotOracles_ofInsertions, List.getLast?_eq_none_iff,
      List.filterMap_eq_nil_iff]
    constructor
    · rintro hnone ⟨-, -, m, oracle, hmem⟩
      cases hnone _ hmem
    · rintro hkeeps ⟨m', _ | oracle⟩ hmem
      · rfl
      · exact absurd ⟨hi, ⟨m, hlast⟩, m', oracle, hmem⟩ hkeeps
  -- put in last with an oracle, which is the one that both sides read
  · refine iff_of_true (spotPrice_congr ?_) (by simp [KeepsOracle, hlast])
    obtain ⟨front, hfront⟩ := List.getLast?_eq_some_iff.mp hlast
    rw [spotOracles_lastOnly, spotOracles_ofInsertions, hlast, hfront]
    simp

/-- **A snapshot depends on the last insertion of each market.** Look-ups of markets and of perp
oracles have the same answers if nothing but the last insertions is made, and the price of a spot
asset has unless an oracle is kept for it. Insertions of different markets can be exchanged. -/
theorem depends_on_last_insertions_iff (calls : List Insertion) :
    SameMarkets (ofInsertions calls) (ofInsertions (lastOnly calls)) ∧
      (∀ i, (ofInsertions calls).spotPrice i = (ofInsertions (lastOnly calls)).spotPrice i ↔
        ¬KeepsOracle calls i) ∧
      ∀ front a b rest, calls = front ++ a :: b :: rest → a.place ≠ b.place →
        SameMarkets (ofInsertions calls) (ofInsertions (front ++ b :: a :: rest)) ∧
          ∀ i, (ofInsertions calls).spotPrice i =
            (ofInsertions (front ++ b :: a :: rest)).spotPrice i := by
  refine ⟨sameMarkets_of_last (fun i => ?_) (fun i => ?_), fun i => spotPrice_lastOnly_iff, ?_⟩
  · rw [perpsOf_lastOnly]
    cases (perpsOf calls i).getLast? <;> rfl
  · rw [spotsOf_lastOnly]
    cases (spotsOf calls i).getLast? <;> rfl
  rintro front a b rest rfl hne
  have hperps : ∀ i, perpsOf (front ++ a :: b :: rest) i = perpsOf (front ++ b :: a :: rest) i :=
    fun i => filterMap_swap (fun c => c.isSome_perp? i) hne front rest
  have hspots : ∀ i, spotsOf (front ++ a :: b :: rest) i = spotsOf (front ++ b :: a :: rest) i :=
    fun i => filterMap_swap (fun c => c.isSome_spot? i) hne front rest
  refine ⟨sameMarkets_of_last (fun i => by rw [hperps]) fun i => by rw [hspots], fun i => ?_⟩
  exact spotPrice_congr (by rw [spotOracles_ofInsertions, spotOracles_ofInsertions, hspots])

/-- A spot market that is put in twice, with an oracle each time, and a perp market in between. -/
theorem depends_on_last_insertions_iff_relisted :
    let asset := SpotMarket.volatile ⟨1⟩ 9
    let first := Insertion.spot asset (some (.of (.ofRaw 21000000)))
    let perp := Insertion.perp .empty (.of (.ofRaw 7100000))
    let second := Insertion.spot asset (some (.of (.ofRaw 23500000)))
    first.place ≠ perp.place ∧
      SameMarkets (ofInsertions [first, perp, second]) (ofInsertions [perp, first, second]) ∧
      (ofInsertions [first, perp, second]).spotPrice ⟨1⟩ =
        (ofInsertions [perp, second]).spotPrice ⟨1⟩ := by
  intro asset first perp second
  have hne : first.place ≠ perp.place := nofun
  obtain ⟨-, hprice, hswap⟩ := depends_on_last_insertions_iff [first, perp, second]
  refine ⟨hne, (hswap [] first perp [second] rfl hne).1, (hprice ⟨1⟩).mpr ?_⟩
  rintro ⟨-, ⟨m, hlast⟩, -⟩
  cases hlast

/-- A volatile asset that is put in a second time, now without an oracle, keeps the price that it
had. With nothing but the second insertion it has none. -/
theorem dropped_oracle_is_kept :
    let asset := SpotMarket.volatile ⟨1⟩ 9
    let calls := [.spot asset (some (.of (.ofRaw 21000000))), .spot asset none]
    lastOnly calls = [.spot asset none] ∧
      (ofInsertions calls).spotPrice ⟨1⟩ = .ok (.ofRaw 21000000) ∧
      (ofInsertions (lastOnly calls)).spotPrice ⟨1⟩ = .error (.oracleMissing ⟨1⟩) :=
  ⟨rfl, rfl, rfl⟩

end Snapshot

end PerpExchange
