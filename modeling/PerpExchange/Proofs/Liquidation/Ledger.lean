import PerpExchange.Proofs.Liquidation.Run

/-!
Liquidation records against the accounts that a run leaves.

Every record says what became of the positions that its request named: what it states is the exact
difference between the account before and the account after. The other positions stay as they are.
So over a run the ids of the records follow one another without a gap, and replaying the records
gives the positions that the run leaves.
-/

namespace PerpExchange

/-- No perp market charges a negative fee, and all interest indices are positive. -/
structure Snapshot.Sound (s : Snapshot) : Prop where
  fee_nonneg : ∀ {i m}, s.perp i = .ok m → 0 ≤ m.liquidatorFee.raw
  indexed : ∀ {i m}, s.spot i = .ok m → m.Indexed

namespace Snapshot

lemma Sound.empty : Snapshot.empty.Sound := ⟨nofun, nofun⟩

lemma Sound.pooled : Snapshot.pooled.Sound := by
  constructor
  · intro i m h
    simp only [perp, Snapshot.pooled, withSpot, withPerp, MarketTable.get?_insert] at h
    split_ifs at h
    · cases h
      decide
    · cases h
  · intro i m h side
    simp only [spot, Snapshot.pooled, withSpot, withPerp, MarketTable.get?_insert] at h
    split_ifs at h
    · cases h
      cases side <;> decide
    · cases h
      cases side <;> decide
    · cases h

end Snapshot

/-! ### What a record accounts for -/

/-- A takeover of the perp position `p`, which is `q` afterwards, that `r` accounts for. -/
structure TakeoverBooked (before after : Account) (market : MarketIndex) (cap : BaseAmount)
    (r : TakeoverRecord) (p q : PerpPosition) : Prop where
  market_eq : r.market = market
  perps : FirstReplaced (·.market == market) p q before.perps after.perps
  spots_eq : after.spots = before.spots
  keeps_market : q.market = p.market
  base_eq : q.base.raw = p.base.raw + r.base.raw
  quote_eq : q.quote.raw = p.quote.raw + r.quote.raw
  shrinks : |q.base.raw| < |p.base.raw|
  shrinks_le : |p.base.raw| - |q.base.raw| ≤ cap.raw
  keeps_side : q.base.raw = 0 ∨ q.base.raw.sign = p.base.raw.sign

/-- A settlement of the perp position `p` against the deposit `d`, which are `q` and `e` afterwards,
that `r` accounts for. -/
structure SettlementBooked (before after : Account) (market asset : MarketIndex)
    (r : SettlementRecord) (p q : PerpPosition) (d e : SpotPosition) : Prop where
  perpMarket_eq : r.perpMarket = market
  assetMarket_eq : r.assetMarket = asset
  perps : FirstReplaced (·.market == market) p q before.perps after.perps
  spots : FirstReplaced (·.market == asset) d e before.spots after.spots
  perp_frame : q = { p with quote := q.quote }
  quote_eq : q.quote.raw = p.quote.raw + r.pnl.raw
  pnl_pos : 0 < r.pnl.raw
  deposit_frame : e = { d with balance := e.balance }
  reduced : 0 ≤ e.balance.raw ∧ e.balance.raw < d.balance.raw

/-- What a record states of a request is what became of the positions that the request named. -/
def Booked (before after : Account) : LiquidationRequest → LiquidationKind → Prop
  | .takeover market cap, .takeover r => ∃ p q, TakeoverBooked before after market cap r p q
  | .settlement market asset _, .settlement r =>
    ∃ p q d e, SettlementBooked before after market asset r p q d e
  | _, _ => False

/-- Base and quote of a position. -/
def PerpPosition.legs (p : PerpPosition) : ℤ × ℤ := (p.base.raw, p.quote.raw)

/-- What a record adds to base and quote of the perp position in a market. -/
def LiquidationKind.moved (i : MarketIndex) : LiquidationKind → ℤ × ℤ
  | .takeover r => if r.market = i then (r.base.raw, r.quote.raw) else 0
  | .settlement r => if r.perpMarket = i then (0, r.pnl.raw) else 0

lemma TakeoverBooked.legs_eq {before after : Account} {market : MarketIndex} {cap : BaseAmount}
    {r : TakeoverRecord} {p q : PerpPosition} (h : TakeoverBooked before after market cap r p q) :
    q.legs = p.legs + (r.base.raw, r.quote.raw) :=
  Prod.ext h.base_eq h.quote_eq

lemma SettlementBooked.legs_eq {before after : Account} {market asset : MarketIndex}
    {r : SettlementRecord} {p q : PerpPosition} {d e : SpotPosition}
    (h : SettlementBooked before after market asset r p q d e) :
    q.legs = p.legs + (0, r.pnl.raw) :=
  Prod.ext (by rw [h.perp_frame]; exact (add_zero _).symm) h.quote_eq

/-- Replacing the position of one market changes what is found in that market alone. -/
lemma legs_of_replaced {before after : Account} {market i : MarketIndex}
    {found p q : PerpPosition} {change : ℤ × ℤ}
    (h : FirstReplaced (·.market == market) found q before.perps after.perps)
    (hmarket : q.market = found.market) (hlegs : q.legs = found.legs + change)
    (hp : before.perp? i = some p) :
    ∃ x, after.perp? i = some x ∧ x.legs = p.legs + if market = i then change else 0 := by
  obtain ⟨front, back, hbefore, hafter, hfound, hfront⟩ := h
  rw [beq_iff_eq] at hfound
  rw [hfound] at hmarket
  simp only [Account.perp?, hbefore, hafter, List.find?_append, List.find?_cons, hfound, hmarket]
    at hp ⊢
  by_cases hi : market = i
  · subst hi
    have hnone : front.find? (·.market == market) = none := List.find?_eq_none.mpr hfront
    simp only [hnone, beq_self_eq_true, Option.none_or, Option.some.injEq, if_true] at hp ⊢
    exact ⟨q, rfl, hp ▸ hlegs⟩
  · have hother : (market == i) = false := beq_eq_false_iff_ne.mpr hi
    simp only [hother] at hp ⊢
    exact ⟨p, hp, by rw [if_neg hi, add_zero]⟩

lemma Booked.perp? {before after : Account} {request : LiquidationRequest} {kind : LiquidationKind}
    {i : MarketIndex} {p : PerpPosition} (h : Booked before after request kind)
    (hp : before.perp? i = some p) :
    ∃ q, after.perp? i = some q ∧ q.legs = p.legs + kind.moved i := by
  cases request with
  | takeover market cap =>
    cases kind with
    | takeover r =>
      obtain ⟨found, q, h⟩ := h
      rw [LiquidationKind.moved, h.market_eq]
      exact legs_of_replaced h.perps h.keeps_market h.legs_eq hp
    | settlement r => exact h.elim
  | settlement market asset cap =>
    cases kind with
    | takeover r => exact h.elim
    | settlement r =>
      obtain ⟨found, q, d, e, h⟩ := h
      rw [LiquidationKind.moved, h.perpMarket_eq]
      exact legs_of_replaced h.perps (by rw [h.perp_frame]) h.legs_eq hp

/-- A step without a record leaves the account as it is. With one it uses up one id, and the record
agrees with what it did. -/
def LiquidationStep.Agrees (x : LiquidationStep) : Prop :=
  match x.record? with
  | none => x.after = x.before
  | some record =>
    x.before.Recorded x.after x.call.liquidator record ∧
      x.after.nextLiquidation.toNat = x.before.nextLiquidation.toNat + 1 ∧
      Booked x.before x.after x.call.request record.kind

variable {user after : Account} {market asset : MarketIndex} {s : Snapshot}
  {liquidator : Liquidator} {record : LiquidationRecord}

lemma Takeover.booked {t : Takeover} {cap : BaseAmount} {m : PerpMarket}
    (h : Planned user market cap s t m)
    (happly : t.apply user market liquidator = .ok (.liquidated after record)) :
    Booked user after (.takeover market cap) record.kind := by
  obtain ⟨after, position, record, houtcome, htaken⟩ := apply_eq_ok happly
  cases houtcome
  obtain ⟨-, base, hkind⟩ := recorded_of_apply happly
  obtain ⟨r, hr, hbase⟩ := htaken.kind_eq
  cases hkind.symm.trans hr
  obtain ⟨hbefore, hafter⟩ := h.base_eq htaken
  have hsize := h.size_pos
  have hsize_le := h.size_le
  have hsize_cap := h.size_le_cap
  have hleft : |position.base.raw| = |t.position.base.raw| - t.size.raw := by
    rw [hafter, Direction.abs_sign_mul, abs_of_nonneg (by omega)]
  rw [hkind]
  refine ⟨t.position, position, ?_⟩
  exact {
    market_eq := rfl
    perps := htaken.perps_eq ▸ firstReplaced_modifyFirst h.position_eq
    spots_eq := htaken.spots_eq
    keeps_market := htaken.market_eq
    base_eq := by rw [htaken.base_eq, hbase]; ring
    quote_eq := htaken.quote_eq
    shrinks := by omega
    shrinks_le := by omega
    keeps_side := by
      rcases hsize_le.eq_or_lt with hall | hpart
      · left
        rw [hafter, hall, sub_self, mul_zero]
      · right
        calc position.base.raw.sign = t.direction.sign := by
              rw [hafter, Direction.sign_sign_mul _ (by omega)]
          _ = t.position.base.raw.sign := by rw [hbefore, Direction.sign_sign_mul _ (by omega)] }

lemma Settlement.booked {t : Settlement} {cap loss pool value : QuoteAmount} {held : TokenAmount}
    {m : PerpMarket} (h : Planned user market asset cap s t m loss pool value held)
    (hs : s.Sound)
    (happly : t.apply user market asset liquidator = .ok (.liquidated after record)) :
    Booked user after (.settlement market asset cap) record.kind := by
  obtain ⟨after, debited, quote, record, houtcome, happlied⟩ := apply_eq_ok happly
  cases houtcome
  obtain ⟨hdeposit, -, -⟩ := Account.deposit?_eq_some.mp h.deposit_eq
  obtain ⟨hframe, hreduced⟩ :=
    h.balance_lowered happlied (hs.indexed h.bank_eq) (hs.fee_nonneg h.market_eq)
  rw [happlied.kind_eq]
  refine ⟨t.perp, { t.perp with quote }, t.deposit, debited, ?_⟩
  exact {
    perpMarket_eq := rfl
    assetMarket_eq := rfl
    perps := happlied.perps_eq ▸ firstReplaced_modifyFirst h.perp_eq
    spots := happlied.spots_eq ▸ firstReplaced_modifyFirst hdeposit
    perp_frame := rfl
    quote_eq := happlied.quote_eq
    pnl_pos := h.pnl_pos
    deposit_frame := hframe
    reduced := hreduced }

namespace LiquidationStep

lemma Agrees.cases {x : LiquidationStep} (h : x.Agrees) :
    (x.record? = none ∧ x.after = x.before) ∨
    ∃ record, x.record? = some record ∧ x.before.Recorded x.after x.call.liquidator record ∧
      x.after.nextLiquidation.toNat = x.before.nextLiquidation.toNat + 1 ∧
      Booked x.before x.after x.call.request record.kind := by
  unfold Agrees at h
  split at h
  · next hrecord => exact .inl ⟨hrecord, h⟩
  · next record hrecord => exact .inr ⟨record, hrecord, h⟩

lemma booked_of_result {x : LiquidationStep} (hs : x.call.snapshot.Sound)
    (h : x.result = .ok (.liquidated x.after record)) :
    Booked x.before x.after x.call.request record.kind := by
  obtain ⟨a, ⟨request, liquidator, s⟩⟩ := x
  cases request with
  | takeover market cap =>
    obtain ⟨t, m, hplanned, happly⟩ := Takeover.applied_of_liquidatePerp h
    exact Takeover.booked hplanned happly
  | settlement market asset cap =>
    obtain ⟨t, m, loss, pool, value, held, hplanned, happly⟩ := Settlement.applied_of_liquidatePnl h
    exact Settlement.booked hplanned hs happly

/-- Every step agrees with its record, as long as there are ids left. -/
lemma agrees (x : LiquidationStep) (hs : x.call.snapshot.Sound)
    (hid : x.before.nextLiquidation.toNat + 1 < UInt64.size) : x.Agrees := by
  unfold Agrees
  rcases x.result_cases with ⟨record, h, hrecord⟩ | ⟨hafter, hrecord⟩
  · obtain ⟨hrecorded, -⟩ := recorded_of_result h
    rw [hrecord]
    exact ⟨hrecorded, hrecorded.next_eq hid, booked_of_result hs h⟩
  · rw [hrecord]
    exact hafter

end LiquidationStep

/-! ### Runs -/

namespace Account

def records (a : Account) (calls : List LiquidationCall) : List LiquidationRecord :=
  (a.history calls).filterMap (·.record?)

lemma records_cons (a : Account) (call : LiquidationCall) (rest : List LiquidationCall) :
    a.records (call :: rest) = (LiquidationStep.record? ⟨a, call⟩).toList ++
      (LiquidationStep.after ⟨a, call⟩).records rest := by
  unfold records
  rw [history_cons]
  cases h : LiquidationStep.record? ⟨a, call⟩ with
  | none => rw [List.filterMap_cons_none h]; rfl
  | some record => rw [List.filterMap_cons_some h]; rfl

/-- Steps that agree with their records number these one after the other. -/
lemma ids_consecutive (a : Account) (calls : List LiquidationCall)
    (h : ∀ x ∈ a.history calls, x.Agrees) :
    (a.records calls).map (·.id.toNat) =
        List.range' a.nextLiquidation.toNat (a.records calls).length ∧
      (a.liquidateAll calls).nextLiquidation.toNat =
        a.nextLiquidation.toNat + (a.records calls).length := by
  induction calls generalizing a with
  | nil => exact ⟨rfl, rfl⟩
  | cons call rest ih =>
    rw [history_cons, List.forall_mem_cons] at h
    obtain ⟨hstep, hrest⟩ := h
    obtain ⟨hids, hnext⟩ := ih _ hrest
    rw [records_cons, liquidateAll_cons]
    rcases hstep.cases with ⟨hrecord, hafter⟩ | ⟨record, hrecord, hrecorded, hadvanced, -⟩
    · rw [hrecord]
      rw [hafter] at hids hnext ⊢
      exact ⟨hids, hnext⟩
    · dsimp only at hadvanced
      rw [hadvanced] at hids hnext
      rw [hrecord, Option.toList_some, List.singleton_append, List.map_cons, List.length_cons,
        List.range'_succ, hids, hrecorded.id_eq]
      exact ⟨rfl, by omega⟩

/-- What the records of a run add up to is what the run did to base and quote of a perp position. -/
lemma legs_of_history (a : Account) (calls : List LiquidationCall) {i : MarketIndex}
    {p : PerpPosition} (h : ∀ x ∈ a.history calls, x.Agrees) (hp : a.perp? i = some p) :
    ∃ q, (a.liquidateAll calls).perp? i = some q ∧
      q.legs = p.legs + ((a.records calls).map (·.kind.moved i)).sum := by
  induction calls generalizing a p with
  | nil => exact ⟨p, hp, (add_zero _).symm⟩
  | cons call rest ih =>
    rw [history_cons, List.forall_mem_cons] at h
    obtain ⟨hstep, hrest⟩ := h
    rw [records_cons, liquidateAll_cons]
    rcases hstep.cases with ⟨hrecord, hafter⟩ | ⟨record, hrecord, -, -, hbooked⟩
    · rw [hrecord]
      exact ih _ hrest (hafter ▸ hp)
    · obtain ⟨r, hr, hmoved⟩ := hbooked.perp? hp
      obtain ⟨q, hq, hlegs⟩ := ih _ hrest hr
      refine ⟨q, hq, ?_⟩
      rw [hlegs, hmoved, hrecord, Option.toList_some, List.singleton_append, List.map_cons,
        List.sum_cons, add_assoc]

lemma agrees_of_history (a : Account) (calls : List LiquidationCall)
    (hs : ∀ call ∈ calls, call.snapshot.Sound)
    (hids : ∀ x ∈ a.history calls, x.before.nextLiquidation.toNat + 1 < UInt64.size) :
    ∀ x ∈ a.history calls, x.Agrees := by
  intro x hx
  have hcall : x.call ∈ (a.history calls).map (·.call) := List.mem_map_of_mem hx
  rw [map_call_history] at hcall
  exact x.agrees (hs x.call hcall) (hids x hx)

/-- **Liquidation records agree with the accounts that they describe**, over every run and whatever
the markets are from call to call. Each record carries the next id and states what became of the
positions that were named; all else stays. So the ids of a run have no gap, and its records add up
to what it did to the perp positions. -/
theorem records_agree (a : Account) (calls : List LiquidationCall)
    (hs : ∀ call ∈ calls, call.snapshot.Sound)
    (hids : ∀ x ∈ a.history calls, x.before.nextLiquidation.toNat + 1 < UInt64.size) :
    (∀ x ∈ a.history calls, x.Agrees) ∧
      ((a.records calls).map (·.id.toNat) =
          List.range' a.nextLiquidation.toNat (a.records calls).length ∧
        (a.liquidateAll calls).nextLiquidation.toNat =
          a.nextLiquidation.toNat + (a.records calls).length) ∧
      ∀ i p, a.perp? i = some p → ∃ q, (a.liquidateAll calls).perp? i = some q ∧
        q.legs = p.legs + ((a.records calls).map (·.kind.moved i)).sum := by
  have hagrees := a.agrees_of_history calls hs hids
  exact ⟨hagrees, a.ids_consecutive calls hagrees, fun i p => a.legs_of_history calls hagrees⟩

/-- A settlement, a takeover that finds no market, and one that takes a part of the position. -/
def settledThenTaken : List LiquidationCall :=
  [⟨.settlement ⟨0⟩ ⟨1⟩ (.ofRaw 4000003), ⟨⟨0⟩, ⟨2⟩⟩, .pooled⟩,
    ⟨.takeover ⟨0⟩ Fixed.one, ⟨⟨1⟩, ⟨2⟩⟩, .empty⟩,
    ⟨.takeover ⟨0⟩ (.ofRaw 400000007), ⟨⟨2⟩, ⟨3⟩⟩, .pooled⟩]

theorem records_agree_settledThenTaken :
    (overdrawn.records settledThenTaken).map (·.id.toNat) = [1, 2] ∧
      (overdrawn.liquidateAll settledThenTaken).nextLiquidation.toNat = 3 ∧
      (∃ q, (overdrawn.liquidateAll settledThenTaken).perp? ⟨0⟩ = some q ∧
        q.legs = (2500000000, -45000000) + ((0, 4000003) + (-400000007, 3555000))) ∧
      ∀ x ∈ overdrawn.history settledThenTaken, x.Agrees := by
  have hs : ∀ call ∈ settledThenTaken, call.snapshot.Sound := by
    simp [settledThenTaken, Snapshot.Sound.pooled, Snapshot.Sound.empty]
  obtain ⟨hagrees, ⟨hids, hnext⟩, hlegs⟩ :=
    records_agree overdrawn settledThenTaken hs (by decide)
  exact ⟨hids, hnext, hlegs ⟨0⟩ _ rfl, hagrees⟩

end Account

end PerpExchange
