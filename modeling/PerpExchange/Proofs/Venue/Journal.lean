import PerpExchange.Journal
import PerpExchange.Proofs.Amm.Repeg

/-!
What the journal says of an operation is what the operation did.

A repeg is reported exactly if it was shortened, spreads exactly if they were scaled down, a fill
exactly if there was one, and a liquidation with the record that it wrote.
-/

namespace PerpExchange

namespace Amm

variable {a b : Amm} {oracle : OracleReading} {price : Price}

lemma eq_repegClamped_of_mem {e : Event} (h : e ∈ a.repegEvents oracle) :
    ∃ move affordable, e = .repegClamped a.spendable move affordable := by
  unfold repegEvents at h
  split_ifs at h
  · split at h
    · exact ⟨_, _, List.mem_singleton.mp h⟩
    · cases h
  · cases h

lemma eq_spreadsClamped_of_mem {e : Event} (h : e ∈ a.spreadEvents price) :
    ∃ before after, e = .spreadsClamped a.maxSpread before after := by
  unfold spreadEvents at h
  split at h
  · cases h
  · split_ifs at h
    · split at h
      · exact ⟨_, _, List.mem_singleton.mp h⟩
      · cases h
    · cases h

/-- The peg after a move: at least one unit. -/
def MovedBy (a b : Amm) (move : Peg) : Prop := b.peg.raw = max (a.peg.raw + move.raw) 1

lemma movedBy_of_applyMove {move : Peg} {cost : QuoteAmount}
    (h : a.applyMove price move cost = .ok b) : a.MovedBy b move := by
  obtain ⟨peg, budget, rfl, -, hpeg, -⟩ := applyMove_eq_ok.mp h
  exact hpeg

/-- **A repeg reports the move that it wanted and the one that it made**, if the two differ. -/
theorem repegEvents_exact (h : a.repeg oracle = .ok b) :
    (a.repegEvents oracle = [] ∧ b = a) ∨
      ∃ move, a.desiredMove oracle.price = .ok move ∧
        (a.repegEvents oracle = [] ∧ a.MovedBy b move ∨
          ∃ affordable, a.repegEvents oracle = [.repegClamped a.spendable move affordable] ∧
            a.MovedBy b affordable) := by
  unfold repeg at h
  split_ifs at h with hrepegs
  · right
    simp only [bind_eq_ok] at h
    obtain ⟨move, hmove, goal, hgoal, cost, hcost, h⟩ := h
    refine ⟨move, hmove, ?_⟩
    split_ifs at h with hshort
    · right
      simp only [bind_eq_ok] at h
      obtain ⟨affordable, haffordable, -, -, reduced, -, h⟩ := h
      refine ⟨affordable, ?_, movedBy_of_applyMove h⟩
      have hmoves : a.shortenedMove oracle = .ok (some (move, affordable)) := by
        simp only [shortenedMove, hmove, hgoal, hcost, haffordable, ok_bind, if_pos hshort]
        rfl
      simp [repegEvents, hrepegs, hmoves]
    · left
      refine ⟨?_, movedBy_of_applyMove h⟩
      have hmoves : a.shortenedMove oracle = .ok none := by
        simp only [shortenedMove, hmove, hgoal, hcost, ok_bind, if_neg hshort]
        rfl
      simp [repegEvents, hrepegs, hmoves]
  · left
    cases h
    simp [repegEvents, hrepegs]

/-- **Spreads are reported exactly if they were scaled down**, and then as they were and as they
are. Without a report they are as they were, or nothing. -/
theorem spreadEvents_exact {after : Spreads} (h : a.spreads price = .ok after) :
    ∃ before, a.widenedSpreads price = .ok before ∧
      (a.spreadEvents price = [.spreadsClamped a.maxSpread before after] ∨
        a.spreadEvents price = [] ∧ (after = before ∨ after = ⟨0, 0⟩)) := by
  obtain ⟨before, hbefore, hclamp⟩ := bind_eq_ok.mp h
  have hclamp : before.clamp a.maxSpread = .ok after := Failure.liftM_violation_eq_ok.mp hclamp
  refine ⟨before, hbefore, ?_⟩
  by_cases hscaled : before.isScaled a.maxSpread = true
  · left
    simp [spreadEvents, hbefore, hscaled, hclamp]
  · right
    refine ⟨by simp [spreadEvents, hbefore, hscaled], ?_⟩
    obtain ⟨total, htotal, hclamp⟩ := bind_eq_ok.mp hclamp
    have hsum : total.raw = before.long.raw + before.short.raw := Fixed.add_eq_ok.mp htotal
    split_ifs at hclamp with hover hzero
    · right
      cases hclamp
      rfl
    · refine absurd ?_ hscaled
      have hover : a.maxSpread.raw < total.raw := hover
      simp [Spreads.isScaled]
      omega
    · left
      cases hclamp
      rfl

end Amm

namespace PerpMarket

variable {m : PerpMarket} {order : Order} {oracle : OracleReading} {f : Fill}

lemma accepted_of_fill (h : m.fill order oracle = .ok (.filled f)) :
    0 < order.size.raw ∧ m.status = .active := by
  obtain ⟨_, hguard, h⟩ := bind_eq_ok.mp h
  refine ⟨by simpa using hguard, ?_⟩
  by_contra hstatus
  simp only [if_pos hstatus] at h
  cases h

/-- **A fill is reported exactly if there is one.** -/
theorem filled_mem_fillEvents_iff {direction : Direction} {market : MarketIndex} :
    .filled direction market f ∈ m.fillEvents order oracle ↔
      m.fill order oracle = .ok (.filled f) ∧ direction = order.direction ∧ market = m.index := by
  have hrepeg : .filled direction market f ∉ m.amm.repegEvents oracle := fun hmem => by
    obtain ⟨_, _, heq⟩ := Amm.eq_repegClamped_of_mem hmem
    cases heq
  constructor
  · intro h
    unfold fillEvents at h
    split_ifs at h
    · rcases List.mem_append.mp h with h | h
      · exact absurd h hrepeg
      · split at h
        · next heq =>
          cases List.mem_singleton.mp h
          exact ⟨heq, rfl, rfl⟩
        · cases h
    · cases h
  · rintro ⟨hfill, rfl, rfl⟩
    simp [fillEvents, accepted_of_fill hfill, hfill]

end PerpMarket

/-! ### Records -/

def Event.record? : Event → Option LiquidationRecord
  | .liquidated _ _ record => some record
  | _ => none

def reported (events : List Event) : List LiquidationRecord := events.filterMap Event.record?

@[simp] lemma reported_nil : reported [] = [] := rfl

@[simp] lemma reported_append (es fs : List Event) :
    reported (es ++ fs) = reported es ++ reported fs :=
  List.filterMap_append

@[simp] lemma reported_repegEvents (a : Amm) (oracle : OracleReading) :
    reported (a.repegEvents oracle) = [] :=
  List.filterMap_eq_nil_iff.mpr fun _ he => by
    obtain ⟨_, _, rfl⟩ := Amm.eq_repegClamped_of_mem he
    rfl

@[simp] lemma reported_spreadEvents (a : Amm) (price : Price) :
    reported (a.spreadEvents price) = [] :=
  List.filterMap_eq_nil_iff.mpr fun _ he => by
    obtain ⟨_, _, rfl⟩ := Amm.eq_spreadsClamped_of_mem he
    rfl

@[simp] lemma reported_fillEvents (m : PerpMarket) (order : Order) (oracle : OracleReading) :
    reported (m.fillEvents order oracle) = [] := by
  unfold PerpMarket.fillEvents
  split_ifs
  · rw [reported_append, reported_repegEvents]
    split <;> rfl
  · rfl

@[simp] lemma reported_priceEvents (m : PerpMarket) (oracle : OracleReading) :
    reported (m.priceEvents oracle) = [] := by
  have hbidAsk : reported (m.bidAskEvents oracle) = [] := by
    unfold PerpMarket.bidAskEvents
    split_ifs <;> simp
  unfold PerpMarket.priceEvents
  split_ifs <;> simp [hbidAsk]

def LiquidationOutcome.record? : LiquidationOutcome → Option LiquidationRecord
  | .liquidated _ record => some record
  | .none _ => Option.none

namespace Account

variable (a : Account) (liquidator : Liquidator) (s : Snapshot)

lemma reported_outcomeEvent (method : LiquidationMethod) (x : Except Failure LiquidationOutcome) :
    reported [a.outcomeEvent method x] = (x.toOption.bind LiquidationOutcome.record?).toList := by
  rcases x with failure | _ | _ <;> rfl

/-- **A takeover reports the record that it wrote**, and no other. -/
lemma reported_takeoverEvents (market : MarketIndex) (cap : BaseAmount) :
    reported (a.takeoverEvents liquidator market cap s) =
      ((a.liquidatePerp liquidator market cap s).toOption.bind
        LiquidationOutcome.record?).toList := by
  rw [takeoverEvents, reported_append, reported_outcomeEvent]
  split <;> rfl

lemma reported_settlementEvents (market asset : MarketIndex) (cap : QuoteAmount) :
    reported (a.settlementEvents liquidator market asset cap s) =
      ((a.liquidatePnl liquidator market asset cap s).toOption.bind
        LiquidationOutcome.record?).toList :=
  a.reported_outcomeEvent _ _

end Account

end PerpExchange
