import PerpExchange.Market.Jit
import PerpExchange.Proofs.Amm.Quoting
import PerpExchange.Proofs.Position.Perp

/-!
What the pool takes of a maker's fill.

The size is the least of three bounds, each of which grows with the maker's size, brought down to
the step. It never exceeds the net inventory. The pool sizes its part without a look at the side of
the taker: it goes off the inventory against one side and onto it against the other.
-/

namespace PerpExchange.PerpMarket

variable {m : PerpMarket} {maker larger amount cap clamped r more : BaseAmount}
  {auction oracle : Price} {oracle? : Option Price} {taker : Direction} {wash : Bool}

/-- The percentage of what it is asked for that the pool is willing to take. -/
def jitPercent (m : PerpMarket) : ℤ := min (m.amm.jitIntensity.toNat : ℤ) 100

lemma jitPercent_nonneg : 0 ≤ m.jitPercent := by
  unfold jitPercent
  omega

lemma raw_clampJit (h : m.clampJit amount = .ok clamped) (hamount : 0 ≤ amount.raw) :
    clamped.raw = min (amount.raw * m.jitPercent / 100) |m.amm.netBase.raw| := by
  unfold clampJit at h
  split_ifs at h with hzero
  · cases h
    have hpercent : m.jitPercent = 0 := by simp [jitPercent, hzero]
    simp [hpercent]
  · simp only [bind_eq_ok, Fixed.mulInt_eq_ok, Fixed.divInt_eq_ok, Fixed.abs_eq_ok, pure_eq_ok] at h
    obtain ⟨product, hproduct, scaled, ⟨-, hscaled⟩, inventory, hinventory, rfl⟩ := h
    have hraw : product.raw = amount.raw * m.jitPercent := hproduct
    rw [Fixed.raw_min, hscaled, hinventory, hraw, Int.abs_eq_natAbs,
      Int.tdiv_eq_ediv_of_nonneg (mul_nonneg hamount jitPercent_nonneg)]

lemma raw_jitCap (h : jitCap maker wash = .ok cap) (hmaker : 0 ≤ maker.raw) :
    cap.raw = if wash then maker.raw / 2 / 4 else maker.raw / 2 := by
  simp only [jitCap, bind_eq_ok, Fixed.divInt_eq_ok] at h
  obtain ⟨half, ⟨-, hhalf⟩, h⟩ := h
  rw [Int.tdiv_eq_ediv_of_nonneg hmaker] at hhalf
  cases wash with
  | false =>
    cases h
    exact hhalf
  | true =>
    obtain ⟨-, hcap⟩ := Fixed.divInt_eq_ok.mp h
    rw [hcap, Int.tdiv_eq_ediv_of_nonneg (by omega), hhalf]
    rfl

/-- The pool is ready for all of a maker's size if its liquidity is imbalanced, else for a quarter. -/
def jitPart (m : PerpMarket) : ℤ :=
  match m.amm.openBidsAsks >>= fun (bids, asks) => isImbalanced bids asks with
  | .ok true => 1
  | _ => 4

lemma jitPart_cases (m : PerpMarket) : m.jitPart = 1 ∨ m.jitPart = 4 := by
  unfold jitPart
  split <;> simp

lemma raw_jitAppetite {appetite : BaseAmount} (h : m.jitAppetite maker = .ok appetite)
    (hmaker : 0 ≤ maker.raw) : appetite.raw = maker.raw / m.jitPart := by
  unfold jitAppetite at h
  unfold jitPart
  obtain ⟨⟨bids, asks⟩, hliquidity, h⟩ := bind_eq_ok.mp h
  obtain ⟨imbalanced, himbalanced, h⟩ := bind_eq_ok.mp h
  simp only [hliquidity, ok_bind, himbalanced]
  cases imbalanced with
  | true =>
    cases h
    rw [Int.ediv_one]
  | false =>
    obtain ⟨-, happetite⟩ := Fixed.divInt_eq_ok.mp h
    rw [happetite, Int.tdiv_eq_ediv_of_nonneg hmaker]

/-- What the pool takes of a maker's size, before it is brought down to the step: no more than its
share of the part that it is ready for, than its inventory and than half of the size, or an eighth
for a wash. -/
def jitTarget (m : PerpMarket) (maker : ℤ) (wash : Bool) : ℤ :=
  min (min (maker / m.jitPart * m.jitPercent / 100) |m.amm.netBase.raw|)
    (if wash then maker / 2 / 4 else maker / 2)

lemma jitTarget_nonneg {maker : ℤ} (hmaker : 0 ≤ maker) : 0 ≤ m.jitTarget maker wash := by
  have hpart := m.jitPart_cases
  have hready : 0 ≤ maker / m.jitPart := Int.ediv_nonneg hmaker (by omega)
  refine le_min (le_min ?_ (abs_nonneg _)) (by split_ifs <;> omega)
  exact Int.ediv_nonneg (mul_nonneg hready jitPercent_nonneg) (by norm_num)

lemma jitTarget_mono {maker larger : ℤ} (hle : maker ≤ larger) :
    m.jitTarget maker wash ≤ m.jitTarget larger wash := by
  have hpart := m.jitPart_cases
  have hpos : 0 < m.jitPart := by omega
  have hready : maker / m.jitPart * m.jitPercent ≤ larger / m.jitPart * m.jitPercent :=
    mul_le_mul_of_nonneg_right (Int.ediv_le_ediv hpos hle) jitPercent_nonneg
  refine min_le_min (min_le_min_right _ (Int.ediv_le_ediv (by norm_num) hready)) ?_
  split_ifs <;> omega

lemma raw_jitAmount (h : m.jitAmount maker auction (some oracle) taker = .ok r)
    (hmaker : 0 ≤ maker.raw) :
    r.raw = m.jitTarget maker.raw (isLikelyWash auction oracle taker) /
      m.amm.stepSize.raw * m.amm.stepSize.raw := by
  simp only [jitAmount, bind_eq_ok] at h
  obtain ⟨cap, hcap, appetite, happetite, clamped, hclamped, h⟩ := h
  have hraw := raw_jitAppetite happetite hmaker
  have hpart := m.jitPart_cases
  have hnonneg : 0 ≤ appetite.raw := hraw ▸ Int.ediv_nonneg hmaker (by omega)
  have htarget : (min clamped cap).raw =
      m.jitTarget maker.raw (isLikelyWash auction oracle taker) := by
    rw [Fixed.raw_min, raw_clampJit hclamped hnonneg, raw_jitCap hcap hmaker, hraw, jitTarget]
  rw [raw_standardize h (htarget ▸ jitTarget_nonneg hmaker), htarget]

lemma isLikelyWash_iff :
    isLikelyWash auction oracle taker = true ↔ taker.sign * (auction.raw - oracle.raw) < 0 := by
  cases taker <;> simp [isLikelyWash, Direction.sign, Fixed.lt_def]

/-- The bounds on what the pool takes of a maker's size. -/
structure JitBounds (m : PerpMarket) (maker : BaseAmount) (auction : Price) (oracle? : Option Price)
    (taker : Direction) (r : BaseAmount) : Prop where
  whole_steps : m.amm.stepSize.raw ∣ r.raw
  nonneg : 0 ≤ r.raw
  le_half : r.raw ≤ maker.raw / 2
  le_inventory : r.raw ≤ |m.amm.netBase.raw|
  le_share : r.raw ≤ maker.raw * min (m.amm.jitIntensity.toNat : ℤ) 100 / 100
  /-- The auction crosses the oracle on the wrong side: below it for a long, above for a short. -/
  le_eighth : ∀ oracle, oracle? = some oracle → taker.sign * (auction.raw - oracle.raw) < 0 →
    r.raw ≤ maker.raw / 2 / 4
  zero_of_no_oracle : oracle? = none → r.raw = 0

lemma jitBounds_of_no_oracle (hmaker : 0 ≤ maker.raw) : m.JitBounds maker auction none taker 0 where
  whole_steps := dvd_zero _
  nonneg := le_rfl
  le_half := by rw [Fixed.raw_zero]; omega
  le_inventory := abs_nonneg _
  le_share := Int.ediv_nonneg (mul_nonneg hmaker jitPercent_nonneg) (by norm_num)
  le_eighth := fun _ hprice => nomatch hprice
  zero_of_no_oracle := fun _ => rfl

lemma jitBounds_of_jitAmount (hstep : 0 < m.amm.stepSize.raw) (hmaker : 0 ≤ maker.raw)
    (h : m.jitAmount maker auction oracle? taker = .ok r) :
    m.JitBounds maker auction oracle? taker r := by
  rcases oracle? with _ | oracle
  · cases h
    exact jitBounds_of_no_oracle hmaker
  have hraw := raw_jitAmount h hmaker
  have htarget_nonneg : 0 ≤ m.jitTarget maker.raw (isLikelyWash auction oracle taker) :=
    jitTarget_nonneg hmaker
  have hle : r.raw ≤ m.jitTarget maker.raw (isLikelyWash auction oracle taker) :=
    hraw ▸ Int.ediv_mul_le _ hstep.ne'
  rw [jitTarget, le_min_iff, le_min_iff] at hle
  obtain ⟨⟨hshare, hinventory⟩, hcap⟩ := hle
  exact {
    whole_steps := hraw ▸ dvd_mul_left _ _
    nonneg := hraw ▸ mul_nonneg (Int.ediv_nonneg htarget_nonneg hstep.le) hstep.le
    le_half := by split_ifs at hcap <;> omega
    le_inventory := hinventory
    le_share := by
      -- the part that the pool is ready for is no more than the whole
      refine hshare.trans (Int.ediv_le_ediv (by norm_num) ?_)
      refine mul_le_mul_of_nonneg_right ?_ jitPercent_nonneg
      obtain hpart | hpart := m.jitPart_cases <;> rw [hpart] <;> omega
    le_eighth := fun price hprice hwrong => by
      cases hprice
      rwa [if_pos (isLikelyWash_iff.mpr hwrong)] at hcap
    zero_of_no_oracle := nofun }

lemma jitAmount_mono (hstep : 0 < m.amm.stepSize.raw) (hmaker : 0 ≤ maker.raw)
    (h : m.jitAmount maker auction oracle? taker = .ok r)
    (h' : m.jitAmount larger auction oracle? taker = .ok more) (hle : maker ≤ larger) :
    r ≤ more := by
  rw [Fixed.le_def]
  cases oracle? with
  | none =>
    cases h
    cases h'
    exact le_rfl
  | some oracle =>
    rw [raw_jitAmount h hmaker, raw_jitAmount h' (hmaker.trans hle)]
    exact mul_le_mul_of_nonneg_right (Int.ediv_le_ediv hstep (jitTarget_mono hle)) hstep.le

/-- **The pool takes whole steps within its bounds**, and no less of a larger size. It takes at most
half of the maker's size, an eighth if the auction crosses the oracle on the wrong side, and nothing
without an oracle. Neither its share nor its inventory is exceeded. -/
theorem jitAmount_bounded (hstep : 0 < m.amm.stepSize.raw) (hmaker : 0 ≤ maker.raw)
    (h : m.jitAmount maker auction oracle? taker = .ok r) :
    m.JitBounds maker auction oracle? taker r ∧
      ∀ larger more, maker ≤ larger → m.jitAmount larger auction oracle? taker = .ok more →
        r ≤ more :=
  ⟨jitBounds_of_jitAmount hstep hmaker h,
    fun _ _ hle h' => jitAmount_mono hstep hmaker h h' hle⟩

/-- A pool that joins with all it is asked for. Users are net long against it. -/
def netLong : PerpMarket :=
  new ⟨0⟩
    { Amm.balanced (.ofInt 75000000000) Fixed.one with
      netBase := .ofRaw 800000000000
      jitIntensity := 100 }

/-- A long who pays less than the oracle price looks like a wash. -/
theorem jitAmount_bounded_wash :
    ∃ r more,
      netLong.jitAmount (.ofRaw 99999999999) (.ofRaw 990000) (some Fixed.one) .long = .ok r ∧
      netLong.jitAmount (.ofRaw 100000000000) (.ofRaw 990000) (some Fixed.one) .long = .ok more ∧
      r.raw = 12499999999 ∧ r.raw ≤ (99999999999 : ℤ) / 2 / 4 ∧ r ≤ more := by
  obtain ⟨r, hr, hraw⟩ : ∃ r, netLong.jitAmount (.ofRaw 99999999999) (.ofRaw 990000)
      (some Fixed.one) .long = .ok r ∧ r.raw = 12499999999 := by decide +kernel
  obtain ⟨more, hmore, -⟩ : ∃ r, netLong.jitAmount (.ofRaw 100000000000) (.ofRaw 990000)
      (some Fixed.one) .long = .ok r ∧ r.raw = 12500000000 := by decide +kernel
  obtain ⟨hbounds, hmono⟩ := jitAmount_bounded (by decide) (by decide) hr
  exact ⟨r, more, hr, hmore, hraw, hbounds.le_eighth _ rfl (by decide),
    hmono _ more (by decide) hmore⟩

/-! ### The inventory after the fill -/

/-- A size that is no larger than the inventory goes off it on the far side and onto it on the near
one. -/
lemma abs_add_sign_mul (taker : Direction) {net size : ℤ} (hsize : 0 ≤ size) (hle : size ≤ |net|) :
    |net + taker.sign * size| =
      if 0 < taker.sign * net then |net| + size else |net| - size := by
  rw [Int.abs_eq_natAbs] at hle ⊢
  rw [Int.abs_eq_natAbs]
  cases taker with
  | long => simp only [Direction.sign]; split_ifs <;> omega
  | short => simp only [Direction.sign]; split_ifs <;> omega

/-- What it takes for the pool to join: a price to go by, and a step that fits into each of the
bounds on its part. The side of the taker only matters for the cap. -/
structure JitJoins (m : PerpMarket) (maker : BaseAmount) (auction : Price) (oracle? : Option Price)
    (taker : Direction) : Prop where
  step_le_cap : ∃ oracle, oracle? = some oracle ∧ m.amm.stepSize.raw ≤
    if taker.sign * (auction.raw - oracle.raw) < 0 then maker.raw / 2 / 4 else maker.raw / 2
  step_le_share : m.amm.stepSize.raw ≤ maker.raw / m.jitPart * m.jitPercent / 100
  step_le_inventory : m.amm.stepSize.raw ≤ |m.amm.netBase.raw|

lemma jitJoins_iff_step_le_target :
    m.JitJoins maker auction (some oracle) taker ↔
      m.amm.stepSize.raw ≤ m.jitTarget maker.raw (isLikelyWash auction oracle taker) := by
  simp only [jitTarget, le_min_iff, isLikelyWash_iff]
  constructor
  · rintro ⟨⟨price, hprice, hcap⟩, hshare, hinventory⟩
    cases hprice
    exact ⟨⟨hshare, hinventory⟩, hcap⟩
  · rintro ⟨⟨hshare, hinventory⟩, hcap⟩
    exact ⟨⟨oracle, rfl, hcap⟩, hshare, hinventory⟩

/-- The pool takes something exactly if it joins. -/
lemma jitAmount_ne_zero_iff (hstep : 0 < m.amm.stepSize.raw) (hmaker : 0 ≤ maker.raw)
    (h : m.jitAmount maker auction oracle? taker = .ok r) :
    r.raw ≠ 0 ↔ m.JitJoins maker auction oracle? taker := by
  cases oracle? with
  | none =>
    cases h
    exact ⟨fun hne => absurd rfl hne, fun hjoins => by simpa using hjoins.step_le_cap⟩
  | some oracle =>
    have htarget : 0 ≤ m.jitTarget maker.raw (isLikelyWash auction oracle taker) :=
      jitTarget_nonneg hmaker
    have hsteps := Int.ediv_nonneg htarget hstep.le
    have hone := Int.le_ediv_iff_mul_le (a := 1) hstep
      (b := m.jitTarget maker.raw (isLikelyWash auction oracle taker))
    rw [one_mul] at hone
    rw [jitJoins_iff_step_le_target, raw_jitAmount h hmaker, ← hone, mul_ne_zero_iff]
    omega

/-- **What the pool's part does to its inventory** is decided by the side of the taker, which the
pool does not look at. Against a taker on the side that users are net on, the inventory grows by the
whole part; against one on the other side it shrinks by it. There is a part exactly if the pool
joins. -/
theorem jit_reduces_inventory_iff (hstep : 0 < m.amm.stepSize.raw) (hmaker : 0 ≤ maker.raw)
    (h : m.jitAmount maker auction oracle? taker = .ok r) :
    (|m.amm.netBase.raw + taker.sign * r.raw| ≤ |m.amm.netBase.raw| ↔
        taker.sign * m.amm.netBase.raw ≤ 0 ∨ r.raw = 0) ∧
      |m.amm.netBase.raw + taker.sign * r.raw| =
        (if 0 < taker.sign * m.amm.netBase.raw then |m.amm.netBase.raw| + r.raw
          else |m.amm.netBase.raw| - r.raw) ∧
      (r.raw ≠ 0 ↔ m.JitJoins maker auction oracle? taker) := by
  have hbounds := jitBounds_of_jitAmount hstep hmaker h
  have hmoved := abs_add_sign_mul taker hbounds.nonneg hbounds.le_inventory
  refine ⟨?_, hmoved, jitAmount_ne_zero_iff hstep hmaker h⟩
  rw [hmoved]
  have := hbounds.nonneg
  split_ifs <;> omega

/-- A short who sells to users who are net long. The pool joins and takes a quarter. -/
theorem jit_reduces_inventory_iff_short :
    ∃ r, netLong.jitAmount (.ofRaw 100000000000) Fixed.one (some Fixed.one) .short = .ok r ∧
      r.raw = 25000000000 ∧
      |netLong.amm.netBase.raw + Direction.short.sign * r.raw| ≤ |netLong.amm.netBase.raw| ∧
      netLong.JitJoins (.ofRaw 100000000000) Fixed.one (some Fixed.one) .short := by
  obtain ⟨r, hr, hraw⟩ : ∃ r, netLong.jitAmount (.ofRaw 100000000000) Fixed.one (some Fixed.one)
      .short = .ok r ∧ r.raw = 25000000000 := by decide +kernel
  obtain ⟨hreduces, -, hjoins⟩ := jit_reduces_inventory_iff (by decide) (by decide) hr
  exact ⟨r, hr, hraw, hreduces.mpr (.inl (by decide)), hjoins.mp (by omega)⟩

/-- A long who buys as users did before: the pool joins all the same, and its inventory grows. -/
theorem jit_grows_inventory :
    0 < netLong.amm.stepSize.raw ∧
      ∃ r, netLong.jitAmount (.ofRaw 100000000000) Fixed.one (some Fixed.one) .long = .ok r ∧
        r.raw = 25000000000 ∧
        ¬|netLong.amm.netBase.raw + Direction.long.sign * r.raw| ≤ |netLong.amm.netBase.raw| := by
  obtain ⟨r, hr, hraw⟩ : ∃ r, netLong.jitAmount (.ofRaw 100000000000) Fixed.one (some Fixed.one)
      .long = .ok r ∧ r.raw = 25000000000 := by decide +kernel
  refine ⟨by decide, r, hr, hraw, ?_⟩
  rw [hraw]
  decide

end PerpExchange.PerpMarket
