import Mathlib.Algebra.BigOperators.Group.List.Basic
import PerpExchange.Proofs.Position.Perp

/-!
The accounts of a position over runs of fills.

A fill either adds to the cost basis, releases a share of it, or splits its own quote between the
base that it closes and the base that it opens. Whichever share is rounded, the two parts add up to
the whole, so the cash flows of a position stay its cost basis and the pnl it has realized. A share
never exceeds the amount it is taken from, so the cost basis keeps the sign of its side.
-/

namespace PerpExchange

lemma Rounding.tdiv_share_bounds {x n d : ℤ} (hn : 0 ≤ n) (hle : n ≤ d) (hd : 0 < d) :
    (0 ≤ x → 0 ≤ (x * n).tdiv d ∧ (x * n).tdiv d ≤ x) ∧
      (x ≤ 0 → x ≤ (x * n).tdiv d ∧ (x * n).tdiv d ≤ 0) := by
  have hshare {y : ℤ} (hy : 0 ≤ y) : 0 ≤ (y * n).tdiv d ∧ (y * n).tdiv d ≤ y := by
    have hyn : 0 ≤ y * n := mul_nonneg hy hn
    refine ⟨Int.tdiv_nonneg hyn hd.le, ?_⟩
    rw [Int.tdiv_eq_ediv_of_nonneg hyn]
    exact Int.ediv_le_of_le_mul hd (mul_le_mul_of_nonneg_left hle hy)
  refine ⟨hshare, fun hx => ?_⟩
  have hneg := hshare (neg_nonneg.mpr hx)
  rw [neg_mul, Int.neg_tdiv] at hneg
  omega

namespace Int128

variable {m n : Int128} {x : ℤ}

/-- The least number, whose size is not a size, is a share of nothing in range but zero. -/
lemma eq_zero_of_fits_mul_least (hm : m.raw = -2 ^ 127) (hx : x ≤ 0)
    (hfits : Fits (x * m.wrappingAbs)) : x = 0 := by
  obtain ⟨-, hsize⟩ | ⟨hne, -⟩ := m.wrappingAbs_cases
  · obtain ⟨-, hhigh⟩ := hfits
    rw [hsize] at hhigh
    omega
  · exact absurd hm hne

lemma share_bounds (hn : n.raw ≠ 0) (hle : m.wrappingAbs ≤ n.wrappingAbs)
    (hfits : Fits (x * m.wrappingAbs)) :
    (0 ≤ m.raw → 0 ≤ x → 0 ≤ (x * m.wrappingAbs).tdiv n.wrappingAbs ∧
        (x * m.wrappingAbs).tdiv n.wrappingAbs ≤ x) ∧
      (x ≤ 0 → x ≤ (x * m.wrappingAbs).tdiv n.wrappingAbs ∧
        (x * m.wrappingAbs).tdiv n.wrappingAbs ≤ 0) := by
  rcases m.wrappingAbs_cases with ⟨hleast, -⟩ | ⟨-, hm⟩
  · refine ⟨fun hpos => by omega, fun hx => ?_⟩
    rw [eq_zero_of_fits_mul_least hleast hx hfits]
    simp
  · have hpos : 0 < n.wrappingAbs := by
      rcases n.wrappingAbs_cases with ⟨-, hsize⟩ | ⟨-, hsize⟩ <;> omega
    obtain ⟨hup, hdown⟩ := Rounding.tdiv_share_bounds (x := x) (by omega) hle hpos
    exact ⟨fun _ => hup, hdown⟩

end Int128

/-- Base is paid for: whoever takes it pays quote, and whoever gives it is paid. -/
structure PositionDelta.Paid (delta : PositionDelta) : Prop where
  bought : 0 < delta.base.raw → delta.quote.raw ≤ 0
  sold : delta.base.raw < 0 → 0 ≤ delta.quote.raw

namespace PerpPosition

variable {p : PerpPosition} {delta : PositionDelta} {u : PositionUpdate}

/-! ### One fill -/

/-- A fill against the side of the position. -/
def OpposedBy (p : PerpPosition) (delta : PositionDelta) : Prop :=
  0 < p.base.raw ∧ delta.base.raw < 0 ∨ p.base.raw < 0 ∧ 0 < delta.base.raw

/-- The share of the cost basis that a fill of less than the position releases. -/
def releasedEntry (p : PerpPosition) (delta : PositionDelta) : ℤ :=
  (p.entry.raw * delta.base.wrappingAbs).tdiv p.base.wrappingAbs

/-- The share of its quote that a fill of more than the position closes with. -/
def closingQuote (p : PerpPosition) (delta : PositionDelta) : ℤ :=
  (delta.quote.raw * p.base.wrappingAbs).tdiv delta.base.wrappingAbs

/-- The cost basis that a fill leaves, and the pnl that it realizes. -/
inductive Settled (p : PerpPosition) (delta : PositionDelta) : ℤ → ℤ → Prop where
  | added (hside : ¬p.OpposedBy delta) : Settled p delta (p.entry.raw + delta.quote.raw) 0
  | reduced (hside : p.OpposedBy delta) (hsize : delta.base.wrappingAbs ≤ p.base.wrappingAbs)
      (hfits : Fits (p.entry.raw * delta.base.wrappingAbs)) :
    Settled p delta (p.entry.raw - p.releasedEntry delta)
      (delta.quote.raw + p.releasedEntry delta)
  | flipped (hside : p.OpposedBy delta) (hsize : p.base.wrappingAbs < delta.base.wrappingAbs)
      (hfits : Fits (delta.quote.raw * p.base.wrappingAbs)) :
    Settled p delta (delta.quote.raw - p.closingQuote delta)
      (p.closingQuote delta + p.entry.raw)

/-- Which side and how large a fill is against the position, by the change it makes. -/
lemma changeBy_spec (p : PerpPosition) (hbase : delta.base.raw ≠ 0) :
    match p.changeBy delta with
    | .open | .increase => ¬p.OpposedBy delta
    | .reduce | .close =>
      p.OpposedBy delta ∧ delta.base.wrappingAbs ≤ p.base.wrappingAbs
    | .flip => p.OpposedBy delta ∧ p.base.wrappingAbs < delta.base.wrappingAbs := by
  have hsigns : p.base.raw ≠ 0 → (p.base.raw.sign ≠ delta.base.raw.sign ↔ p.OpposedBy delta) := by
    intro hopen
    unfold OpposedBy
    rcases hopen.lt_or_gt with hp | hp <;> rcases hbase.lt_or_gt with hd | hd <;>
      simp [Int.sign_eq_neg_one_of_neg, Int.sign_eq_one_of_pos, hp, hd, hp.not_gt, hd.not_gt]
  unfold changeBy
  split_ifs with hflat hsign hless hsame
  · unfold OpposedBy
    omega
  · exact fun hside => (hsigns hflat).mpr hside hsign
  · exact ⟨(hsigns hflat).mp hsign, hless.le⟩
  · exact ⟨(hsigns hflat).mp hsign, hsame.le⟩
  · exact ⟨(hsigns hflat).mp hsign, by omega⟩

lemma settled_of_settle {entry realized : QuoteAmount}
    (h : p.settle delta = .ok (entry, realized)) (hbase : delta.base.raw ≠ 0) :
    Settled p delta entry.raw realized.raw := by
  have hspec := p.changeBy_spec hbase
  unfold settle at h
  cases hchange : p.changeBy delta with
  | «open» | increase =>
    simp only [hchange, bind_eq_ok, Fixed.add_eq_ok, pure_eq_ok, Prod.mk.injEq] at h hspec
    obtain ⟨_, hentry, rfl, rfl⟩ := h
    rw [hentry]
    exact .added hspec
  | reduce | close =>
    simp only [hchange, bind_eq_ok, Fixed.mulInt_eq_ok, Fixed.divInt_eq_ok, Fixed.sub_eq_ok,
      Fixed.add_eq_ok, pure_eq_ok, Prod.mk.injEq] at h hspec
    obtain ⟨share, hshare, closed, ⟨-, hclosed⟩, _, hentry, _, hrealized, rfl, rfl⟩ := h
    rw [hentry, hrealized, hclosed, hshare]
    exact .reduced hspec.1 hspec.2 (hshare ▸ share.fits)
  | flip =>
    simp only [hchange, bind_eq_ok, Fixed.mulInt_eq_ok, Fixed.divInt_eq_ok, Fixed.sub_eq_ok,
      Fixed.add_eq_ok, pure_eq_ok, Prod.mk.injEq] at h hspec
    obtain ⟨share, hshare, closing, ⟨-, hclosing⟩, _, hentry, _, hrealized, rfl, rfl⟩ := h
    rw [hentry, hrealized, hclosing, hshare]
    exact .flipped hspec.1 hspec.2 (hshare ▸ share.fits)

namespace Settled

variable {entry realized : ℤ}

/-- No quote is lost or counted twice, whichever share was rounded. -/
lemma conserves (h : Settled p delta entry realized) :
    entry + realized = p.entry.raw + delta.quote.raw := by
  cases h with
  | added => ring
  | reduced => ring
  | flipped => ring

lemma entry_of_flat (h : Settled p delta entry realized) (hbase : delta.base.raw ≠ 0)
    (hflat : p.base.raw + delta.base.raw = 0) : entry = 0 := by
  obtain ⟨hsize, hsize'⟩ := Int128.wrappingAbs_of_add_eq_zero hflat
  cases h with
  | added hside =>
    unfold OpposedBy at hside
    omega
  | reduced =>
    rw [releasedEntry, hsize, hsize', Int.mul_tdiv_cancel _ (by omega), sub_self]
  | flipped _ hmore => omega

end Settled

lemma settled_of_apply (h : p.apply delta = .ok u) (hbase : delta.base.raw ≠ 0) :
    Settled p delta u.position.entry.raw u.realizedPnl.raw := by
  simp only [apply, bind_eq_ok, Fixed.add_eq_ok, pure_eq_ok] at h
  obtain ⟨⟨entry, realized⟩, hsettle, base, hnew, quote, -, rfl⟩ := h
  have hsettled := settled_of_settle hsettle hbase
  dsimp only
  split_ifs with hflat
  · have hzero := hsettled.entry_of_flat hbase (by omega)
    rwa [hzero] at hsettled
  · exact hsettled

lemma entry_of_apply_flat (h : p.apply delta = .ok u) (hflat : u.position.base.raw = 0) :
    u.position.entry.raw = 0 := by
  simp only [apply, bind_eq_ok, pure_eq_ok] at h
  obtain ⟨_, -, base, -, quote, -, rfl⟩ := h
  dsimp only at hflat ⊢
  rw [if_pos hflat, Fixed.raw_zero]

/-- A fill moves the cash flows by the change of the cost basis and by the pnl that it realizes. -/
lemma apply_conserves (h : p.apply delta = .ok u) (hbase : delta.base.raw ≠ 0) :
    u.position.quote.raw - u.position.entry.raw =
      p.quote.raw - p.entry.raw + u.realizedPnl.raw := by
  have hsettled := (settled_of_apply h hbase).conserves
  obtain ⟨-, hquote⟩ := apply_eq_ok h
  omega

/-! ### The sign of the cost basis -/

/-- A cost basis on the right side: a long has paid for its base, a short was paid for its, and
without base there is none. -/
structure Costed (p : PerpPosition) : Prop where
  long : 0 < p.base.raw → p.entry.raw ≤ 0
  short : p.base.raw < 0 → 0 ≤ p.entry.raw
  flat : p.base.raw = 0 → p.entry.raw = 0

lemma Settled.sign {entry realized : ℤ} (h : Settled p delta entry realized)
    (hbase : delta.base.raw ≠ 0) (hp : p.Costed) (hdelta : delta.Paid) :
    (0 < p.base.raw + delta.base.raw → entry ≤ 0) ∧
      (p.base.raw + delta.base.raw < 0 → 0 ≤ entry) := by
  obtain ⟨hlong, hshort, hflat⟩ := hp
  obtain ⟨hbought, hsold⟩ := hdelta
  have hold := p.base.wrappingAbs_cases
  have hnew := delta.base.wrappingAbs_cases
  cases h with
  | added hside =>
    unfold OpposedBy at hside
    omega
  | reduced hside hsize hfits =>
    unfold OpposedBy at hside
    obtain ⟨hpos, hneg⟩ := Int128.share_bounds (by omega) hsize hfits
    have hleast := fun h hle => Int128.eq_zero_of_fits_mul_least h hle hfits
    rw [releasedEntry]
    omega
  | flipped hside hsize hfits =>
    unfold OpposedBy at hside
    obtain ⟨hpos, hneg⟩ := Int128.share_bounds hbase hsize.le hfits
    have hleast := fun h hle => Int128.eq_zero_of_fits_mul_least h hle hfits
    rw [closingQuote]
    omega

lemma Costed.apply (hp : p.Costed) (h : p.apply delta = .ok u) (hbase : delta.base.raw ≠ 0)
    (hdelta : delta.Paid) : u.position.Costed := by
  obtain ⟨hnew, -⟩ := apply_eq_ok h
  obtain ⟨hlong, hshort⟩ := (settled_of_apply h hbase).sign hbase hp hdelta
  exact {
    long := fun hside => hlong (hnew ▸ hside)
    short := fun hside => hshort (hnew ▸ hside)
    flat := entry_of_apply_flat h }

/-! ### Runs -/

/-- The updates of a run of fills, each on the position that the one before it left. -/
def applyAll (p : PerpPosition) : List PositionDelta → Except Violation (List PositionUpdate)
  | [] => pure []
  | delta :: rest => do
    let update ← p.apply delta
    let later ← update.position.applyAll rest
    pure (update :: later)

def realized (updates : List PositionUpdate) : ℤ := (updates.map (·.realizedPnl.raw)).sum

lemma applyAll_cons_eq_ok {rest : List PositionDelta} {updates : List PositionUpdate} :
    p.applyAll (delta :: rest) = .ok updates ↔
      ∃ u later, p.apply delta = .ok u ∧ u.position.applyAll rest = .ok later ∧
        u :: later = updates := by
  simp only [applyAll, bind_eq_ok, pure_eq_ok]
  constructor
  · rintro ⟨u, hu, later, hlater, h⟩
    exact ⟨u, later, hu, hlater, h⟩
  · rintro ⟨u, later, hu, hlater, h⟩
    exact ⟨u, hu, later, hlater, h⟩

lemma applyAll_conserves {deltas : List PositionDelta} {updates earlier later : List PositionUpdate}
    (h : p.applyAll deltas = .ok updates) (hbase : ∀ delta ∈ deltas, delta.base.raw ≠ 0)
    (hupdates : updates = earlier ++ u :: later) :
    u.position.quote.raw - u.position.entry.raw =
        p.quote.raw - p.entry.raw + realized (earlier ++ [u]) ∧
      (u.position.base.raw = 0 → u.position.entry.raw = 0) := by
  induction deltas generalizing p updates earlier with
  | nil =>
    cases h
    simp at hupdates
  | cons delta rest ih =>
    obtain ⟨first, others, hfirst, hothers, rfl⟩ := applyAll_cons_eq_ok.mp h
    obtain ⟨hdelta, hrest⟩ := List.forall_mem_cons.mp hbase
    have hstep := apply_conserves hfirst hdelta
    cases earlier with
    | nil =>
      cases hupdates
      exact ⟨by simpa [realized] using hstep, entry_of_apply_flat hfirst⟩
    | cons e earlier =>
      cases hupdates
      obtain ⟨hsum, hflat⟩ := ih hothers hrest rfl
      refine ⟨?_, hflat⟩
      rw [hsum, hstep]
      simp only [realized, List.cons_append, List.map_cons, List.sum_cons]
      ring

lemma applyAll_costed {deltas : List PositionDelta} {updates : List PositionUpdate}
    (hp : p.Costed) (h : p.applyAll deltas = .ok updates)
    (hdeltas : ∀ delta ∈ deltas, delta.base.raw ≠ 0 ∧ delta.Paid) :
    ∀ u ∈ updates, u.position.Costed := by
  induction deltas generalizing p updates with
  | nil =>
    cases h
    exact fun u hu => absurd hu List.not_mem_nil
  | cons delta rest ih =>
    obtain ⟨first, others, hfirst, hothers, rfl⟩ := applyAll_cons_eq_ok.mp h
    obtain ⟨⟨hbase, hpaid⟩, hrest⟩ := List.forall_mem_cons.mp hdeltas
    have hnext := hp.apply hfirst hbase hpaid
    exact List.forall_mem_cons.mpr ⟨hnext, ih hnext hothers hrest⟩

/-- **The accounts of a position add up after every fill of a run**: its cash flows are its cost
basis, what it started with on top of that, and all pnl realized so far; nothing stays in the cost
basis of a flat position. Where base is always paid for, the cost basis of a long is never positive
and that of a short never negative. -/
theorem applyAll_accounts {deltas : List PositionDelta} {updates : List PositionUpdate} {r : ℤ}
    (hstart : p.quote.raw = p.entry.raw + r) (hbase : ∀ delta ∈ deltas, delta.base.raw ≠ 0)
    (h : p.applyAll deltas = .ok updates) :
    (∀ earlier u later, updates = earlier ++ u :: later →
      u.position.quote.raw = u.position.entry.raw + r + realized (earlier ++ [u]) ∧
        (u.position.base.raw = 0 → u.position.entry.raw = 0)) ∧
    ((∀ delta ∈ deltas, delta.Paid) → p.Costed → ∀ u ∈ updates,
      (0 < u.position.base.raw → u.position.entry.raw ≤ 0) ∧
        (u.position.base.raw < 0 → 0 ≤ u.position.entry.raw)) := by
  constructor
  · intro earlier u later hupdates
    obtain ⟨hsum, hflat⟩ := applyAll_conserves h hbase hupdates
    exact ⟨by omega, hflat⟩
  · intro hpaid hp u hu
    have hcosted := applyAll_costed hp h (fun delta hd => ⟨hbase delta hd, hpaid delta hd⟩) u hu
    exact ⟨hcosted.long, hcosted.short⟩

/-- Three base bought, one sold, five sold through to the other side, and that closed again. No
share is a whole number of quote units. -/
def zigzag : List PositionDelta :=
  [⟨.ofRaw 3, .ofRaw (-10)⟩, ⟨.ofRaw (-1), .ofRaw 4⟩, ⟨.ofRaw (-5), .ofRaw 13⟩,
    ⟨.ofRaw 3, .ofRaw (-9)⟩]

lemma zigzag_paid : ∀ delta ∈ zigzag, delta.Paid := by
  intro delta hdelta
  simp only [zigzag, List.mem_cons, List.not_mem_nil, or_false] at hdelta
  rcases hdelta with rfl | rfl | rfl | rfl <;> constructor <;> decide

theorem applyAll_accounts_zigzag : ∃ a b c d,
    ((new ⟨0⟩).applyAll zigzag = .ok [a, b, c, d] ∧
      [a, b, c, d].map (·.change) = [.open, .reduce, .flip, .close] ∧
      [a, b, c, d].map (·.realizedPnl.raw) = [0, 1, -2, -1]) ∧
    d.position.quote.raw = d.position.entry.raw + 0 + realized [a, b, c, d] ∧
    (c.position.base.raw < 0 → 0 ≤ c.position.entry.raw) := by
  obtain ⟨a, b, c, d, h, hchanges, hpnl⟩ : ∃ a b c d,
      (new ⟨0⟩).applyAll zigzag = .ok [a, b, c, d] ∧
        [a, b, c, d].map (·.change) = [.open, .reduce, .flip, .close] ∧
        [a, b, c, d].map (·.realizedPnl.raw) = [0, 1, -2, -1] :=
    ⟨_, _, _, _, rfl, by decide, by decide⟩
  obtain ⟨hsums, hsigns⟩ := applyAll_accounts (r := 0) rfl (by decide) h
  have hcosted : (new ⟨0⟩).Costed := by constructor <;> decide
  exact ⟨a, b, c, d, ⟨h, hchanges, hpnl⟩, (hsums [a, b, c] d [] rfl).1,
    (hsigns zigzag_paid hcosted c (by simp)).2⟩

end PerpPosition

end PerpExchange
