import PerpExchange.Proofs.Position.Holders
import PerpExchange.Proofs.Position.Perp
import PerpExchange.Proofs.Trade.Fill

/-!
The books of a market against the positions of its users.

A floor is a market with the position of every user in it. Users trade in any order; a trade fills
on the pool, changes one position and books the change. The sums that the pool keeps are those of
the positions after any run, and the base that the pool would hold with everybody closed out stays
what it was.
-/

namespace PerpExchange

variable {User : Type*}

/-- A user's order, with the oracle reading that it meets. -/
structure Request (User : Type*) where
  user : User
  order : Order
  oracle : OracleReading

/-- A perp market and the position that each user has in it. -/
structure Floor (User : Type*) where
  market : PerpMarket
  position : User → PerpPosition

namespace Floor

/-- Nobody has traded yet. -/
def opening (m : PerpMarket) : Floor User := ⟨m, fun _ => .new m.index⟩

variable [DecidableEq User]

/-- One user's order, filled and booked. Where it does not fill or cannot be booked, nothing is
committed. -/
def trade (f : Floor User) (r : Request User) : Floor User :=
  match f.market.fill r.order r.oracle with
  | .ok (.filled fill) =>
    match fill.book (f.position r.user) with
    | .ok trade => ⟨trade.market, Function.update f.position r.user trade.update.position⟩
    | .error _ => f
  | _ => f

def run (f : Floor User) (requests : List (Request User)) : Floor User := requests.foldl trade f

@[simp] lemma run_nil (f : Floor User) : f.run [] = f := rfl

@[simp] lemma run_cons (f : Floor User) (r : Request User) (rest : List (Request User)) :
    f.run (r :: rest) = (f.trade r).run rest := rfl

/-- The base reserve once every user's position is closed into the pool. -/
def terminalBase (f : Floor User) : ℤ :=
  f.market.amm.baseReserve.raw + f.market.amm.netBase.raw

/-- What a committed trade is: the market and one position change together, by the same fill. -/
structure Committed (f : Floor User) (user : User) (f' : Floor User) (p : PerpPosition) :
    Prop where
  position : f'.position = Function.update f.position user p
  netBase : f'.market.amm.netBase.raw =
    f.market.amm.netBase.raw + (p.base.raw - (f.position user).base.raw)
  quoteLong : f'.market.amm.quoteLong.raw =
    f.market.amm.quoteLong.raw - (f.position user).longQuote + p.longQuote
  quoteShort : f'.market.amm.quoteShort.raw =
    f.market.amm.quoteShort.raw - (f.position user).shortQuote + p.shortQuote
  terminalBase : f'.terminalBase = f.terminalBase

lemma trade_cases (f : Floor User) (r : Request User) :
    f.trade r = f ∨ ∃ p, f.Committed r.user (f.trade r) p := by
  unfold trade
  split
  · next fill hfill =>
    split
    · next trade htrade =>
      right
      obtain ⟨amm, reserves, quoted, real, hf⟩ := PerpMarket.filled_of_fill hfill
      obtain ⟨peg, budget, price, hmarket⟩ := hf.frame
      have hreserve := hf.newBase
      simp only [Fill.book, bind_eq_ok, pure_eq_ok] at htrade
      obtain ⟨update, hupdate, booked, hbooked, rfl⟩ := htrade
      obtain ⟨hbase, -⟩ := PerpPosition.apply_eq_ok hupdate
      obtain ⟨netBase, quoteLong, quoteShort, rfl, hnet, hlong, hshort⟩ :=
        Amm.rebook_eq_ok hbooked
      rw [hmarket] at hnet hlong hshort ⊢
      refine ⟨update.position, {
        position := rfl
        netBase := hnet
        quoteLong := hlong
        quoteShort := hshort
        terminalBase := ?_ }⟩
      -- the base that left the reserve is the base that the user took on
      simp only [terminalBase, PerpMarket.withAmm] at hnet ⊢
      rw [hnet, hreserve, hbase]
      ring
    · exact .inl rfl
  · exact .inl rfl

variable [Fintype User]

/-- The books of the market are the sums of the positions. -/
structure Booked (f : Floor User) : Prop where
  netBase : f.market.amm.netBase.raw = ∑ u, (f.position u).base.raw
  quoteLong : f.market.amm.quoteLong.raw = ∑ u, (f.position u).longQuote
  quoteShort : f.market.amm.quoteShort.raw = ∑ u, (f.position u).shortQuote

lemma Committed.booked {f f' : Floor User} {user : User} {p : PerpPosition}
    (h : f.Committed user f' p) (hf : f.Booked) : f'.Booked := by
  constructor
  · rw [h.netBase, h.position, sum_update (fun q : PerpPosition => q.base.raw), hf.netBase]; ring
  · rw [h.quoteLong, h.position, sum_update PerpPosition.longQuote, hf.quoteLong]
  · rw [h.quoteShort, h.position, sum_update PerpPosition.shortQuote, hf.quoteShort]

lemma trade_booked {f : Floor User} (r : Request User) (hf : f.Booked) :
    (f.trade r).Booked ∧ (f.trade r).terminalBase = f.terminalBase := by
  rcases trade_cases f r with h | ⟨p, h⟩
  · rw [h]; exact ⟨hf, rfl⟩
  · exact ⟨h.booked hf, h.terminalBase⟩

lemma run_booked {f : Floor User} (requests : List (Request User)) (hf : f.Booked) :
    (f.run requests).Booked ∧ (f.run requests).terminalBase = f.terminalBase := by
  induction requests generalizing f with
  | nil => exact ⟨hf, rfl⟩
  | cons r rest ih =>
    obtain ⟨hbooked, hbase⟩ := trade_booked r hf
    obtain ⟨h1, h2⟩ := ih hbooked
    exact ⟨h1, h2.trans hbase⟩

omit [DecidableEq User] in
lemma opening_booked {m : PerpMarket} (hbase : m.amm.netBase.raw = 0)
    (hlong : m.amm.quoteLong.raw = 0) (hshort : m.amm.quoteShort.raw = 0) :
    (opening m : Floor User).Booked := by
  constructor
  · simp [opening, PerpPosition.new, hbase]
  · simp [opening, PerpPosition.new, PerpPosition.longQuote, hlong]
  · simp [opening, PerpPosition.new, PerpPosition.shortQuote, hshort]

/-- **The books equal the positions after every run**, and the base of the pool with everybody
closed out is what it was at the start, so it stays positive if it was. Users who are flat are
booked with the longs, whatever quote they have left. -/
theorem run_opening_books (m : PerpMarket) (hbase : m.amm.netBase.raw = 0)
    (hlong : m.amm.quoteLong.raw = 0) (hshort : m.amm.quoteShort.raw = 0)
    (requests : List (Request User)) :
    let f := (opening m).run requests
    f.market.amm.netBase.raw = ∑ u, (f.position u).base.raw ∧
      f.market.amm.quoteLong.raw = ∑ u with 0 ≤ (f.position u).base.raw, (f.position u).quote.raw ∧
      f.market.amm.quoteShort.raw = ∑ u with (f.position u).base.raw < 0, (f.position u).quote.raw ∧
      f.market.amm.baseReserve.raw + f.market.amm.netBase.raw =
        m.amm.baseReserve.raw + m.amm.netBase.raw ∧
      (0 < m.amm.baseReserve.raw + m.amm.netBase.raw →
        0 < f.market.amm.baseReserve.raw + f.market.amm.netBase.raw) := by
  intro f
  obtain ⟨hf, hterminal⟩ := run_booked requests (opening_booked hbase hlong hshort)
  have hterminal : f.market.amm.baseReserve.raw + f.market.amm.netBase.raw =
      m.amm.baseReserve.raw + m.amm.netBase.raw := hterminal
  refine ⟨hf.netBase, ?_, ?_, hterminal, fun hpos => hterminal ▸ hpos⟩
  · rw [Finset.sum_filter]
    exact hf.quoteLong
  · rw [Finset.sum_filter]
    exact hf.quoteShort

/-- One user goes long, another short, and the first one then sells through to the other side. -/
def crossing : List (Request Bool) :=
  [⟨true, ⟨.long, Fixed.one, .market⟩, .of Fixed.one⟩,
    ⟨false, ⟨.short, .ofRaw 2000000000, .market⟩, .of Fixed.one⟩,
    ⟨true, ⟨.short, .ofRaw 3000000000, .market⟩, .of Fixed.one⟩]

theorem run_opening_books_crossing :
    let f := (opening (.even Fixed.one)).run crossing
    ((f.position true).base.raw = -2000000000 ∧ f.market.amm.quoteShort.raw = 3999967) ∧
      f.market.amm.quoteShort.raw =
        ∑ u with (f.position u).base.raw < 0, (f.position u).quote.raw ∧
      f.market.amm.baseReserve.raw + f.market.amm.netBase.raw = 500000000000000 := by
  intro f
  obtain ⟨-, -, hshort, hterminal, -⟩ :=
    run_opening_books (.even Fixed.one) (by decide) (by decide) (by decide) crossing
  exact ⟨by decide, hshort, hterminal⟩

end Floor

end PerpExchange
