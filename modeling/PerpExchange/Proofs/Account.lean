import Mathlib.Algebra.BigOperators.Group.List.Basic
import Mathlib.Tactic.Abel
import PerpExchange.Account
import PerpExchange.Proofs.Checked

/-!
An account with one of its positions replaced.

The position of a market is the first in its list. Replacing it by another one of the same market
makes that one the position of the market, and changes a sum over all positions by what the two
contribute.
-/

namespace PerpExchange

section ModifyFirst

variable {α : Type} {p : α → Bool} {f : α → α} {l : List α} {a : α}

/-- The first element of `l` that satisfies `p` is `a`, and `l'` is `l` with `b` in its place. -/
def FirstReplaced (p : α → Bool) (a b : α) (l l' : List α) : Prop :=
  ∃ front back, l = front ++ a :: back ∧ l' = front ++ b :: back ∧ p a ∧ ∀ c ∈ front, ¬p c

lemma find?_modifyFirst (hf : ∀ a, p a = true → p (f a) = true) :
    (modifyFirst p f l).find? p = (l.find? p).map f := by
  induction l with
  | nil => rfl
  | cons b rest ih =>
    by_cases hb : p b = true
    · simp [modifyFirst, hb, hf b hb]
    · simp [modifyFirst, hb, ih]

lemma modifyFirst_congr {g : α → α} (h : ∀ a, l.find? p = some a → f a = g a) :
    modifyFirst p f l = modifyFirst p g l := by
  induction l with
  | nil => rfl
  | cons b rest ih =>
    by_cases hb : p b = true
    · simp [modifyFirst, hb, h b (by simp [hb])]
    · simp only [List.find?_cons, hb] at h
      simp [modifyFirst, hb, ih h]

lemma modifyFirst_of_find?_eq_none (h : l.find? p = none) : modifyFirst p f l = l := by
  induction l with
  | nil => rfl
  | cons b rest ih =>
    rw [List.find?_cons] at h
    split at h
    · cases h
    · next hb => simp [modifyFirst, hb, ih h]

lemma firstReplaced_modifyFirst (h : l.find? p = some a) :
    FirstReplaced p a (f a) l (modifyFirst p f l) := by
  induction l with
  | nil => simp at h
  | cons b rest ih =>
    by_cases hb : p b = true
    · obtain rfl : b = a := by simpa [hb] using h
      exact ⟨[], rest, rfl, by simp [modifyFirst, hb], hb, by simp⟩
    · simp only [List.find?_cons, hb] at h
      obtain ⟨front, back, hl, hl', ha, hfront⟩ := ih h
      refine ⟨b :: front, back, by rw [hl, List.cons_append], ?_, ha, ?_⟩
      · simp only [modifyFirst, hb, Bool.false_eq_true, if_false, hl', List.cons_append]
      · exact List.forall_mem_cons.mpr ⟨hb, hfront⟩

lemma sum_modifyFirst {M : Type} [AddCommGroup M] (g : α → M) (h : l.find? p = some a) :
    ((modifyFirst p f l).map g).sum = (l.map g).sum + (g (f a) - g a) := by
  induction l with
  | nil => simp at h
  | cons b rest ih =>
    by_cases hb : p b = true
    · obtain rfl : b = a := by simpa [hb] using h
      simp only [modifyFirst, hb, if_true, List.map_cons, List.sum_cons]
      abel
    · simp only [List.find?_cons, hb] at h
      have hrest := ih h
      simp only [modifyFirst, hb, Bool.false_eq_true, if_false, List.map_cons, List.sum_cons, hrest]
      abel

end ModifyFirst

namespace Account

variable {a : Account} {market : MarketIndex}

@[simp] lemma perp_eq_ok {p : PerpPosition} :
    a.perp market = .ok p ↔ a.perp? market = some p := by
  unfold perp
  cases a.perp? market <;> simp

lemma market_of_perp? {p : PerpPosition} (h : a.perp? market = some p) : p.market = market := by
  simpa using List.find?_some h

lemma market_of_spot? {p : SpotPosition} (h : a.spot? market = some p) : p.market = market := by
  simpa using List.find?_some h

lemma perp?_modifyPerp (a : Account) (market : MarketIndex) {f : PerpPosition → PerpPosition}
    (hf : ∀ p, p.market = market → (f p).market = market) :
    (a.modifyPerp market f).perp? market = (a.perp? market).map f :=
  find?_modifyFirst fun p hp => by simpa using hf p (by simpa using hp)

lemma spot?_modifySpot (a : Account) (market : MarketIndex) {f : SpotPosition → SpotPosition}
    (hf : ∀ p, p.market = market → (f p).market = market) :
    (a.modifySpot market f).spot? market = (a.spot? market).map f :=
  find?_modifyFirst fun p hp => by simpa using hf p (by simpa using hp)

end Account

end PerpExchange
