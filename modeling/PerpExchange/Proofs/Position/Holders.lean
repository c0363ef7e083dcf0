import Mathlib.Algebra.BigOperators.Group.Finset.Basic
import Mathlib.Data.Fintype.BigOperators
import Mathlib.Tactic.Lemma
import Mathlib.Tactic.Ring

/-!
Sums over the positions that users hold.
-/

namespace PerpExchange

variable {User Position : Type*} [Fintype User] [DecidableEq User]

lemma sum_update (g : Position → ℤ) (positions : User → Position) (user : User) (p : Position) :
    ∑ u, g (Function.update positions user p u) =
      ∑ u, g (positions u) - g (positions user) + g p := by
  have e : ∀ u, g (Function.update positions user p u) =
      Function.update (fun u => g (positions u)) user (g p) u := by
    intro u
    exact Function.apply_update (fun _ => g) positions user p u
  rw [Finset.sum_congr rfl fun u _ => e u, Finset.sum_update_of_mem (Finset.mem_univ user),
    ← Finset.add_sum_erase _ _ (Finset.mem_univ user), Finset.sdiff_singleton_eq_erase]
  ring

end PerpExchange
