import Mathlib.Tactic.Lemma
import Mathlib.Tactic.SplitIfs
import PerpExchange.Failure

/-!
Computations that gave a result, and failures that a computation cannot give.

A computation of several steps gave `b` exactly when each step gave something and the last one
gave `b`; it cannot fail with `e` if no step can, after the steps before it. Arithmetic and look-ups
inside a larger operation give what they give on their own.
-/

namespace PerpExchange

variable {ε α β : Type}

@[simp] lemma bind_eq_ok {x : Except ε α} {f : α → Except ε β} {b : β} :
    (x >>= f) = .ok b ↔ ∃ a, x = .ok a ∧ f a = .ok b := by
  cases x with
  | error e =>
    constructor
    · intro h; cases h
    · rintro ⟨a, h, -⟩; cases h
  | ok a =>
    constructor
    · intro h; exact ⟨a, rfl, h⟩
    · rintro ⟨a', h, h'⟩; cases h; exact h'

@[simp] lemma pure_eq_ok {a b : α} : (pure a : Except ε α) = .ok b ↔ a = b :=
  ⟨fun h => by cases h; rfl, fun h => h ▸ rfl⟩

/-- Running a computation decides what holds of its result. -/
instance decidableResult {x : Except ε α} {p : α → Prop} [DecidablePred p] :
    Decidable (∃ a, x = .ok a ∧ p a) :=
  match x with
  | .ok a => decidable_of_iff (p a) (by simp)
  | .error _ => isFalse (by simp)

lemma ok_bind (a : α) (f : α → Except ε β) : (Except.ok a >>= f) = f a := rfl

lemma error_bind (e : ε) (f : α → Except ε β) : (Except.error e >>= f) = .error e := rfl

lemma bind_succeeds {x : Except ε α} {f : α → Except ε β} (hx : ∃ a, x = .ok a)
    (hf : ∀ a, x = .ok a → ∃ b, f a = .ok b) : ∃ b, (x >>= f) = .ok b := by
  obtain ⟨a, ha⟩ := hx
  obtain ⟨b, hb⟩ := hf a ha
  exact ⟨b, bind_eq_ok.mpr ⟨a, ha, hb⟩⟩

lemma ok_ne_error {a : α} {e : ε} : (.ok a : Except ε α) ≠ .error e := nofun

lemma bind_ne_error {x : Except ε α} {f : α → Except ε β} {e : ε} (hx : x ≠ .error e)
    (hf : ∀ a, x = .ok a → f a ≠ .error e) : (x >>= f) ≠ .error e := by
  cases x with
  | error e' =>
    intro h
    cases h
    exact hx rfl
  | ok a => exact hf a rfl

lemma Violation.guard_ne_error {condition : Prop} [Decidable condition] {violation e : Violation}
    (h : condition ∨ violation ≠ e) : Violation.guard condition violation ≠ .error e := by
  unfold Violation.guard
  split_ifs with hc
  · exact ok_ne_error
  · intro he
    cases he
    exact h.elim hc fun hne => hne rfl

lemma Refusal.guard_ne_error {condition : Prop} [Decidable condition] {refusal e : Refusal}
    (h : condition ∨ refusal ≠ e) : Refusal.guard condition refusal ≠ .error e := by
  unfold Refusal.guard
  split_ifs with hc
  · exact ok_ne_error
  · intro he
    cases he
    exact h.elim hc fun hne => hne rfl

/-- A fold cannot fail with what none of its steps can fail with. -/
lemma foldlM_ne_error {f : β → α → Except ε β} {e : ε} (hf : ∀ b a, f b a ≠ .error e)
    (l : List α) (b : β) : l.foldlM f b ≠ .error e := by
  induction l generalizing b with
  | nil => exact ok_ne_error
  | cons a rest ih =>
    rw [List.foldlM_cons]
    exact bind_ne_error (hf b a) fun next _ => ih next

namespace Failure

lemma liftM_violation_of_error {x : Except Violation α} {e : Violation} (h : x = .error e) :
    (liftM x : Except Failure α) = .error (.violation e) := h ▸ rfl

lemma liftM_violation_ne_error {x : Except Violation α} {e : Violation} (hx : x ≠ .error e) :
    (liftM x : Except Failure α) ≠ .error (.violation e) := by
  cases x with
  | error e' =>
    intro h
    cases h
    exact hx rfl
  | ok a => exact ok_ne_error

lemma liftM_refusal_ne_violation {x : Except Refusal α} {e : Violation} :
    (liftM x : Except Failure α) ≠ .error (.violation e) := by
  cases x <;> exact nofun

lemma liftM_violation_ne_refusal {x : Except Violation α} {e : Refusal} :
    (liftM x : Except Failure α) ≠ .error (.refusal e) := by
  cases x <;> exact nofun

lemma liftM_refusal_ne_error {x : Except Refusal α} {e : Refusal} (hx : x ≠ .error e) :
    (liftM x : Except Failure α) ≠ .error (.refusal e) := by
  cases x with
  | error e' =>
    intro h
    cases h
    exact hx rfl
  | ok a => exact ok_ne_error

/-- Arithmetic in front of a computation adds nothing to what it is refused for. -/
lemma violation_bind_ne_refusal {x : Except Violation α} {f : α → Except Failure β} {e : Refusal}
    (hf : ∀ a, f a ≠ .error (.refusal e)) :
    ((liftM x : Except Failure α) >>= f) ≠ .error (.refusal e) :=
  bind_ne_error liftM_violation_ne_refusal fun a _ => hf a

lemma refusal_bind_ne_refusal {x : Except Refusal α} {f : α → Except Failure β} {e : Refusal}
    (hx : x ≠ .error e) (hf : ∀ a, f a ≠ .error (.refusal e)) :
    ((liftM x : Except Failure α) >>= f) ≠ .error (.refusal e) :=
  bind_ne_error (liftM_refusal_ne_error hx) fun a _ => hf a

@[simp] lemma liftM_violation_eq_ok {x : Except Violation α} {a : α} :
    (liftM x : Except Failure α) = .ok a ↔ x = .ok a := ofViolation_eq_ok

@[simp] lemma liftM_refusal_eq_ok {x : Except Refusal α} {a : α} :
    (liftM x : Except Failure α) = .ok a ↔ x = .ok a := ofRefusal_eq_ok

lemma violation_bind_succeeds {x : Except Violation α} {f : α → Except Failure β}
    (hx : ∃ a, x = .ok a) (hf : ∀ a, x = .ok a → ∃ b, f a = .ok b) :
    ∃ b, ((liftM x : Except Failure α) >>= f) = .ok b := by
  obtain ⟨a, ha⟩ := hx
  exact bind_succeeds ⟨a, liftM_violation_eq_ok.mpr ha⟩ fun a h =>
    hf a (liftM_violation_eq_ok.mp h)

lemma guard_bind_succeeds {condition : Prop} [Decidable condition] {refusal : Refusal}
    {f : Unit → Except Failure β} (h : condition) (hf : ∃ b, f () = .ok b) :
    ∃ b, ((liftM (Refusal.guard condition refusal) : Except Failure Unit) >>= f) = .ok b :=
  bind_succeeds ⟨(), liftM_refusal_eq_ok.mpr (Refusal.guard_eq_ok.mpr h)⟩ fun _ _ => hf

end Failure

end PerpExchange
