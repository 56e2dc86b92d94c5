import Mathlib.Logic.Basic

/-!
# Computations that may stop

What a computation of two parts returns, its second part returns on what the first part returned.
-/

namespace Libpomelo

variable {ε α β : Type} {x : Except ε α} {f : α → Except ε β}

/-- What is there is passed on. -/
@[simp] theorem ok_bind (a : α) (f : α → Except ε β) : (Except.ok a >>= f) = f a := rfl

/-- The inversion of a bind: both parts returned. -/
theorem bind_eq_ok {b : β} : x >>= f = .ok b ↔ ∃ a, x = .ok a ∧ f a = .ok b := by
  cases x with
  | error e =>
    constructor
    · intro h
      cases h
    · rintro ⟨a, h, -⟩
      cases h
  | ok a =>
    constructor
    · intro h
      exact ⟨a, rfl, h⟩
    · rintro ⟨a', ha, h⟩
      cases ha
      exact h

end Libpomelo
