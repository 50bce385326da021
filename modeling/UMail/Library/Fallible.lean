import Mathlib.Logic.Basic

namespace Fallible

variable {ε α β : Type} {x : Except ε α} {b : β}

-- What succeeds has succeeded in its first part.
theorem ok_of_bind {f : α → Except ε β} (h : x >>= f = .ok b) : ∃ a, x = .ok a ∧ f a = .ok b := by
  cases x with
  | error e => cases h
  | ok a => exact ⟨a, rfl, h⟩

theorem ok_of_map {f : α → β} (h : x.map f = .ok b) : ∃ a, x = .ok a ∧ f a = b := by
  cases x with
  | error e => cases h
  | ok a => exact ⟨a, rfl, Except.ok.inj h⟩

end Fallible
