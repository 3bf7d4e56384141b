import Mathlib

/-!
# Support — indices in a ring of slots

A ring buffer of `n` slots keeps index `i` in slot `i % n`; when `n` is a power of two the code
computes the slot as `i & (n - 1)`.  Two indices less than a lap apart are in one slot only if
they are one, so writing the slot of one index leaves the slots of the others in its lap.
-/

namespace Ring

/-- `i & (n - 1)` is `i % n` when `n` is a power of two. -/
theorem and_pred_eq_mod {n : Nat} (hn : n.isPowerOfTwo) (i : Nat) : i &&& (n - 1) = i % n := by
  obtain ⟨m, rfl⟩ := hn
  exact Nat.and_two_pow_sub_one_eq_mod i m

/-- Two indices in one slot and less than a lap apart are one. -/
theorem eq_of_mod_eq {a b n : Nat} (h : a % n = b % n) (h₁ : a < b + n) (h₂ : b < a + n) :
    a = b :=
  Nat.ModEq.eq_of_abs_lt h (by rw [abs_sub_lt_iff]; omega)

end Ring
