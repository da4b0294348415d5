import Mathlib.Algebra.Group.Int.Defs
import Mathlib.Algebra.Group.Nat.Defs
import Mathlib.Tactic.Common

/-!
# Support — Words

The conversion of a number to a signed machine word.
-/

/-- An `int` takes a value modulo `2^32`. -/
def toInt (v : Int) : Int := v.bmod (2 ^ 32)

/-- A value that an `int` has stays as it is. -/
theorem toInt_of_lt {v : Int} (h₀ : -2 ^ 31 ≤ v) (h : v < 2 ^ 31) : toInt v = v := by
  rw [toInt]
  exact Int.bmod_eq_of_le (by omega) (by omega)
