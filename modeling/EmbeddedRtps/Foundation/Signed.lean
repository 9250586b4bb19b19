import Mathlib.Algebra.Ring.Int.Defs
import Mathlib.Algebra.Ring.Nat

/-!
# Signed machine integers

An `Int32` stands for the integer `toInt`.  The operations are those of the integers as
long as the result is in range; the lemmas are about that case only.
-/

namespace EmbeddedRtps.Foundation.Signed

variable {left right : Int32}

theorem toInt_add (low : -2 ^ 31 ≤ left.toInt + right.toInt)
    (high : left.toInt + right.toInt < 2 ^ 31) :
    (left + right).toInt = left.toInt + right.toInt := by
  rw [Int32.toInt_add]
  exact Int.bmod_eq_of_le (by omega) (by omega)

theorem toInt_sub (low : -2 ^ 31 ≤ left.toInt - right.toInt)
    (high : left.toInt - right.toInt < 2 ^ 31) :
    (left - right).toInt = left.toInt - right.toInt := by
  rw [Int32.toInt_sub]
  exact Int.bmod_eq_of_le (by omega) (by omega)

/-- The next number. -/
theorem toInt_succ (low : 0 ≤ left.toInt) (high : left.toInt + 1 < 2 ^ 31) :
    (left + 1).toInt = left.toInt + 1 := by
  have one : (1 : Int32).toInt = 1 := rfl
  rw [toInt_add (by omega) (by omega), one]

theorem toInt_pred (low : 0 < left.toInt) : (left - 1).toInt = left.toInt - 1 := by
  have one : (1 : Int32).toInt = 1 := rfl
  have high := left.toInt_lt
  rw [toInt_sub (by omega) (by omega), one]

/-- Of a number that is not negative, the remainder rounds like that of the integers. -/
theorem toInt_mod (low : 0 ≤ left.toInt) : (left % right).toInt = left.toInt % right.toInt := by
  rw [Int32.toInt_mod, Int.tmod_eq_emod_of_nonneg low]

end EmbeddedRtps.Foundation.Signed
