import Mathlib.Algebra.Order.BigOperators.Group.List
import Mathlib.Algebra.Order.Field.Basic
import Mathlib.Data.List.Sort
import Mathlib.Tactic.Linarith

/-!
# Lists of samples

Sums of non-negative values, means, and places in a sorted list.  A place is described
by counting, so that the description does not depend on the order of the list or on how
ties were broken when it was sorted.
-/

namespace EmbeddedRtps.Foundation

universe u

/-! ## Sums and means -/

section Sums

variable {Value : Type u} [AddCommMonoid Value] [PartialOrder Value]
variable [IsOrderedAddMonoid Value]

theorem sum_eq_zero_iff_of_nonneg {values : List Value}
    (nonneg : ∀ value ∈ values, 0 ≤ value) :
    values.sum = 0 ↔ ∀ value ∈ values, value = 0 := by
  constructor
  · intro sum_eq value mem
    exact List.all_zero_of_le_zero_le_of_sum_eq_zero nonneg sum_eq mem
  · exact List.sum_eq_zero

end Sums

section Means

variable {Value : Type u} [Semifield Value] [LinearOrder Value] [IsStrictOrderedRing Value]
variable {values : List Value} {bound : Value}

theorem le_sum_div_length (nonempty : values ≠ [])
    (below : ∀ value ∈ values, bound ≤ value) : bound ≤ values.sum / values.length := by
  have length_pos : (0 : Value) < values.length :=
    Nat.cast_pos.mpr (List.length_pos_of_ne_nil nonempty)
  have total := List.card_nsmul_le_sum values bound below
  rw [le_div_iff₀ length_pos, mul_comm, ← nsmul_eq_mul]
  exact total

theorem sum_div_length_le (nonempty : values ≠ [])
    (above : ∀ value ∈ values, value ≤ bound) : values.sum / values.length ≤ bound := by
  have length_pos : (0 : Value) < values.length :=
    Nat.cast_pos.mpr (List.length_pos_of_ne_nil nonempty)
  have total := List.sum_le_card_nsmul values bound above
  rw [div_le_iff₀ length_pos, mul_comm, ← nsmul_eq_mul]
  exact total

/-- A list after itself has the same mean. -/
theorem sum_div_length_append_self (values : List Value) :
    (values ++ values).sum / (values ++ values).length =
      values.sum / values.length := by
  rw [List.sum_append, List.length_append, Nat.cast_add, ← two_mul, ← two_mul]
  exact mul_div_mul_left _ _ two_ne_zero

end Means

/-! ## Places in a sorted list -/

section Ranks

variable {Value : Type u} [LinearOrder Value]

/-- `value` may stand at place `rank`, counted from one, when the values are sorted. -/
structure NearestRank (values : List Value) (rank : ℤ) (value : Value) : Prop where
  mem : value ∈ values
  below : rank ≤ values.countP (· ≤ value)
  above : values.length - rank + 1 ≤ values.countP (value ≤ ·)

theorem NearestRank.perm {values others : List Value} {rank : ℤ} {value : Value}
    (ranked : NearestRank values rank value) (perm : values.Perm others) :
    NearestRank others rank value where
  mem := perm.subset ranked.mem
  below := by
    rw [← perm.countP_eq]
    exact ranked.below
  above := by
    rw [← perm.countP_eq, ← perm.length_eq]
    exact ranked.above

variable {sorted : List Value}

theorem getElem_le_of_sorted (ordered : sorted.Pairwise (· ≤ ·)) {first second : Nat}
    (le : first ≤ second) (inside : second < sorted.length) :
    sorted[first] ≤ sorted[second] := by
  rcases Nat.eq_or_lt_of_le le with rfl | lt
  · exact le_refl _
  · exact List.pairwise_iff_getElem.mp ordered first second _ inside lt

/-- The entry at an index stands at the place after as many entries. -/
theorem nearestRank_getElem (ordered : sorted.Pairwise (· ≤ ·)) {index : Nat}
    (inside : index < sorted.length) :
    NearestRank sorted (index + 1) sorted[index] where
  mem := List.getElem_mem inside
  below := by
    -- the entries up to the index
    have leading : (sorted.take (index + 1)).countP (· ≤ sorted[index]) =
        (sorted.take (index + 1)).length := by
      rw [List.countP_eq_length]
      intro value mem
      obtain ⟨place, before, rfl⟩ := List.mem_take_iff_getElem.mp mem
      exact decide_eq_true (getElem_le_of_sorted ordered (by omega) inside)
    have counted := (List.take_sublist (index + 1) sorted).countP_le
      (p := (· ≤ sorted[index]))
    rw [leading, List.length_take] at counted
    omega
  above := by
    -- the entries from the index on
    have trailing : (sorted.drop index).countP (sorted[index] ≤ ·) =
        (sorted.drop index).length := by
      rw [List.countP_eq_length]
      intro value mem
      obtain ⟨place, before, rfl⟩ := List.mem_drop_iff_getElem.mp mem
      exact decide_eq_true
        (getElem_le_of_sorted ordered (Nat.le_add_right index place) _)
    have counted := (List.drop_sublist index sorted).countP_le
      (p := (sorted[index] ≤ ·))
    rw [trailing, List.length_drop] at counted
    omega

/-! ## Orders of recording -/

theorem insertionSort_eq_of_perm {values others : List Value}
    (perm : values.Perm others) :
    values.insertionSort (· ≤ ·) = others.insertionSort (· ≤ ·) := by
  have sorted := (List.perm_insertionSort (· ≤ ·) values).trans
    (perm.trans (List.perm_insertionSort (· ≤ ·) others).symm)
  exact sorted.eq_of_pairwise' (List.pairwise_insertionSort (· ≤ ·) values)
    (List.pairwise_insertionSort (· ≤ ·) others)

theorem min?_eq_of_perm {values others : List Value} (perm : values.Perm others) :
    values.min? = others.min? := by
  apply Option.ext
  intro value
  simp only [List.min?_eq_some_iff, perm.mem_iff]

theorem max?_eq_of_perm {values others : List Value} (perm : values.Perm others) :
    values.max? = others.max? := by
  apply Option.ext
  intro value
  simp only [List.max?_eq_some_iff, perm.mem_iff]

end Ranks

end EmbeddedRtps.Foundation
