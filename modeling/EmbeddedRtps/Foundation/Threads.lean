import Mathlib.Algebra.Order.BigOperators.Group.Finset
import Mathlib.Data.Fintype.Basic

/-!
# Places of threads

A system of threads is a map from threads to the places they have reached in their
code.  A step moves one thread.  What such a map contributes to an invariant is
mostly how many threads stand in some region: one for the owner of a lock, any
number for the waiters that a counter keeps track of.
-/

namespace EmbeddedRtps.Foundation

universe u v

variable {Thread : Type u} {Place : Type v}
variable {region : Place → Bool} {places : Thread → Place} {thread other : Thread}
variable {place : Place}

/-- What is ahead because of the shared state or because of the place of some thread
is still ahead after a step that keeps it so for the thread that moves. -/
theorem exists_or_update [DecidableEq Thread] {shared shared' : Prop}
    (moved : shared ∨ region (places thread) = true → shared' ∨ region place = true)
    (before : ∃ current, shared ∨ region (places current) = true) :
    ∃ current, shared' ∨ region (Function.update places thread place current) = true := by
  obtain ⟨current, ahead⟩ := before
  by_cases same : current = thread
  · subst same
    exact ⟨current, by simpa using moved ahead⟩
  · rcases ahead with ahead | inside
    · exact ⟨thread, by simpa using moved (.inl ahead)⟩
    · exact ⟨current, .inr (by simpa [same] using inside)⟩

variable [Fintype Thread]

/-- The number of threads in a region of the code. -/
def countIn (region : Place → Bool) (places : Thread → Place) : Nat :=
  ∑ thread, (region (places thread)).toNat

theorem countIn_const {start : Place} (outside : region start = false) :
    countIn region (fun _ : Thread => start) = 0 := by
  simp [countIn, outside]

theorem countIn_pos (inside : region (places thread) = true) :
    0 < countIn region places := by
  refine Finset.sum_pos' (fun _ _ => Nat.zero_le _) ⟨thread, Finset.mem_univ thread, ?_⟩
  simp [inside]

theorem countIn_le_card : countIn region places ≤ Fintype.card Thread := by
  rw [countIn, ← Finset.card_univ, Finset.card_eq_sum_ones]
  exact Finset.sum_le_sum fun thread _ => Bool.toNat_le _

theorem exists_of_countIn_pos (positive : 0 < countIn region places) :
    ∃ thread, region (places thread) = true := by
  obtain ⟨thread, _, nonzero⟩ := Finset.exists_ne_zero_of_sum_ne_zero positive.ne'
  exact ⟨thread, by simpa using nonzero⟩

variable [DecidableEq Thread]

/-- What a step adds to the number of threads in a region. -/
theorem countIn_update (region : Place → Bool) (places : Thread → Place)
    (thread : Thread) (place : Place) :
    countIn region (Function.update places thread place) +
        (region (places thread)).toNat =
      countIn region places + (region place).toNat := by
  have others : ∀ current ∈ Finset.univ.erase thread,
      (region (Function.update places thread place current)).toNat =
        (region (places current)).toNat := by
    intro current member
    rw [Function.update_of_ne (Finset.ne_of_mem_erase member)]
  rw [countIn, countIn, ← Finset.add_sum_erase _ _ (Finset.mem_univ thread),
    ← Finset.add_sum_erase _ _ (Finset.mem_univ thread), Finset.sum_congr rfl others,
    Function.update_self]
  omega

/-- A region that never holds more than one thread excludes the others. -/
theorem eq_of_countIn_le_one (few : countIn region places ≤ 1)
    (inside : region (places thread) = true) (inside' : region (places other) = true) :
    thread = other := by
  by_contra different
  have counted : (region (places other)).toNat ≤
      ∑ current ∈ Finset.univ.erase thread, (region (places current)).toNat :=
    Finset.single_le_sum (f := fun current => (region (places current)).toNat)
      (fun _ _ => Nat.zero_le _)
      (Finset.mem_erase.mpr ⟨Ne.symm different, Finset.mem_univ other⟩)
  rw [countIn, ← Finset.add_sum_erase _ _ (Finset.mem_univ thread)] at few
  simp only [inside, inside', Bool.toNat_true] at few counted
  omega

end EmbeddedRtps.Foundation
