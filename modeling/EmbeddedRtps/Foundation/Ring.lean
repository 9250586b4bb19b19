import Mathlib.Algebra.Ring.Nat
import Mathlib.Data.Fin.Basic
import Mathlib.Data.List.Range
import Mathlib.Logic.Function.Basic

/-!
# Rings

A ring keeps the elements with the running numbers from `first` up to `last` in a
fixed number of slots, each in the slot of its number modulo the size.  The numbers
are never reduced, so that a full ring is not confused with an empty one.
-/

namespace EmbeddedRtps.Foundation

universe u

namespace Ring

variable {Element : Type u} {size : Nat} [NeZero size]

/-- The slot of an element. -/
def slot (size : Nat) [NeZero size] (number : Nat) : Fin size := Fin.ofNat size number

/-- The elements in the ring, the oldest first. -/
def contents (slots : Fin size → Element) (first last : Nat) : List Element :=
  (List.range' first (last - first)).map fun number => slots (slot size number)

variable {slots : Fin size → Element} {first last : Nat}

@[simp] theorem length_contents : (contents slots first last).length = last - first := by
  simp [contents]

@[simp] theorem contents_self (number : Nat) : contents slots number number = [] := by
  simp [contents]

theorem contents_eq_nil_iff : contents slots first last = [] ↔ last ≤ first := by
  rw [← List.length_eq_zero_iff, length_contents]
  omega

/-- Two numbers less than a turn apart are in different slots. -/
theorem slot_ne {number other : Nat} (before : number < other)
    (near : other < number + size) : slot size number ≠ slot size other := by
  intro same
  have equal : number % size = other % size := congrArg Fin.val same
  have apart : (other - number) % size = 0 :=
    Nat.sub_mod_eq_zero_of_mod_eq equal.symm
  rw [Nat.mod_eq_of_lt (by omega)] at apart
  omega

/-- A free slot can be written without touching the elements. -/
theorem contents_write (room : last < first + size) (element : Element) :
    contents (Function.update slots (slot size last) element) first last =
      contents slots first last := by
  apply List.map_congr_left
  intro number member
  obtain ⟨_, below⟩ := List.mem_range'_1.mp member
  exact Function.update_of_ne (slot_ne (by omega) (by omega)) _ _

/-- Counting one more element appends what its slot holds. -/
theorem contents_advance (ordered : first ≤ last) :
    contents slots first (last + 1) =
      contents slots first last ++ [slots (slot size last)] := by
  have one : last + 1 - first = last - first + 1 := by omega
  have next : first + (last - first) = last := by omega
  rw [contents, one, List.range'_1_concat, List.map_append, next]
  rfl

/-- The oldest element is in the slot of `first`. -/
theorem contents_consume (slots : Fin size → Element) (nonempty : first < last) :
    contents slots first last =
      slots (slot size first) :: contents slots (first + 1) last := by
  have one : last - first = last - (first + 1) + 1 := by omega
  rw [contents, one, List.range'_succ]
  rfl

end Ring

end EmbeddedRtps.Foundation
