import Mathlib.Data.List.Basic

/-!
# Byte memories

A memory is a list of bytes.  Positions are aligned relative to its start, fields
are read as windows of it and written by overwriting a stretch of it.  What a field
holds is unaffected by writing elsewhere.

Arrays of a fixed size carry their length.  A C string is the part of such an array
before its first zero byte; an array without one holds no string.
-/

namespace EmbeddedRtps.Foundation

/-! ## Alignment -/

/-- The bytes to skip from `position` to the next multiple of `align`. -/
def padding (align position : Nat) : Nat :=
  (align - position % align) % align

/-- The next multiple of `align`. -/
def alignUp (align position : Nat) : Nat :=
  position + padding align position

theorem le_alignUp (align position : Nat) : position ≤ alignUp align position :=
  Nat.le_add_right _ _

/-! ## Windows -/

/-- The bytes of a field; fewer than `width` where the memory ends before. -/
def window (memory : List UInt8) (position width : Nat) : List UInt8 :=
  (memory.drop position).take width

/-- Store `bytes` from `position` on. -/
def overwrite (memory : List UInt8) (position : Nat) (bytes : List UInt8) :
    List UInt8 :=
  memory.take position ++ bytes ++ memory.drop (position + bytes.length)

section Windows

variable {memory bytes rest : List UInt8} {position width other index : Nat}

theorem length_window (inside : position + width ≤ memory.length) :
    (window memory position width).length = width := by
  rw [window, List.length_take, List.length_drop]
  omega

@[simp] theorem length_overwrite (inside : position + bytes.length ≤ memory.length) :
    (overwrite memory position bytes).length = memory.length := by
  simp only [overwrite, List.length_append, List.length_take, List.length_drop]
  omega

theorem getElem?_window :
    (window memory position width)[index]? =
      if index < width then memory[position + index]? else none := by
  rw [window, List.getElem?_take, List.getElem?_drop]

theorem getElem?_overwrite_of_lt (inside : position + bytes.length ≤ memory.length)
    (before : index < position) :
    (overwrite memory position bytes)[index]? = memory[index]? := by
  have lengthTake : (memory.take position).length = position := by
    rw [List.length_take]
    omega
  rw [overwrite, List.append_assoc, List.getElem?_append_left (by omega),
    List.getElem?_take, if_pos before]

theorem getElem?_overwrite_of_mem (inside : position + bytes.length ≤ memory.length)
    (within : index < bytes.length) :
    (overwrite memory position bytes)[position + index]? = bytes[index]? := by
  have lengthTake : (memory.take position).length = position := by
    rw [List.length_take]
    omega
  rw [overwrite, List.append_assoc, List.getElem?_append_right (by omega), lengthTake,
    Nat.add_sub_cancel_left, List.getElem?_append_left within]

theorem getElem?_overwrite_of_ge (inside : position + bytes.length ≤ memory.length)
    (after : position + bytes.length ≤ index) :
    (overwrite memory position bytes)[index]? = memory[index]? := by
  have lengthTake : (memory.take position).length = position := by
    rw [List.length_take]
    omega
  rw [overwrite, List.getElem?_append_right (by rw [List.length_append]; omega),
    List.length_append, lengthTake, List.getElem?_drop]
  congr 1
  omega

/-- A field that was just written. -/
theorem window_overwrite_self (inside : position + bytes.length ≤ memory.length) :
    window (overwrite memory position bytes) position bytes.length = bytes := by
  apply List.ext_getElem?
  intro index
  rw [getElem?_window]
  split
  next within => exact getElem?_overwrite_of_mem inside within
  next outside => exact (List.getElem?_eq_none (by omega)).symm

/-- A field apart from what was written. -/
theorem window_overwrite_of_disjoint
    (inside : position + bytes.length ≤ memory.length)
    (disjoint : other + width ≤ position ∨ position + bytes.length ≤ other) :
    window (overwrite memory position bytes) other width =
      window memory other width := by
  apply List.ext_getElem?
  intro index
  rw [getElem?_window, getElem?_window]
  split
  next within =>
    rcases disjoint with before | after
    · exact getElem?_overwrite_of_lt inside (by omega)
    · exact getElem?_overwrite_of_ge inside (by omega)
  next => rfl

/-- A field that lies in the first part of a memory. -/
theorem window_append_of_le (inside : position + width ≤ memory.length) :
    window (memory ++ rest) position width = window memory position width := by
  apply List.ext_getElem?
  intro index
  rw [getElem?_window, getElem?_window]
  split
  next within => exact List.getElem?_append_left (by omega)
  next => rfl

/-- A field is only completed by what follows a memory. -/
theorem window_prefix_append :
    window memory position width <+: window (memory ++ rest) position width := by
  rw [window, window, List.drop_append]
  refine List.prefix_take_iff.mpr ⟨?_, List.length_take_le _ _⟩
  exact (List.take_prefix _ _).trans (List.prefix_append _ _)

/-- The beginning of a field. -/
theorem take_window (shorter : other ≤ width) :
    (window memory position width).take other = window memory position other := by
  rw [window, window, List.take_take, Nat.min_eq_left shorter]

/-- The end of a field. -/
theorem drop_window :
    (window memory position (other + width)).drop other =
      window memory (position + other) width := by
  rw [window, window, List.drop_take, List.drop_drop, Nat.add_sub_cancel_left]

/-- Memories that agree on a field agree on its bytes. -/
theorem getElem?_eq_of_window {memory' : List UInt8}
    (same : window memory position width = window memory' position width)
    (start : position ≤ index) (inside : index < position + width) :
    memory[index]? = memory'[index]? := by
  have bytes := congrArg (fun field => field[index - position]?) same
  simp only [getElem?_window, if_pos (show index - position < width by omega),
    Nat.add_sub_cancel' start] at bytes
  exact bytes

end Windows

/-! ## Records -/

/-- Bytes to be stored at the next position with an alignment. -/
structure Field where
  align : Nat
  bytes : List UInt8

namespace Field

/-- Store fields one after the other, from `position` on. -/
def store (memory : List UInt8) (position : Nat) : List Field → List UInt8
  | [] => memory
  | field :: rest =>
      store (overwrite memory (alignUp field.align position) field.bytes)
        (alignUp field.align position + field.bytes.length) rest

/-- The position after the last of them. -/
def finish (position : Nat) : List Field → Nat
  | [] => position
  | field :: rest => finish (alignUp field.align position + field.bytes.length) rest

/-- Where each of them comes to stand. -/
def places (position : Nat) : List Field → List (Nat × List UInt8)
  | [] => []
  | field :: rest =>
      (alignUp field.align position, field.bytes) ::
        places (alignUp field.align position + field.bytes.length) rest

variable {memory : List UInt8} {position : Nat} {fields : List Field}

theorem le_finish (position : Nat) (fields : List Field) :
    position ≤ finish position fields := by
  induction fields generalizing position with
  | nil => exact Nat.le_refl _
  | cons field rest ih =>
      have aligned := le_alignUp field.align position
      have later := ih (alignUp field.align position + field.bytes.length)
      rw [finish]
      omega

theorem length_store (inside : finish position fields ≤ memory.length) :
    (store memory position fields).length = memory.length := by
  induction fields generalizing memory position with
  | nil => rfl
  | cons field rest ih =>
      rw [finish] at inside
      have fits := Nat.le_trans (le_finish _ rest) inside
      rw [store, ih, length_overwrite fits]
      rwa [length_overwrite fits]

/-- What stood before the first field stays. -/
theorem window_store_of_le (inside : finish position fields ≤ memory.length)
    {other width : Nat} (before : other + width ≤ position) :
    window (store memory position fields) other width = window memory other width := by
  induction fields generalizing memory position with
  | nil => rfl
  | cons field rest ih =>
      rw [finish] at inside
      have aligned := le_alignUp field.align position
      have fits := Nat.le_trans (le_finish _ rest) inside
      rw [store, ih (by rwa [length_overwrite fits]) (by omega)]
      exact window_overwrite_of_disjoint fits (.inl (by omega))

theorem place_le {place : Nat} {bytes : List UInt8}
    (member : (place, bytes) ∈ places position fields) :
    place + bytes.length ≤ finish position fields := by
  induction fields generalizing position with
  | nil => cases member
  | cons field rest ih =>
      rcases List.mem_cons.mp member with first | later
      · cases first
        exact le_finish _ rest
      · exact ih later

/-- Each field can be found at its place. -/
theorem window_store_of_mem (inside : finish position fields ≤ memory.length)
    {place : Nat} {bytes : List UInt8} (member : (place, bytes) ∈ places position fields) :
    window (store memory position fields) place bytes.length = bytes := by
  induction fields generalizing memory position with
  | nil => cases member
  | cons field rest ih =>
      rw [finish] at inside
      have fits := Nat.le_trans (le_finish _ rest) inside
      have room : finish (alignUp field.align position + field.bytes.length) rest ≤
          (overwrite memory (alignUp field.align position) field.bytes).length := by
        rwa [length_overwrite fits]
      rw [store]
      rcases List.mem_cons.mp member with first | later
      · cases first
        rw [window_store_of_le room (Nat.le_refl _), window_overwrite_self fits]
      · exact ih room later

end Field

/-! ## Arrays of a fixed size -/

/-- An array of `size` bytes. -/
structure FixedBytes (size : Nat) where
  bytes : List UInt8
  length_eq : bytes.length = size
  deriving DecidableEq

namespace FixedBytes

variable {size : Nat}

@[ext] theorem ext {first second : FixedBytes size} (same : first.bytes = second.bytes) :
    first = second := by
  cases first
  cases second
  congr

/-- All bytes equal. -/
def fill (size : Nat) (byte : UInt8) : FixedBytes size where
  bytes := List.replicate size byte
  length_eq := List.length_replicate

/-- Copy to the front of the array, leaving the rest as it is. -/
def write (array : FixedBytes size) (source : List UInt8) : FixedBytes size where
  bytes := (source ++ array.bytes.drop source.length).take size
  length_eq := by
    simp only [List.length_take, List.length_append, List.length_drop, array.length_eq]
    omega

theorem bytes_write {array : FixedBytes size} {source : List UInt8}
    (fits : source.length ≤ size) :
    (array.write source).bytes = source ++ array.bytes.drop source.length := by
  apply List.take_of_length_le
  simp only [List.length_append, List.length_drop, array.length_eq]
  omega

theorem write_self {array : FixedBytes size} (other : FixedBytes size) :
    array.write other.bytes = other := by
  apply ext
  have same : array.bytes.length ≤ other.bytes.length :=
    Nat.le_of_eq (array.length_eq.trans other.length_eq.symm)
  rw [bytes_write (Nat.le_of_eq other.length_eq), List.drop_of_length_le same,
    List.append_nil]

end FixedBytes

/-! ## C strings -/

/-- The bytes before the first zero byte, if there is one. -/
def cString : List UInt8 → Option (List UInt8)
  | [] => none
  | byte :: rest => if byte = 0 then some [] else (cString rest).map (byte :: ·)

/-- `strlen`, undefined where it would run off the array. -/
def strlen (bytes : List UInt8) : Option Nat :=
  (cString bytes).map List.length

theorem cString_eq_some {bytes string : List UInt8} :
    cString bytes = some string ↔ (0 : UInt8) ∉ string ∧ string ++ [0] <+: bytes := by
  induction bytes generalizing string with
  | nil => simp [cString]
  | cons byte rest ih =>
      rw [cString]
      split
      next zero =>
        subst zero
        cases string with
        | nil => simp
        | cons head tail => simp +contextual [eq_comm]
      next nonzero =>
        rw [Option.map_eq_some_iff]
        constructor
        · rintro ⟨tail, found, rfl⟩
          obtain ⟨free, leading⟩ := ih.mp found
          exact ⟨by simp [Ne.symm nonzero, free], by simpa using leading⟩
        · rintro ⟨free, leading⟩
          cases string with
          | nil => exact absurd (List.cons_prefix_cons.mp leading).1.symm nonzero
          | cons head tail =>
              obtain ⟨rfl, following⟩ := List.cons_prefix_cons.mp leading
              have tailFree := fun member => free (List.mem_cons_of_mem _ member)
              exact ⟨tail, ih.mpr ⟨tailFree, following⟩, rfl⟩

theorem cString_eq_none {bytes : List UInt8} :
    cString bytes = none ↔ (0 : UInt8) ∉ bytes := by
  induction bytes with
  | nil => simp [cString]
  | cons byte rest ih =>
      rw [cString]
      split
      next zero => simp [zero]
      next nonzero => simp [ih, Ne.symm nonzero]

/-- What follows the first zero byte does not matter. -/
theorem cString_append {bytes : List UInt8} (terminated : (0 : UInt8) ∈ bytes)
    (rest : List UInt8) : cString (bytes ++ rest) = cString bytes := by
  cases found : cString bytes with
  | none => exact absurd terminated (cString_eq_none.mp found)
  | some string =>
      obtain ⟨free, leading⟩ := cString_eq_some.mp found
      exact cString_eq_some.mpr ⟨free, leading.trans (List.prefix_append _ _)⟩

end EmbeddedRtps.Foundation
