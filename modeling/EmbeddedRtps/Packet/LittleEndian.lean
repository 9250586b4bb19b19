import EmbeddedRtps.Packet.Platform
import Mathlib.Algebra.Ring.Nat

/-!
# A platform

Numbers stand in a buffer with their low byte first, and every operation does what
`Platform.Lawful` asks of it and nothing else.
-/

namespace EmbeddedRtps.Packet

open Foundation

namespace LittleEndian

/-- The low `width` bytes of a number, the lowest first. -/
def image (width value : Nat) : List UInt8 :=
  match width with
  | 0 => []
  | width + 1 => .ofNat value :: image width (value / 256)

/-- The number whose bytes these are. -/
def value : List UInt8 → Nat
  | [] => 0
  | byte :: rest => byte.toNat + 256 * value rest

@[simp] theorem length_image (width number : Nat) :
    (image width number).length = width := by
  induction width generalizing number with
  | zero => rfl
  | succ width ih => rw [image, List.length_cons, ih]

theorem value_image (width number : Nat) :
    value (image width number) = number % 256 ^ width := by
  induction width generalizing number with
  | zero => simp [image, value, Nat.mod_one]
  | succ width ih =>
      have split : number % 256 ^ (width + 1) =
          number % 256 + 256 * (number / 256 % 256 ^ width) := by
        rw [Nat.pow_succ', Nat.mod_mul]
      rw [image, value, ih, UInt8.toNat_ofNat', split]

theorem value_lt (bytes : List UInt8) : value bytes < 256 ^ bytes.length := by
  induction bytes with
  | nil => decide
  | cons byte rest ih =>
      have small := byte.toNat_lt
      rw [value, List.length_cons, Nat.pow_succ']
      omega

theorem image_value (bytes : List UInt8) : image bytes.length (value bytes) = bytes := by
  induction bytes with
  | nil => rfl
  | cons byte rest ih =>
      have small := byte.toNat_lt
      have high : value (byte :: rest) / 256 = value rest := by
        rw [value]
        omega
      have low : UInt8.ofNat (value (byte :: rest)) = byte := by
        apply UInt8.toNat_inj.mp
        rw [UInt8.toNat_ofNat', value]
        omega
      rw [List.length_cons, image, high, low, ih]

/-- Read a field, or fail. -/
def read {Value : Type} (align width : Nat) (decode : List UInt8 → Value)
    (buffer : UcdrBuffer) : Value × UcdrBuffer :=
  if buffer.Fits align width then
    (decode (buffer.field align width), buffer.advance (buffer.next align + width))
  else
    (decode [], { buffer with error := true })

/-- Write a field, or fail. -/
def write (align : Nat) (buffer : UcdrBuffer) (bytes : List UInt8) : UcdrBuffer :=
  if buffer.Fits align bytes.length then
    { memory := overwrite buffer.memory (buffer.next align) bytes
      iterator := buffer.next align + bytes.length
      error := false }
  else
    { buffer with error := true }

theorem reads {Value : Type} (align width : Nat) (decode : List UInt8 → Value) :
    Reads align width decode (read align width decode) where
  succeeds _ fits := if_pos fits
  fails _ overrun := by rw [read, if_neg overrun]

theorem writes (align : Nat) (bytes : List UInt8) :
    Writes align bytes (write align · bytes) where
  succeeds _ fits := if_pos fits
  fails _ overrun := by rw [write, if_neg overrun]

def value16 (bytes : List UInt8) : UInt16 := .ofNat (value bytes)

def value32 (bytes : List UInt8) : UInt32 := .ofNat (value bytes)

def stringBytes (bytes : List UInt8) : List UInt8 :=
  (cString bytes).getD []

end LittleEndian

open LittleEndian

/-- Micro-CDR on a little-endian machine, and a core that copies changes. -/
def littleEndian : Platform where
  initBuffer memory := ⟨memory, 0, false⟩
  alignment position size := padding size position
  image16 number := image 2 number.toNat
  value16 := value16
  image32 number := image 4 number.toNat
  value32 := value32
  serializeArrayUint8 buffer bytes := write 1 buffer bytes
  serializeUint16 buffer number := write 2 buffer (image 2 number.toNat)
  serializeUint32 buffer number := write 4 buffer (image 4 number.toNat)
  serializeInt32 buffer number := write 4 buffer (image 4 number.toUInt32.toNat)
  serializeString buffer bytes :=
    let string := stringBytes bytes
    write 4 buffer (image 4 (UInt32.ofNat (string.length + 1)).toNat ++ (string ++ [0]))
  deserializeArrayUint8 buffer width := read 1 width id buffer
  deserializeUint16 := read 2 2 value16
  deserializeUint32 := read 4 4 value32
  deserializeInt32 := read 4 4 fun bytes => (value32 bytes).toInt32
  deserializeString buffer destination capacity :=
    let length := (value32 (buffer.field 4 4)).toNat
    if buffer.Fits 4 4 ∧ length ≤ capacity ∧
        buffer.next 4 + 4 + length ≤ buffer.memory.length then
      (destination.write (window buffer.memory (buffer.next 4 + 4) length),
        buffer.advance (buffer.next 4 + 4 + length))
    else
      (destination, { buffer with error := true })
  copyInto := fun {size} change array =>
    if change.length ≤ size then (true, array.write change) else (false, array)
  schemeCdrLe := [0, 1]

theorem littleEndian_lawful : littleEndian.Lawful where
  initBuffer _ := rfl
  alignment _ _ _ := rfl
  length_image16 _ := length_image 2 _
  value16_image16 number := by
    change UInt16.ofNat (value (image 2 number.toNat)) = number
    have small : number.toNat < 256 ^ 2 := Nat.lt_of_lt_of_eq number.toNat_lt (by decide)
    rw [value_image, Nat.mod_eq_of_lt small, UInt16.ofNat_toNat]
  length_image32 _ := length_image 4 _
  value32_image32 number := by
    change UInt32.ofNat (value (image 4 number.toNat)) = number
    have small : number.toNat < 256 ^ 4 := Nat.lt_of_lt_of_eq number.toNat_lt (by decide)
    rw [value_image, Nat.mod_eq_of_lt small, UInt32.ofNat_toNat]
  image32_value32 bytes four := by
    change image 4 (UInt32.ofNat (value bytes)).toNat = bytes
    have bound := value_lt bytes
    rw [four] at bound
    have small : value bytes < 2 ^ 32 := Nat.lt_of_lt_of_eq bound (by decide)
    rw [UInt32.toNat_ofNat', Nat.mod_eq_of_lt small, ← four, image_value]
  writesArrayUint8 bytes := writes 1 bytes
  writesUint16 _ := writes 2 _
  writesUint32 _ := writes 4 _
  writesInt32 _ := writes 4 _
  writesString bytes string found := by
    have written := writes 4 (littleEndian.stringImage string)
    have same : stringBytes bytes = string := by rw [stringBytes, found, Option.getD_some]
    rw [← same] at written ⊢
    exact written
  readsArrayUint8 width := reads 1 width id
  readsUint16 := reads 2 2 value16
  readsUint32 := reads 4 4 value32
  readsInt32 := reads 4 4 _
  readsString _ _ _ fits := if_pos fits
  failsString buffer destination capacity overrun := by
    have failed : littleEndian.deserializeString buffer destination capacity =
        (destination, { buffer with error := true }) := if_neg overrun
    rw [failed]
  copiesInto _ _ short := if_pos short
  rejectsLonger _ _ long := if_neg (Nat.not_le.mpr long)
  length_schemeCdrLe := rfl

end EmbeddedRtps.Packet
