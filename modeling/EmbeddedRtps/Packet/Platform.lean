import EmbeddedRtps.Foundation.Bytes

/-!
# What the programs take from Micro-CDR and from the RTPS core

Both are submodules whose code is not part of the repository.  Their operations are
parameters here, collected in `Platform`, and `Platform.Lawful` says what the
programs rely on: reads and writes are aligned relative to the start of the buffer
and fail exactly when they would pass its end, a failed buffer stays failed, numbers
are read back as they were written, and a change that does not fit is not copied.

Nothing is said about the destination of a failed read.
-/

namespace EmbeddedRtps.Packet

open Foundation

/-- `ucdrBuffer`: the memory it was initialised with, the position of its iterator
and its error flag. -/
structure UcdrBuffer where
  memory : List UInt8
  iterator : Nat
  error : Bool
  deriving DecidableEq

namespace UcdrBuffer

/-- Where the next field with this alignment starts. -/
def next (buffer : UcdrBuffer) (align : Nat) : Nat :=
  alignUp align buffer.iterator

/-- The next field can be read or written. -/
def Fits (buffer : UcdrBuffer) (align width : Nat) : Prop :=
  buffer.error = false ∧ buffer.next align + width ≤ buffer.memory.length

instance (buffer : UcdrBuffer) (align width : Nat) :
    Decidable (buffer.Fits align width) :=
  inferInstanceAs (Decidable (_ ∧ _))

/-- The bytes of the next field. -/
def field (buffer : UcdrBuffer) (align width : Nat) : List UInt8 :=
  window buffer.memory (buffer.next align) width

/-- Move on to `position`. -/
def advance (buffer : UcdrBuffer) (position : Nat) : UcdrBuffer :=
  { buffer with iterator := position }

end UcdrBuffer

/-- A read of `width` bytes. -/
structure Reads {Value : Type} (align width : Nat) (value : List UInt8 → Value)
    (read : UcdrBuffer → Value × UcdrBuffer) : Prop where
  succeeds : ∀ buffer, buffer.Fits align width →
    read buffer =
      (value (buffer.field align width), buffer.advance (buffer.next align + width))
  fails : ∀ buffer, ¬ buffer.Fits align width → (read buffer).2.error = true

/-- A write of `bytes`. -/
structure Writes (align : Nat) (bytes : List UInt8)
    (write : UcdrBuffer → UcdrBuffer) : Prop where
  succeeds : ∀ buffer, buffer.Fits align bytes.length →
    write buffer =
      { memory := overwrite buffer.memory (buffer.next align) bytes
        iterator := buffer.next align + bytes.length
        error := false }
  fails : ∀ buffer, ¬ buffer.Fits align bytes.length → (write buffer).error = true

/-- The operations used, the bytes `image16` and `image32` by which numbers stand in
a buffer, and the numbers `value16` and `value32` that bytes stand for. -/
structure Platform where
  initBuffer : List UInt8 → UcdrBuffer
  alignment : Nat → Nat → Nat
  image16 : UInt16 → List UInt8
  value16 : List UInt8 → UInt16
  image32 : UInt32 → List UInt8
  value32 : List UInt8 → UInt32
  serializeArrayUint8 : UcdrBuffer → List UInt8 → UcdrBuffer
  serializeUint16 : UcdrBuffer → UInt16 → UcdrBuffer
  serializeUint32 : UcdrBuffer → UInt32 → UcdrBuffer
  serializeInt32 : UcdrBuffer → Int32 → UcdrBuffer
  serializeString : UcdrBuffer → List UInt8 → UcdrBuffer
  deserializeArrayUint8 : UcdrBuffer → Nat → List UInt8 × UcdrBuffer
  deserializeUint16 : UcdrBuffer → UInt16 × UcdrBuffer
  deserializeUint32 : UcdrBuffer → UInt32 × UcdrBuffer
  deserializeInt32 : UcdrBuffer → Int32 × UcdrBuffer
  /-- The array the string goes to and its capacity are arguments. -/
  deserializeString : {size : Nat} → UcdrBuffer → FixedBytes size → Nat →
    FixedBytes size × UcdrBuffer
  /-- `ReaderCacheChange::copyInto`. -/
  copyInto : {size : Nat} → List UInt8 → FixedBytes size → Bool × FixedBytes size
  /-- `rtps::SMElement::SCHEME_CDR_LE`. -/
  schemeCdrLe : List UInt8

namespace Platform

/-- The length a string announces. -/
def stringLength (platform : Platform) (buffer : UcdrBuffer) : Nat :=
  (platform.value32 (buffer.field 4 4)).toNat

/-- The next string can be read into an array of the given capacity. -/
def StringFits (platform : Platform) (buffer : UcdrBuffer) (capacity : Nat) : Prop :=
  buffer.Fits 4 4 ∧ platform.stringLength buffer ≤ capacity ∧
    buffer.next 4 + 4 + platform.stringLength buffer ≤ buffer.memory.length

instance (platform : Platform) (buffer : UcdrBuffer) (capacity : Nat) :
    Decidable (platform.StringFits buffer capacity) :=
  inferInstanceAs (Decidable (_ ∧ _))

/-- The bytes by which a C string stands in a buffer: its length with the terminator,
its bytes and the terminator. -/
def stringImage (platform : Platform) (string : List UInt8) : List UInt8 :=
  platform.image32 (.ofNat (string.length + 1)) ++ (string ++ [0])

/-- What the programs rely on. -/
structure Lawful (platform : Platform) : Prop where
  initBuffer : ∀ memory, platform.initBuffer memory = ⟨memory, 0, false⟩
  alignment : ∀ position size, size = 2 ∨ size = 4 →
    platform.alignment position size = padding size position
  length_image16 : ∀ value, (platform.image16 value).length = 2
  value16_image16 : ∀ value, platform.value16 (platform.image16 value) = value
  length_image32 : ∀ value, (platform.image32 value).length = 4
  value32_image32 : ∀ value, platform.value32 (platform.image32 value) = value
  image32_value32 : ∀ bytes, bytes.length = 4 →
    platform.image32 (platform.value32 bytes) = bytes
  writesArrayUint8 : ∀ bytes, Writes 1 bytes (platform.serializeArrayUint8 · bytes)
  writesUint16 : ∀ value,
    Writes 2 (platform.image16 value) (platform.serializeUint16 · value)
  writesUint32 : ∀ value,
    Writes 4 (platform.image32 value) (platform.serializeUint32 · value)
  writesInt32 : ∀ value,
    Writes 4 (platform.image32 value.toUInt32) (platform.serializeInt32 · value)
  writesString : ∀ bytes string, cString bytes = some string →
    Writes 4 (platform.stringImage string) (platform.serializeString · bytes)
  readsArrayUint8 : ∀ width,
    Reads 1 width id (platform.deserializeArrayUint8 · width)
  readsUint16 : Reads 2 2 platform.value16 platform.deserializeUint16
  readsUint32 : Reads 4 4 platform.value32 platform.deserializeUint32
  readsInt32 : Reads 4 4 (fun bytes => (platform.value32 bytes).toInt32)
    platform.deserializeInt32
  /-- A string is copied without adding a terminator. -/
  readsString : ∀ {size : Nat} buffer (destination : FixedBytes size) capacity,
    platform.StringFits buffer capacity →
      platform.deserializeString buffer destination capacity =
        (destination.write
          (window buffer.memory (buffer.next 4 + 4) (platform.stringLength buffer)),
         buffer.advance (buffer.next 4 + 4 + platform.stringLength buffer))
  failsString : ∀ {size : Nat} buffer (destination : FixedBytes size) capacity,
    ¬ platform.StringFits buffer capacity →
      (platform.deserializeString buffer destination capacity).2.error = true
  copiesInto : ∀ {size : Nat} change (array : FixedBytes size), change.length ≤ size →
    platform.copyInto change array = (true, array.write change)
  rejectsLonger : ∀ {size : Nat} change (array : FixedBytes size),
    size < change.length → platform.copyInto change array = (false, array)
  length_schemeCdrLe : platform.schemeCdrLe.length = 2

/-- Different bytes stand for different numbers. -/
theorem Lawful.value32_inj {platform : Platform} (lawful : platform.Lawful)
    {first second : List UInt8} (firstFour : first.length = 4)
    (secondFour : second.length = 4)
    (same : platform.value32 first = platform.value32 second) : first = second := by
  rw [← lawful.image32_value32 first firstFour, same,
    lawful.image32_value32 second secondFour]

end Platform

end EmbeddedRtps.Packet
