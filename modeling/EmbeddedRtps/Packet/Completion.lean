import EmbeddedRtps.Packet.Layout
import Mathlib.Data.List.Nodup
import Mathlib.Data.List.Perm.Subperm

/-!
# Messages and the buffer they meet

A message that is shorter than `m_buffer` is followed there by bytes of earlier
messages.  A `Completion` is a choice of the length bytes the message lacks; a buffer
can have these, and any byte at all behind them.
-/

namespace EmbeddedRtps.Packet

open Foundation Multicast

/-! ## Messages in the buffer -/

section Messages

variable {change : List UInt8} {size : Nat}

theorem getElem?_write_of_lt (buffer : FixedBytes size) {index : Nat}
    (short : change.length ≤ size) (own : index < change.length) :
    (buffer.write change).bytes[index]? = change[index]? := by
  rw [FixedBytes.bytes_write short, List.getElem?_append_left own]

theorem getElem?_write_of_ge (buffer : FixedBytes size) {index : Nat}
    (short : change.length ≤ size) (beyond : change.length ≤ index) :
    (buffer.write change).bytes[index]? = buffer.bytes[index]? := by
  rw [FixedBytes.bytes_write short, List.getElem?_append_right beyond,
    List.getElem?_drop]
  congr 1
  omega

/-- A field that the message holds itself. -/
theorem window_write (buffer : FixedBytes size) {position width : Nat}
    (short : change.length ≤ size) (own : position + width ≤ change.length) :
    window (buffer.write change).bytes position width =
      window change position width := by
  rw [FixedBytes.bytes_write short, window_append_of_le own]

/-- What the message holds of a field. -/
theorem window_prefix_write (buffer : FixedBytes size) (position width : Nat)
    (short : change.length ≤ size) :
    window change position width <+:
      window (buffer.write change).bytes position width := by
  rw [FixedBytes.bytes_write short]
  exact window_prefix_append

/-- A field of the buffer that begins with what the message holds of it. -/
theorem window_write_of_leading (buffer : FixedBytes size) {position : Nat}
    {bytes : List UInt8} (short : change.length ≤ size)
    (there : window buffer.bytes position bytes.length = bytes)
    (leading : window change position bytes.length <+: bytes) :
    window (buffer.write change).bytes position bytes.length = bytes := by
  apply List.ext_getElem?
  intro index
  rw [getElem?_window]
  split
  next within =>
    by_cases own : position + index < change.length
    · have listed : index < (window change position bytes.length).length := by
        rw [window, List.length_take, List.length_drop]
        omega
      obtain ⟨suffix, completed⟩ := leading
      have here := congrArg (fun field => field[index]?) completed
      simp only [List.getElem?_append_left listed, getElem?_window, if_pos within] at here
      rw [getElem?_write_of_lt _ short own, here]
    · have here := congrArg (fun field => field[index]?) there
      simp only [getElem?_window, if_pos within] at here
      rw [getElem?_write_of_ge _ short (Nat.not_lt.mp own), here]
  next beyond => exact (List.getElem?_eq_none (by omega)).symm

/-- Some buffer completes a number to any value that begins with what the message holds. -/
theorem exists_value32_write {platform : Platform} (lawful : platform.Lawful)
    {position : Nat} {value : UInt32} (short : change.length ≤ size)
    (within : position + 4 ≤ size)
    (leading : window change position 4 <+: platform.image32 value) :
    ∃ buffer : FixedBytes size,
      platform.value32 (window (buffer.write change).bytes position 4) = value := by
  have four := lawful.length_image32 value
  have inside : position + (platform.image32 value).length ≤
      (List.replicate size (0 : UInt8)).length := by
    rwa [List.length_replicate, four]
  let buffer : FixedBytes size :=
    ⟨overwrite (List.replicate size 0) position (platform.image32 value),
      by rw [length_overwrite inside, List.length_replicate]⟩
  have completed := window_write_of_leading buffer short (window_overwrite_self inside)
    (by rwa [four])
  rw [four] at completed
  exact ⟨buffer, by rw [completed, lawful.value32_image32]⟩

/-- A message with all its length bytes announces one length. -/
theorem lengthAt_write (platform : Platform) (buffer : FixedBytes size)
    (short : change.length ≤ size) (long : 12 ≤ change.length) :
    platform.lengthAt (buffer.write change).bytes 8 =
      platform.lengthAt change 8 := by
  rw [Platform.lengthAt, window_write buffer short long, Platform.lengthAt]

/-- A message with text bytes has all its length bytes. -/
theorem long_of_mem_window {byte : UInt8} {width : Nat}
    (member : byte ∈ window change 12 width) : 12 ≤ change.length := by
  by_contra short
  rw [window, List.drop_of_length_le (by omega), List.take_nil] at member
  cases member

end Messages

/-! ## Completions of a message -/

/-- Four length bytes that begin with those the message has, in a buffer that has
room for both. -/
structure Completion (change : List UInt8) (size : Nat) where
  bytes : List UInt8
  four : bytes.length = 4
  leading : window change 8 4 <+: bytes
  room : 12 ≤ size
  short : change.length ≤ size

namespace Completion

variable {platform : Platform} {change : List UInt8} {size : Nat}

/-- The length they announce. -/
def length (completion : Completion change size) (platform : Platform) : Nat :=
  (platform.value32 completion.bytes).toNat

/-- A buffer that has them at their place, and `fill` elsewhere. -/
def buffer (completion : Completion change size) (fill : UInt8) : FixedBytes size where
  bytes := overwrite (List.replicate size fill) 8 completion.bytes
  length_eq := by
    have room := completion.room
    rw [length_overwrite, List.length_replicate]
    rw [List.length_replicate, completion.four]
    exact room

/-- What the callback decodes when that buffer receives the message. -/
def memory (completion : Completion change size) (fill : UInt8) : List UInt8 :=
  ((completion.buffer fill).write change).bytes

variable (completion : Completion change size) (fill : UInt8)

theorem length_memory : (completion.memory fill).length = size :=
  FixedBytes.length_eq _

/-- The completion the message finds in a buffer. -/
def ofBuffer (content : FixedBytes size) (short : change.length ≤ size)
    (room : 12 ≤ size) : Completion change size where
  bytes := window (content.write change).bytes 8 4
  four := by
    apply length_window
    rw [(content.write change).length_eq]
    exact room
  leading := window_prefix_write content 8 4 short
  room := room
  short := short

/-- A message with all its length bytes has one completion. -/
theorem length_eq_lengthAt (long : 12 ≤ change.length) :
    completion.length platform = platform.lengthAt change 8 := by
  have whole := completion.leading.eq_of_length
    (by rw [length_window long, completion.four])
  rw [length, Platform.lengthAt, whole]

theorem window_memory : window (completion.memory fill) 8 4 = completion.bytes := by
  have four := completion.four
  have room := completion.room
  have inside : 8 + completion.bytes.length ≤ (List.replicate size fill).length := by
    rw [List.length_replicate]
    omega
  have leading := completion.leading
  have written := window_write_of_leading (completion.buffer fill) completion.short
    (window_overwrite_self inside) (by rwa [four])
  rwa [four] at written

/-- The length that is decoded. -/
theorem lengthAt_memory :
    platform.lengthAt (completion.memory fill) 8 = completion.length platform := by
  rw [Platform.lengthAt, completion.window_memory, length]

/-- Behind the length and behind the message there is the filling. -/
theorem getElem?_memory {index : Nat} (beyond : change.length ≤ index)
    (text : 12 ≤ index) (within : index < size) :
    (completion.memory fill)[index]? = some fill := by
  have four := completion.four
  rw [memory, getElem?_write_of_ge _ completion.short beyond]
  change (overwrite (List.replicate size fill) 8 completion.bytes)[index]? = some fill
  rw [getElem?_overwrite_of_ge (by rw [List.length_replicate]; omega) (by omega)]
  simp [within]

/-- A number whose last byte the message lacks depends on the filling. -/
theorem value32_ne (lawful : platform.Lawful) {position : Nat}
    (beyond : change.length < position + 4) (text : 12 ≤ position)
    (within : position + 4 ≤ size) :
    platform.value32 (window (completion.memory 0) position 4) ≠
      platform.value32 (window (completion.memory 1) position 4) := by
  have four : ∀ fill, (window (completion.memory fill) position 4).length = 4 := by
    intro fill
    apply length_window
    rwa [completion.length_memory]
  have last : ∀ fill, (window (completion.memory fill) position 4)[3]? = some fill := by
    intro fill
    rw [getElem?_window, if_pos (by decide)]
    exact completion.getElem?_memory fill (by omega) (by omega) (by omega)
  intro same
  have windows := lawful.value32_inj (four 0) (four 1) same
  have fillings := last 0
  rw [windows, last 1] at fillings
  cases fillings

/-- So some filling misses a given value. -/
theorem exists_value32_ne (lawful : platform.Lawful) (position : Nat)
    (beyond : change.length < position + 4) (text : 12 ≤ position)
    (within : position + 4 ≤ size) (value : UInt32) :
    ∃ fill, platform.value32 (window (completion.memory fill) position 4) ≠ value := by
  by_contra all
  have same := fun fill => not_not.mp fun differs => all ⟨fill, differs⟩
  exact completion.value32_ne lawful beyond text within ((same 0).trans (same 1).symm)

/-- The length bytes with another one at their end. -/
def bytesWith (byte : UInt8) : List UInt8 :=
  completion.bytes.take 3 ++ [byte]

theorem length_bytesWith (byte : UInt8) : (completion.bytesWith byte).length = 4 := by
  have four := completion.four
  rw [bytesWith, List.length_append, List.length_take, List.length_singleton]
  omega

/-- A message that lacks the last length byte leaves it open. -/
theorem leading_bytesWith (lacks : change.length < 12) (byte : UInt8) :
    window change 8 4 <+: completion.bytesWith byte := by
  have few : (window change 8 4).length ≤ 3 := by
    rw [window, List.length_take, List.length_drop]
    omega
  exact (List.prefix_take_iff.mpr ⟨completion.leading, few⟩).trans (List.prefix_append _ _)

/-- Another choice of the last length byte. -/
def withLast (lacks : change.length < 12) (byte : UInt8) : Completion change size where
  bytes := completion.bytesWith byte
  four := completion.length_bytesWith byte
  leading := completion.leading_bytesWith lacks byte
  room := completion.room
  short := completion.short

include completion in
/-- A message that lacks a length byte may announce a long text: the byte can be chosen
in 256 ways, and different bytes announce different lengths. -/
theorem exists_long (lawful : platform.Lawful) (lacks : change.length < 12) {bound : Nat}
    (small : bound < 255) :
    ∃ other : Completion change size, bound < other.length platform := by
  by_contra none
  have short : ∀ other : Completion change size, other.length platform ≤ bound :=
    fun other => Nat.not_lt.mp fun long => none ⟨other, long⟩
  have different : ∀ first ∈ List.range 256, ∀ second ∈ List.range 256,
      (completion.withLast lacks (.ofNat first)).length platform =
        (completion.withLast lacks (.ofNat second)).length platform → first = second := by
    intro first member second member' same
    have values := UInt32.toNat_inj.mp same
    have bytes := lawful.value32_inj (completion.withLast lacks _).four
      (completion.withLast lacks _).four values
    have last := List.singleton_inj.mp (List.append_cancel_left bytes)
    have numbers := congrArg UInt8.toNat last
    rw [UInt8.toNat_ofNat', UInt8.toNat_ofNat'] at numbers
    have := List.mem_range.mp member
    have := List.mem_range.mp member'
    omega
  have within : (List.range 256).map (fun byte =>
      (completion.withLast lacks (.ofNat byte)).length platform) ⊆
        List.range (bound + 1) := by
    intro length listed
    obtain ⟨byte, -, rfl⟩ := List.mem_map.mp listed
    exact List.mem_range.mpr (Nat.lt_succ_of_le (short _))
  have fewer := (List.subperm_of_subset (List.nodup_range.map_on different)
    within).length_le
  rw [List.length_map, List.length_range, List.length_range] at fewer
  omega

/-- An unterminated text is completed without a terminator. -/
theorem not_mem_window {length : Nat} (within : 12 + length ≤ size)
    (unterminated : (0 : UInt8) ∉ window change 12 length) :
    (0 : UInt8) ∉ window (completion.memory 1) 12 length := by
  intro member
  obtain ⟨index, found⟩ := List.mem_iff_getElem?.mp member
  rw [getElem?_window] at found
  split at found
  next listed =>
    by_cases own : 12 + index < change.length
    · rw [memory, getElem?_write_of_lt _ completion.short own] at found
      apply unterminated
      apply List.mem_iff_getElem?.mpr
      exact ⟨index, by rw [getElem?_window, if_pos listed, found]⟩
    · rw [completion.getElem?_memory 1 (by omega) (by omega) (by omega)] at found
      cases found
  next => cases found

/-- So is the text array it is copied into, if that had none either. -/
theorem cString_write_fill {length : Nat} (bounded : length ≤ 255)
    (within : 12 + length ≤ size)
    (unterminated : (0 : UInt8) ∉ window change 12 length) :
    cString ((FixedBytes.fill 255 1).write
      (window (completion.memory 1) 12 length)).bytes = none := by
  have fits : (window (completion.memory 1) 12 length).length ≤ 255 :=
    Nat.le_trans (List.length_take_le _ _) bounded
  apply cString_eq_none.mpr
  rw [FixedBytes.bytes_write fits]
  intro member
  rcases List.mem_append.mp member with own | rest
  · exact completion.not_mem_window within unterminated own
  · have one := List.eq_of_mem_replicate (List.mem_of_mem_drop rest)
    cases one

end Completion

/-! ## Sending a response -/

section Sending

variable (platform : Platform) (multicast : Bool) (fresh : Nat → UInt8)
variable {mp : MeasurementPacket}

/-- An unterminated text cannot be answered. -/
theorem sendResponse_eq_none (unterminated : cString mp.pTextmessage.bytes = none) :
    sendResponse platform multicast fresh mp = none := by
  simp [sendResponse, frame, MeasurementPacket.sizeOfTopic, strlen, unterminated]

/-- A terminated one is answered with its own fields. -/
theorem sendResponse_eq_some {string : List UInt8}
    (terminated : cString mp.pTextmessage.bytes = some string) :
    ∃ payload, sendResponse platform multicast fresh mp =
      some ⟨{ mp with pType := responseType multicast mp.pType }, payload⟩ := by
  simp [sendResponse, frame, MeasurementPacket.sizeOfTopic, strlen, terminated]

end Sending

end EmbeddedRtps.Packet
