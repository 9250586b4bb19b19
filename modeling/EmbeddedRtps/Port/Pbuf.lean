import EmbeddedRtps.Foundation.Bytes
import Mathlib.Algebra.Ring.Nat

/-!
# Packet buffers

A packet of lwIP is a chain of `pbuf`s, each with a part of its payload.  The lengths are
16 bits wide.  Copying out of the chain gives the same bytes as a window of the payload
in one piece, so that nothing depends on how a packet is divided.
-/

namespace EmbeddedRtps.Port

open Foundation

/-- A chain of `pbuf`s by their payloads.  Its length fits `tot_len` of the first one. -/
structure Pbuf where
  payloads : List (List UInt8)
  small : payloads.flatten.length < 2 ^ 16

/-- The loop of `pbuf_copy_partial` over the chain: what is copied if `len` bytes are left
to copy and `offset` bytes to skip.  None of its 16-bit operations wraps. -/
def copyPartial : List (List UInt8) → Nat → Nat → List UInt8
  | [], _, _ => []
  | payload :: rest, len, offset =>
      if len = 0 then
        []
      else if offset ≠ 0 ∧ payload.length ≤ offset then
        copyPartial rest len (offset - payload.length)
      else
        let bufCopyLen := min (payload.length - offset) len
        (payload.drop offset).take bufCopyLen ++ copyPartial rest (len - bufCopyLen) 0

theorem copyPartial_eq_window (payloads : List (List UInt8)) (len offset : Nat) :
    copyPartial payloads len offset = window payloads.flatten offset len := by
  induction payloads generalizing len offset with
  | nil => simp [copyPartial, window]
  | cons payload rest ih =>
      rw [copyPartial, List.flatten_cons]
      split
      next empty => simp [empty, window]
      next =>
        split
        next skipped =>
          rw [ih, window, window, List.drop_append, List.drop_eq_nil_of_le skipped.2,
            List.nil_append]
        next within =>
          have inside : offset ≤ payload.length := by omega
          simp only [ih, window]
          rw [List.drop_append_of_le_length inside, List.take_append, List.length_drop,
            List.drop_zero]
          congr 1
          · rw [← List.length_drop, List.take_eq_take_iff]
            omega
          · congr 1
            omega

namespace Pbuf

/-- The payload in one piece. -/
def bytes (buffer : Pbuf) : List UInt8 :=
  buffer.payloads.flatten

def totLen (buffer : Pbuf) : UInt16 :=
  .ofNat buffer.bytes.length

/-- The bytes `pbuf_copy_partial` copies; it returns their number. -/
def pbufCopyPartial (buffer : Pbuf) (len offset : UInt16) : List UInt8 :=
  copyPartial buffer.payloads len.toNat offset.toNat

variable {buffer : Pbuf} {position : UInt16} {size : Nat}

theorem length_bytes_lt (buffer : Pbuf) : buffer.bytes.length < 2 ^ 16 :=
  buffer.small

theorem lt_totLen_iff : position < buffer.totLen ↔ position.toNat < buffer.bytes.length := by
  rw [UInt16.lt_iff_toNat_lt, totLen, UInt16.toNat_ofNat',
    Nat.mod_eq_of_lt buffer.length_bytes_lt]

/-- Copy `size` bytes and fail if the number returned is another one, as callers do.  The
size is passed as 16 bits and compared as it is. -/
def copyAll (buffer : Pbuf) (size : Nat) (position : UInt16) : Option (List UInt8) :=
  let copied := buffer.pbufCopyPartial (.ofNat size) position
  if copied.length ≠ size then none else some copied

/-- A size that does not fit into 16 bits is never returned, and no packet is as long. -/
theorem copyAll_eq (buffer : Pbuf) (position : UInt16) (positive : 0 < size) :
    buffer.copyAll size position =
      if position.toNat + size ≤ buffer.bytes.length then
        some (window buffer.bytes position.toNat size)
      else
        none := by
  have small := buffer.length_bytes_lt
  simp only [copyAll, pbufCopyPartial, copyPartial_eq_window, UInt16.toNat_ofNat']
  have length : (window buffer.payloads.flatten position.toNat (size % 2 ^ 16)).length =
      min (size % 2 ^ 16) (buffer.bytes.length - position.toNat) := by
    rw [window, List.length_take, List.length_drop, bytes]
  rw [length]
  split
  next short => rw [if_neg (by omega)]
  next whole =>
    rw [if_pos (by omega), bytes, Nat.mod_eq_of_lt (by omega)]

end Pbuf

end EmbeddedRtps.Port
