import EmbeddedRtps.Foundation.OnesComplement

/-!
# The Internet checksum of a buffer

`inet_chksum.c` has three versions of `lwip_standard_chksum`, of which the build picks
one.  The first reads octets, the second 16-bit words, the third mostly 32-bit words,
with special treatment of what is left over at either end of an unaligned buffer.  All
accumulate in 32 bits.  They are modelled for hosts of either byte order and for
buffers at any address, and shown to compute the same.

`foldCarry` is the macro `FOLD_U32T` and `swapBytes` the macro `SWAP_BYTES_IN_WORD`.
-/

namespace EmbeddedRtps.Inet

open Foundation

/-- `BYTE_ORDER` of the host. -/
inductive ByteOrder where
  | little
  | big
  deriving DecidableEq, Repr

namespace ByteOrder

/-- Whether the first byte of a word in memory is its upper one. -/
def upperFirst : ByteOrder → Bool
  | .little => false
  | .big => true

/-- A 16-bit word in memory. -/
def load16 (order : ByteOrder) (byte0 byte1 : UInt8) : Nat :=
  match order with
  | .little => byte0.toNat + 256 * byte1.toNat
  | .big => 256 * byte0.toNat + byte1.toNat

/-- A 32-bit word in memory. -/
def load32 (order : ByteOrder) (byte0 byte1 byte2 byte3 : UInt8) : Nat :=
  match order with
  | .little => order.load16 byte0 byte1 + 65536 * order.load16 byte2 byte3
  | .big => 65536 * order.load16 byte0 byte1 + order.load16 byte2 byte3

/-- `lwip_htons`. -/
def htons (order : ByteOrder) (word : Nat) : Nat :=
  match order with
  | .little => swapBytes word
  | .big => word

end ByteOrder

/-! ## Octet by octet -/

/-- The loop over pairs of octets in network order, with the octet that remains. -/
def addOctets : Nat → List UInt8 → Nat
  | acc, first :: second :: rest =>
      addOctets ((acc + (first.toNat * 256 + second.toNat)) % 2 ^ 32) rest
  | acc, [octet] => (acc + octet.toNat * 256) % 2 ^ 32
  | acc, [] => acc

/-- `lwip_standard_chksum`, version 1. -/
def lwipStandardChksum1 (order : ByteOrder) (data : List UInt8) : Nat :=
  let acc := foldCarry (addOctets 0 data)
  let acc := if acc / 65536 ≠ 0 then foldCarry acc else acc
  order.htons (acc % 65536)

/-! ## Word by word -/

/-- The loop over 16-bit words; it leaves less than a word. -/
def addWords (order : ByteOrder) : Nat → List UInt8 → Nat × List UInt8
  | sum, byte0 :: byte1 :: rest =>
      addWords order ((sum + order.load16 byte0 byte1) % 2 ^ 32) rest
  | sum, rest => (sum, rest)

/-- What versions 2 and 3 end with.  The word `t` has the byte that may precede the
first aligned word in its second half and the one left over in its first. -/
def addEndBytes (order : ByteOrder) (odd : Bool) (before : UInt8)
    (words : Nat × List UInt8) : Nat :=
  let t := order.load16 (words.2.headD 0) before
  let sum := foldCarry (foldCarry ((words.1 + t) % 2 ^ 32))
  let sum := if odd then swapBytes sum else sum
  sum % 65536

/-- The byte before the first aligned word, and the data from there on. -/
def alignToWord (odd : Bool) (data : List UInt8) : UInt8 × List UInt8 :=
  match odd, data with
  | true, byte :: rest => (byte, rest)
  | _, _ => (0, data)

/-- `lwip_standard_chksum`, version 2, for data at `address`. -/
def lwipStandardChksum2 (order : ByteOrder) (address : Nat) (data : List UInt8) : Nat :=
  let odd := address.bodd
  let aligned := alignToWord odd data
  addEndBytes order odd aligned.1 (addWords order 0 aligned.2)

/-! ## Two long words at a time -/

/-- The word before the first one that is aligned to four bytes. -/
def alignToLong (order : ByteOrder) (address : Nat) (data : List UInt8) :
    Nat × List UInt8 :=
  match data with
  | byte0 :: byte1 :: rest =>
      if address % 4 ≠ 0 then (order.load16 byte0 byte1, rest) else (0, data)
  | _ => (0, data)

/-- The unrolled loop over pairs of 32-bit words. -/
def addLongs (order : ByteOrder) : Nat → List UInt8 → Nat × List UInt8
  | sum, b0 :: b1 :: b2 :: b3 :: b4 :: b5 :: b6 :: b7 :: rest =>
      let tmp := addCarry sum (order.load32 b0 b1 b2 b3)
      addLongs order (addCarry tmp (order.load32 b4 b5 b6 b7)) rest
  | sum, rest => (sum, rest)

/-- `lwip_standard_chksum`, version 3, for data at `address`. -/
def lwipStandardChksum3 (order : ByteOrder) (address : Nat) (data : List UInt8) : Nat :=
  let odd := address.bodd
  let aligned := alignToWord odd data
  let start := alignToLong order (address + (data.length - aligned.2.length)) aligned.2
  let longs := addLongs order start.1 start.2
  addEndBytes order odd aligned.1 (addWords order (foldCarry longs.1) longs.2)

/-! ## What the loops compute -/

theorem load16_eq (order : ByteOrder) (byte0 byte1 : UInt8) :
    order.load16 byte0 byte1 =
      byteWeight order.upperFirst * byte0.toNat +
        byteWeight (!order.upperFirst) * byte1.toNat := by
  cases order <;> simp [ByteOrder.load16, ByteOrder.upperFirst, byteWeight]

theorem load16_le (order : ByteOrder) (byte0 byte1 : UInt8) :
    order.load16 byte0 byte1 ≤ 65535 := by
  have small := byte0.toNat_lt
  have small' := byte1.toNat_lt
  cases order <;> simp only [ByteOrder.load16] <;> omega

theorem load32_lt (order : ByteOrder) (b0 b1 b2 b3 : UInt8) :
    order.load32 b0 b1 b2 b3 < 2 ^ 32 := by
  have front := load16_le order b0 b1
  have back := load16_le order b2 b3
  cases order <;> simp only [ByteOrder.load32] <;> omega

theorem wordSum_load16 (order : ByteOrder) (byte0 byte1 : UInt8) (rest : List UInt8) :
    wordSum order.upperFirst (byte0 :: byte1 :: rest) =
      order.load16 byte0 byte1 + wordSum order.upperFirst rest := by
  rw [wordSum_cons, wordSum_cons, load16_eq, Bool.not_not, Nat.add_assoc]

/-- A long word counts as its two halves. -/
theorem sameSum_load32 (order : ByteOrder) (b0 b1 b2 b3 : UInt8) :
    SameSum (order.load32 b0 b1 b2 b3) (order.load16 b0 b1 + order.load16 b2 b3) := by
  cases order <;> simp only [ByteOrder.load32, SameSum, Nat.ModEq] <;> omega

/-- No carry is lost in the accumulator for up to `0x20000` octets. -/
theorem addOctets_spec (acc : Nat) (data : List UInt8)
    (enough : acc + 65535 * ((data.length + 1) / 2) < 2 ^ 32) :
    addOctets acc data = acc + wordSum true data ∧
      addOctets acc data ≤ acc + 65535 * ((data.length + 1) / 2) := by
  fun_induction addOctets acc data with
  | case1 acc first second rest ih =>
      have small := load16_le .big first second
      have split := wordSum_load16 .big first second rest
      simp only [ByteOrder.upperFirst, ByteOrder.load16] at small split
      simp only [List.length_cons] at enough ⊢
      rw [Nat.mod_eq_of_lt (by omega)] at ih ⊢
      obtain ⟨sum, bounded⟩ := ih (by omega)
      rw [split]
      omega
  | case2 acc octet =>
      have small := octet.toNat_lt
      simp only [List.length_singleton] at enough ⊢
      rw [Nat.mod_eq_of_lt (by omega), wordSum_cons, wordSum_nil, byteWeight]
      simp only [if_true]
      omega
  | case3 acc => exact ⟨rfl, Nat.le_add_right _ _⟩

/-- The loop over words loses no carry either. -/
theorem addWords_spec (order : ByteOrder) (sum : Nat) (data : List UInt8)
    (enough : sum + 65535 * (data.length / 2) < 2 ^ 32) :
    (addWords order sum data).1 + wordSum order.upperFirst (addWords order sum data).2 =
        sum + wordSum order.upperFirst data ∧
      (addWords order sum data).1 ≤ sum + 65535 * (data.length / 2) ∧
      (addWords order sum data).2.length ≤ 1 := by
  fun_induction addWords order sum data with
  | case1 sum byte0 byte1 rest ih =>
      have small := load16_le order byte0 byte1
      simp only [List.length_cons] at enough
      rw [Nat.mod_eq_of_lt (by omega)] at ih ⊢
      obtain ⟨kept, bounded, short⟩ := ih (by omega)
      rw [kept, wordSum_load16]
      refine ⟨by omega, ?_, short⟩
      simp only [List.length_cons]
      omega
  | case2 sum rest short =>
      refine ⟨rfl, by omega, ?_⟩
      match rest, short with
      | [], _ => exact Nat.zero_le _
      | [_], _ => exact Nat.le_refl 1
      | byte0 :: byte1 :: rest, short => exact absurd rfl (short byte0 byte1 rest)

/-- The unrolled loop adds every carry back. -/
theorem addLongs_spec (order : ByteOrder) (sum : Nat) (data : List UInt8)
    (small : sum < 2 ^ 32) :
    SameSum ((addLongs order sum data).1 +
          wordSum order.upperFirst (addLongs order sum data).2)
        (sum + wordSum order.upperFirst data) ∧
      (addLongs order sum data).1 < 2 ^ 32 ∧
      (addLongs order sum data).2.length ≤ 7 := by
  fun_induction addLongs order sum data with
  | case1 sum b0 b1 b2 b3 b4 b5 b6 b7 rest tmp ih =>
      have first := load32_lt order b0 b1 b2 b3
      have second := load32_lt order b4 b5 b6 b7
      have small' : tmp < 2 ^ 32 := addCarry_lt small
      obtain ⟨kept, rest⟩ := ih (addCarry_lt small')
      refine ⟨kept.trans ?_, rest⟩
      have both := ((sameSum_addCarry small' second).trans
        ((sameSum_addCarry small first).add (.refl _))).trans
        (((SameSum.refl sum).add (sameSum_load32 order b0 b1 b2 b3)).add
          (sameSum_load32 order b4 b5 b6 b7))
      simp only [wordSum_load16]
      refine (both.add (.refl _)).trans ?_
      rw [show ∀ a b c d e f : Nat, a + (b + c) + (d + e) + f =
        a + (b + (c + (d + (e + f)))) by intros; omega]
  | case2 sum rest short =>
      refine ⟨.refl _, small, ?_⟩
      by_contra long
      match rest, short with
      | b0 :: b1 :: b2 :: b3 :: b4 :: b5 :: b6 :: b7 :: rest, short =>
          exact short b0 b1 b2 b3 b4 b5 b6 b7 rest rfl
      | [], _ | [_], _ | [_, _], _ | [_, _, _], _ | [_, _, _, _], _
      | [_, _, _, _, _], _ | [_, _, _, _, _, _], _ | [_, _, _, _, _, _, _], _ =>
          simp at long

/-! ## The ends -/

/-- The checksum of data is the sum of its words as the host reads them from an even
address. -/
structure IsChksum (order : ByteOrder) (data : List UInt8) (chksum : Nat) : Prop where
  small : chksum ≤ 65535
  same : SameSum chksum (wordSum order.upperFirst data)

theorem IsChksum.unique {order : ByteOrder} {data : List UInt8} {chksum other : Nat}
    (first : IsChksum order data chksum) (second : IsChksum order data other) :
    chksum = other :=
  (first.same.trans second.same.symm).eq first.small second.small

theorem alignToWord_spec (order : ByteOrder) (odd : Bool) (data : List UInt8) :
    wordSum order.upperFirst (alignToWord odd data).2 +
        byteWeight (!order.upperFirst) * (alignToWord odd data).1.toNat =
      wordSum (order.upperFirst ^^ odd) data := by
  match odd, data with
  | true, byte :: rest =>
      rw [alignToWord, Bool.xor_true, wordSum_cons, Bool.not_not, Nat.add_comm]
  | true, [] | false, [] | false, _ :: _ => simp [alignToWord]

/-- The end bytes complete a sum of whole words, and the result is turned to what it
would be at an even address. -/
theorem isChksum_addEndBytes {order : ByteOrder} {odd : Bool} {data : List UInt8}
    {words : Nat × List UInt8} (small : words.1 + 65535 < 2 ^ 32)
    (short : words.2.length ≤ 1)
    (kept : SameSum (words.1 + wordSum order.upperFirst words.2)
      (wordSum order.upperFirst (alignToWord odd data).2)) :
    IsChksum order data (addEndBytes order odd (alignToWord odd data).1 words) := by
  have last : wordSum order.upperFirst words.2 =
      byteWeight order.upperFirst * (words.2.headD 0).toNat := by
    match words.2, short with
    | [], _ => simp
    | [byte], _ => simp [wordSum_cons]
  let t := order.load16 (words.2.headD 0) (alignToWord odd data).1
  have bounded : t ≤ 65535 := load16_le order _ _
  have total : SameSum (words.1 + t) (wordSum (order.upperFirst ^^ odd) data) := by
    rw [← alignToWord_spec, show t = _ from load16_eq order _ _, ← last, ← Nat.add_assoc]
    exact kept.add (.refl _)
  let sum := foldCarry (foldCarry (words.1 + t))
  have folded : sum ≤ 65535 := foldCarry_foldCarry_le (by omega)
  have same : SameSum sum (wordSum (order.upperFirst ^^ odd) data) :=
    ((sameSum_foldCarry _).trans (sameSum_foldCarry _)).trans total
  have result : addEndBytes order odd (alignToWord odd data).1 words =
      (if odd then swapBytes sum else sum) % 65536 := by
    have fits : (words.1 + t) % 2 ^ 32 = words.1 + t := Nat.mod_eq_of_lt (by omega)
    change (if odd then swapBytes (foldCarry (foldCarry ((words.1 + t) % 2 ^ 32)))
      else foldCarry (foldCarry ((words.1 + t) % 2 ^ 32))) % 65536 = _
    rw [fits]
  rw [result]
  cases odd with
  | true =>
      have swapped := swapBytes_le sum
      rw [if_pos rfl, Nat.mod_eq_of_lt (by omega)]
      exact ⟨swapped, sameSum_swapBytes_wordSum folded (by simpa using same)⟩
  | false =>
      rw [if_neg (by decide), Nat.mod_eq_of_lt (by omega)]
      exact ⟨folded, by simpa using same⟩

theorem length_alignToWord_le (odd : Bool) (data : List UInt8) :
    (alignToWord odd data).2.length ≤ data.length := by
  match odd, data with
  | true, byte :: rest => exact Nat.le_succ _
  | true, [] | false, [] | false, _ :: _ => exact Nat.le_refl _

theorem alignToLong_spec (order : ByteOrder) (address : Nat) (data : List UInt8) :
    (alignToLong order address data).1 +
        wordSum order.upperFirst (alignToLong order address data).2 =
      wordSum order.upperFirst data ∧ (alignToLong order address data).1 ≤ 65535 := by
  fun_cases alignToLong order address data with
  | case1 byte0 byte1 rest =>
      exact ⟨(wordSum_load16 order byte0 byte1 rest).symm, load16_le order byte0 byte1⟩
  | case2 | case3 => simp

/-! ## The three versions -/

theorem isChksum_version1 (order : ByteOrder) {data : List UInt8}
    (short : data.length ≤ 0x20000) :
    IsChksum order data (lwipStandardChksum1 order data) := by
  obtain ⟨added, bounded⟩ := addOctets_spec 0 data (by omega)
  rw [Nat.zero_add] at added
  let acc := foldCarry (addOctets 0 data)
  let sum := if acc / 65536 ≠ 0 then foldCarry acc else acc
  have folded : sum ≤ 65535 ∧ SameSum sum (wordSum true data) := by
    have same : SameSum acc (wordSum true data) := added ▸ sameSum_foldCarry _
    by_cases carry : acc / 65536 ≠ 0
    · rw [show sum = foldCarry acc from if_pos carry]
      exact ⟨foldCarry_foldCarry_le (by omega), (sameSum_foldCarry acc).trans same⟩
    · rw [show sum = acc from if_neg carry]
      exact ⟨by omega, same⟩
  have result : lwipStandardChksum1 order data = order.htons sum := by
    change order.htons (sum % 65536) = _
    rw [Nat.mod_eq_of_lt (by omega)]
  rw [result]
  cases order with
  | little => exact ⟨swapBytes_le sum, sameSum_swapBytes_wordSum folded.1 folded.2⟩
  | big => exact ⟨folded.1, folded.2⟩

theorem isChksum_version2 (order : ByteOrder) (address : Nat) {data : List UInt8}
    (short : data.length ≤ 0x20000) :
    IsChksum order data (lwipStandardChksum2 order address data) := by
  have length := length_alignToWord_le address.bodd data
  obtain ⟨kept, bounded, rest⟩ :=
    addWords_spec order 0 (alignToWord address.bodd data).2 (by omega)
  refine isChksum_addEndBytes ?_ rest ?_
  · omega
  · rw [kept, Nat.zero_add]

/-- Version 3 has no limit on the length. -/
theorem isChksum_version3 (order : ByteOrder) (address : Nat) (data : List UInt8) :
    IsChksum order data (lwipStandardChksum3 order address data) := by
  let aligned := alignToWord address.bodd data
  let start := alignToLong order (address + (data.length - aligned.2.length)) aligned.2
  obtain ⟨begun, small⟩ : start.1 + wordSum order.upperFirst start.2 =
      wordSum order.upperFirst aligned.2 ∧ start.1 ≤ 65535 := alignToLong_spec _ _ _
  let longs := addLongs order start.1 start.2
  obtain ⟨summed, bounded, few⟩ : SameSum (longs.1 + wordSum order.upperFirst longs.2)
      (start.1 + wordSum order.upperFirst start.2) ∧ longs.1 < 2 ^ 32 ∧
      longs.2.length ≤ 7 := addLongs_spec order start.1 start.2 (by omega)
  have room : foldCarry longs.1 ≤ 131070 := by
    rw [foldCarry]
    omega
  obtain ⟨kept, bounded', rest⟩ :=
    addWords_spec order (foldCarry longs.1) longs.2 (by omega)
  have fits : (addWords order (foldCarry longs.1) longs.2).1 + 65535 < 2 ^ 32 := by omega
  refine isChksum_addEndBytes fits rest ?_
  rw [kept]
  exact (((sameSum_foldCarry longs.1).add (.refl _)).trans summed).trans
    (begun ▸ .refl _)

/-- The optimised versions of the checksum agree with the plain one, wherever the data
lies and whatever the byte order of the host. -/
theorem chksum_versions_agree (order : ByteOrder) (address : Nat) {data : List UInt8}
    (short : data.length ≤ 0x20000) :
    lwipStandardChksum2 order address data = lwipStandardChksum1 order data ∧
      lwipStandardChksum3 order address data = lwipStandardChksum1 order data :=
  ⟨(isChksum_version2 order address short).unique (isChksum_version1 order short),
    (isChksum_version3 order address data).unique (isChksum_version1 order short)⟩

/-- Eleven bytes at an odd address. -/
theorem chksum_versions_agree_odd :
    lwipStandardChksum3 .little 3 [1, 2, 3, 4, 5, 6, 7, 8, 9, 10, 11] =
      lwipStandardChksum1 .little [1, 2, 3, 4, 5, 6, 7, 8, 9, 10, 11] :=
  (chksum_versions_agree .little 3 (by decide)).2

end EmbeddedRtps.Inet
