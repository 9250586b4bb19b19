import EmbeddedRtps.Inet.Checksum

/-!
# The Internet checksum of a chain of buffers

The data of a packet lies in a chain of `pbuf`s, each with its own length and
alignment.  The checksum functions add up the sums of the single buffers and swap the
bytes of the accumulator whenever a buffer ends at an odd offset.  The result depends
on the data only, not on how it is divided.
-/

namespace EmbeddedRtps.Inet

open Foundation

/-- `LWIP_CHKSUM_ALGORITHM`. -/
inductive Algorithm where
  | version1
  | version2
  | version3
  deriving DecidableEq, Repr

/-- What the build fixes. -/
structure Host where
  order : ByteOrder
  algorithm : Algorithm
  deriving DecidableEq, Repr

/-- `LWIP_CHKSUM`. -/
def Host.lwipChksum (host : Host) (address : Nat) (data : List UInt8) : Nat :=
  match host.algorithm with
  | .version1 => lwipStandardChksum1 host.order data
  | .version2 => lwipStandardChksum2 host.order address data
  | .version3 => lwipStandardChksum3 host.order address data

/-- `inet_chksum`. -/
def inetChksum (host : Host) (address : Nat) (data : List UInt8) : Nat :=
  65535 - host.lwipChksum address data

/-- The payload of a `pbuf` and where it lies. -/
structure Segment where
  address : Nat
  payload : List UInt8
  deriving DecidableEq, Repr

/-- The data of successive buffers. -/
def flatten (segments : List Segment) : List UInt8 :=
  segments.flatMap Segment.payload

/-- A chain of `pbuf`s.  Its `tot_len` has 16 bits. -/
structure Chain where
  segments : List Segment
  small : (flatten segments).length < 2 ^ 16

namespace Chain

/-- The data of the chain. -/
def data (chain : Chain) : List UInt8 := flatten chain.segments

/-- `tot_len`. -/
def totLen (chain : Chain) : Nat := chain.data.length

theorem totLen_lt (chain : Chain) : chain.totLen < 2 ^ 16 := chain.small

/-- A chain of one buffer. -/
def single (address : Nat) (data : List UInt8) (small : data.length < 2 ^ 16) : Chain where
  segments := [⟨address, data⟩]
  small := by simpa [flatten] using small

/-- The payload of the first `pbuf`. -/
def head (chain : Chain) : List UInt8 :=
  match chain.segments with
  | [] => []
  | first :: _ => first.payload

theorem head_isPrefix (chain : Chain) : chain.head <+: chain.data := by
  rw [head, data]
  split
  next => exact List.nil_prefix
  next first rest chained => simp [chained, flatten]

end Chain

/-- One turn of the loops over a chain: `acc` and `swapped`. -/
def addSegment (host : Host) (sum : Nat × Bool) (segment : Segment) : Nat × Bool :=
  let acc := (sum.1 + host.lwipChksum segment.address segment.payload) % 2 ^ 32
  let acc := foldCarry acc
  if segment.payload.length % 2 ≠ 0 then (swapBytes acc, !sum.2) else (acc, sum.2)

/-- The loop and the swap after it. -/
def addChain (host : Host) (acc : Nat) (chain : Chain) : Nat :=
  let sum := chain.segments.foldl (addSegment host) (acc, false)
  if sum.2 then swapBytes sum.1 else sum.1

/-- `inet_chksum_pbuf`. -/
def inetChksumPbuf (host : Host) (chain : Chain) : Nat :=
  65535 - addChain host 0 chain % 65536

/-- `inet_cksum_pseudo_base`. -/
def inetCksumPseudoBase (host : Host) (chain : Chain) (proto protoLen acc : Nat) : Nat :=
  let acc := (addChain host acc chain + host.order.htons proto) % 2 ^ 32
  let acc := (acc + host.order.htons protoLen) % 2 ^ 32
  65535 - foldCarry (foldCarry acc) % 65536

/-- `ip4_addr_t`, by its octets in network order. -/
structure Ip4Addr where
  octet0 : UInt8
  octet1 : UInt8
  octet2 : UInt8
  octet3 : UInt8
  deriving DecidableEq, Repr

namespace Ip4Addr

/-- The address as it lies in memory. -/
def octets (addr : Ip4Addr) : List UInt8 :=
  [addr.octet0, addr.octet1, addr.octet2, addr.octet3]

/-- `ip4_addr_get_u32`. -/
def getU32 (order : ByteOrder) (addr : Ip4Addr) : Nat :=
  order.load32 addr.octet0 addr.octet1 addr.octet2 addr.octet3

end Ip4Addr

/-- `inet_chksum_pseudo`. -/
def inetChksumPseudo (host : Host) (chain : Chain) (proto protoLen : Nat)
    (src dest : Ip4Addr) : Nat :=
  let addr := src.getU32 host.order
  let acc := addr % 65536
  let acc := (acc + addr / 65536 % 65536) % 2 ^ 32
  let addr := dest.getU32 host.order
  let acc := (acc + addr % 65536) % 2 ^ 32
  let acc := (acc + addr / 65536 % 65536) % 2 ^ 32
  inetCksumPseudoBase host chain proto protoLen (foldCarry (foldCarry acc))

/-! ## The loop over the chain -/

theorem isChksum_lwipChksum (host : Host) (address : Nat) {data : List UInt8}
    (short : data.length ≤ 0x20000) :
    IsChksum host.order data (host.lwipChksum address data) := by
  rw [Host.lwipChksum]
  cases host.algorithm with
  | version1 => exact isChksum_version1 host.order short
  | version2 => exact isChksum_version2 host.order address short
  | version3 => exact isChksum_version3 host.order address data

/-- After some bytes the accumulator has their sum, in the frame of their length. -/
structure SumsTo (host : Host) (base : Nat) (bytes : List UInt8) (sum : Nat × Bool) :
    Prop where
  small : sum.1 ≤ 65535
  swapped : sum.2 = bytes.length.bodd
  same : SameSum sum.1 (turned sum.2 (base + wordSum host.order.upperFirst bytes))

theorem SumsTo.addSegment {host : Host} {base : Nat} {bytes : List UInt8}
    {sum : Nat × Bool} (sums : SumsTo host base bytes sum) {segment : Segment}
    (length : segment.payload.length < 2 ^ 16) :
    SumsTo host base (bytes ++ segment.payload) (addSegment host sum segment) := by
  have chksum : IsChksum host.order segment.payload _ :=
    isChksum_lwipChksum host segment.address (by omega)
  have bounded := sums.small
  have bounded' := chksum.small
  let acc := foldCarry (sum.1 + host.lwipChksum segment.address segment.payload)
  have small : acc ≤ 65535 := foldCarry_le (by omega)
  have same : SameSum acc
      (turned sum.2 (base + wordSum host.order.upperFirst (bytes ++ segment.payload))) := by
    rw [wordSum_append, ← sums.swapped, ← Nat.add_assoc, turned_add]
    exact (sameSum_foldCarry _).trans
      (sums.same.add (chksum.same.trans (sameSum_turned_wordSum _ _ _).symm))
  have step : Inet.addSegment host sum segment =
      if segment.payload.length % 2 ≠ 0 then (swapBytes acc, !sum.2) else (acc, sum.2) := by
    have fits : sum.1 + host.lwipChksum segment.address segment.payload < 2 ^ 32 := by
      omega
    simp only [Inet.addSegment, Nat.mod_eq_of_lt fits, acc]
  rw [step]
  split
  next odd =>
    have bodd : segment.payload.length.bodd = true := by
      simpa [Nat.mod_two_of_bodd] using odd
    exact ⟨swapBytes_le acc, by simp [sums.swapped, bodd],
      sameSum_swapBytes_turned small same⟩
  next even =>
    have bodd : segment.payload.length.bodd = false := by
      simpa [Nat.mod_two_of_bodd] using even
    exact ⟨small, by simp [sums.swapped, bodd], same⟩

theorem SumsTo.foldl {host : Host} {base : Nat} {bytes : List UInt8} {sum : Nat × Bool}
    (sums : SumsTo host base bytes sum) (segments : List Segment)
    (small : (flatten segments).length < 2 ^ 16) :
    SumsTo host base (bytes ++ flatten segments)
      (segments.foldl (Inet.addSegment host) sum) := by
  induction segments generalizing bytes sum with
  | nil => simpa [flatten] using sums
  | cons segment segments ih =>
      have total : segment.payload.length + (flatten segments).length < 2 ^ 16 := by
        simpa [flatten] using small
      have short : segment.payload.length < 2 ^ 16 := by omega
      have rest := ih (sums.addSegment short) (by omega)
      rwa [List.append_assoc] at rest

/-- The loop adds the words of the data, however it is divided. -/
theorem addChain_spec (host : Host) {base : Nat} (small : base ≤ 65535) (chain : Chain) :
    addChain host base chain ≤ 65535 ∧
      SameSum (addChain host base chain)
        (base + wordSum host.order.upperFirst chain.data) := by
  have start : SumsTo host base [] (base, false) :=
    ⟨small, rfl, by simp [turned, SameSum.refl]⟩
  have sums := start.foldl chain.segments chain.small
  simp only [List.nil_append] at sums
  have same := sums.same
  rw [addChain]
  cases swapped : (chain.segments.foldl (Inet.addSegment host) (base, false)).2 with
  | true =>
      rw [swapped] at same
      exact ⟨swapBytes_le _, sameSum_swapBytes_turned sums.small same⟩
  | false =>
      rw [swapped] at same
      exact ⟨sums.small, same⟩

/-- The checksum of a chain is that of its data in one buffer: it depends neither on
where the data is divided, nor on the alignment of the parts, nor on the version of the
algorithm. -/
theorem inetChksumPbuf_eq (host : Host) (chain : Chain) (algorithm : Algorithm)
    (address : Nat) :
    inetChksumPbuf host chain =
      inetChksum ⟨host.order, algorithm⟩ address chain.data := by
  have short : chain.data.length < 2 ^ 16 := chain.small
  obtain ⟨small, same⟩ := addChain_spec host (Nat.zero_le 65535) chain
  rw [Nat.zero_add] at same
  have divided : IsChksum host.order chain.data (addChain host 0 chain) := ⟨small, same⟩
  have whole : IsChksum host.order chain.data _ :=
    isChksum_lwipChksum ⟨host.order, algorithm⟩ address (by omega)
  rw [inetChksumPbuf, inetChksum, Nat.mod_eq_of_lt (by omega), divided.unique whole]

/-! ## The pseudo header -/

/-- A number of 16 bits in network order. -/
def networkBytes (number : Nat) : List UInt8 :=
  [UInt8.ofNat (number / 256), UInt8.ofNat (number % 256)]

/-- What the checksum covers besides the data. -/
def pseudoHeader (src dest : Ip4Addr) (proto protoLen : Nat) : List UInt8 :=
  src.octets ++ dest.octets ++ networkBytes proto ++ networkBytes protoLen

/-- A number that is put in network order is read as it lies in memory. -/
theorem htons_eq_wordSum (order : ByteOrder) {number : Nat} (small : number < 2 ^ 16) :
    order.htons number = wordSum order.upperFirst (networkBytes number) := by
  have upper : number / 256 % 256 = number / 256 := Nat.mod_eq_of_lt (by omega)
  rw [networkBytes, wordSum_load16, wordSum_nil]
  cases order <;>
    simp only [ByteOrder.htons, ByteOrder.load16, swapBytes, UInt8.toNat_ofNat'] <;> omega

/-- The sum of the two halves of an address. -/
theorem halves_eq_wordSum (order : ByteOrder) (addr : Ip4Addr) :
    addr.getU32 order % 65536 + addr.getU32 order / 65536 % 65536 =
      wordSum order.upperFirst addr.octets := by
  have front := load16_le order addr.octet0 addr.octet1
  have back := load16_le order addr.octet2 addr.octet3
  rw [Ip4Addr.octets, wordSum_load16, wordSum_load16, wordSum_nil, Ip4Addr.getU32]
  cases order <;> simp only [ByteOrder.load32] <;> omega

theorem wordSum_pseudoHeader_append (upper : Bool) (src dest : Ip4Addr)
    (proto protoLen : Nat) (data : List UInt8) :
    wordSum upper (pseudoHeader src dest proto protoLen ++ data) =
      wordSum upper src.octets + wordSum upper dest.octets +
        wordSum upper (networkBytes proto) + wordSum upper (networkBytes protoLen) +
        wordSum upper data := by
  simp only [pseudoHeader, wordSum_append, Ip4Addr.octets, networkBytes]
  simp

theorem htons_le (order : ByteOrder) {number : Nat} (small : number < 2 ^ 16) :
    order.htons number ≤ 65535 := by
  cases order with
  | little => exact swapBytes_le number
  | big => exact Nat.le_of_lt_succ small

/-- The common part adds the protocol and the length to the sum of the data. -/
theorem exists_inetCksumPseudoBase (host : Host) (chain : Chain) {proto protoLen acc : Nat}
    (small : proto < 2 ^ 16) (small' : protoLen < 2 ^ 16) (bounded : acc ≤ 65535) :
    ∃ sum ≤ 65535,
      SameSum sum (acc + wordSum host.order.upperFirst chain.data +
        wordSum host.order.upperFirst (networkBytes proto) +
        wordSum host.order.upperFirst (networkBytes protoLen)) ∧
      inetCksumPseudoBase host chain proto protoLen acc = 65535 - sum := by
  obtain ⟨bounded', same⟩ := addChain_spec host bounded chain
  have le := htons_le host.order small
  have le' := htons_le host.order small'
  let total := addChain host acc chain + host.order.htons proto + host.order.htons protoLen
  have folded : foldCarry (foldCarry total) ≤ 65535 := foldCarry_foldCarry_le (by omega)
  refine ⟨foldCarry (foldCarry total), folded, ?_, ?_⟩
  · refine ((sameSum_foldCarry _).trans (sameSum_foldCarry _)).trans ?_
    rw [← htons_eq_wordSum host.order small, ← htons_eq_wordSum host.order small']
    exact (same.add (.refl _)).add (.refl _)
  · have fits : addChain host acc chain + host.order.htons proto < 2 ^ 32 := by omega
    have fits' : total < 2 ^ 32 := by omega
    simp only [inetCksumPseudoBase, Nat.mod_eq_of_lt fits]
    rw [show (addChain host acc chain + host.order.htons proto +
      host.order.htons protoLen) % 2 ^ 32 = total from Nat.mod_eq_of_lt fits',
      Nat.mod_eq_of_lt (by omega)]

/-- The pseudo checksum is the inverted sum of the pseudo header and the data. -/
theorem exists_inetChksumPseudo (host : Host) (chain : Chain) {proto protoLen : Nat}
    (small : proto < 2 ^ 16) (small' : protoLen < 2 ^ 16) (src dest : Ip4Addr) :
    ∃ sum, IsChksum host.order (pseudoHeader src dest proto protoLen ++ chain.data) sum ∧
      inetChksumPseudo host chain proto protoLen src dest = 65535 - sum := by
  let source := src.getU32 host.order
  let target := dest.getU32 host.order
  let addresses := source % 65536 + source / 65536 % 65536 + target % 65536 + target / 65536 % 65536
  have halves : addresses = wordSum host.order.upperFirst src.octets +
      wordSum host.order.upperFirst dest.octets := by
    rw [← halves_eq_wordSum, ← halves_eq_wordSum]
    omega
  have bounded : foldCarry (foldCarry addresses) ≤ 65535 :=
    foldCarry_foldCarry_le (by omega)
  obtain ⟨sum, le, same, result⟩ :=
    exists_inetCksumPseudoBase host chain small small' bounded
  refine ⟨sum, ⟨le, same.trans ?_⟩, ?_⟩
  · have folded : SameSum (foldCarry (foldCarry addresses)) addresses :=
      (sameSum_foldCarry _).trans (sameSum_foldCarry _)
    refine (((folded.add (.refl _)).add (.refl _)).add (.refl _)).trans ?_
    rw [wordSum_pseudoHeader_append, halves]
    rw [show ∀ a b c d e : Nat, a + b + c + d + e = a + b + d + e + c by intros; omega]
  · rw [← result]
    have fits : source % 65536 + source / 65536 % 65536 < 2 ^ 32 := by omega
    have fits' : source % 65536 + source / 65536 % 65536 + target % 65536 < 2 ^ 32 := by omega
    have fits'' : addresses < 2 ^ 32 := by omega
    change inetCksumPseudoBase host chain proto protoLen (foldCarry (foldCarry
      ((((source % 65536 + source / 65536 % 65536) % 2 ^ 32 + target % 65536) % 2 ^ 32 +
        target / 65536 % 65536) % 2 ^ 32))) = _
    rw [Nat.mod_eq_of_lt fits, Nat.mod_eq_of_lt fits', Nat.mod_eq_of_lt fits'']

/-- The sum of the pseudo header and some data vanishes.  This does not depend on the
host. -/
def Verifies (src dest : Ip4Addr) (proto : Nat) (data : List UInt8) : Prop :=
  wordSum false (pseudoHeader src dest proto data.length ++ data) % 65535 = 0

instance (src dest : Ip4Addr) (proto : Nat) (data : List UInt8) :
    Decidable (Verifies src dest proto data) :=
  inferInstanceAs (Decidable (_ = _))

theorem wordSum_mod_eq_zero_iff (order : ByteOrder) (bytes : List UInt8) :
    wordSum order.upperFirst bytes % 65535 = 0 ↔ wordSum false bytes % 65535 = 0 := by
  cases order with
  | little => rfl
  | big =>
      have other := (sameSum_wordSum_not false bytes).1
      simp only [Bool.not_false, Nat.ModEq] at other
      simp only [ByteOrder.upperFirst]
      omega

/-- A checksum over data that contains its own checksum is zero exactly if the data
verifies. -/
theorem inetChksumPseudo_eq_zero_iff (host : Host) (chain : Chain) {proto : Nat}
    (small : proto < 2 ^ 16) (nonzero : proto ≠ 0) (src dest : Ip4Addr) :
    inetChksumPseudo host chain proto chain.totLen src dest = 0 ↔
      Verifies src dest proto chain.data := by
  obtain ⟨sum, isChksum, result⟩ :=
    exists_inetChksumPseudo host chain small chain.totLen_lt src dest
  obtain ⟨bounded, congruent, zero⟩ := isChksum
  rw [Verifies, ← wordSum_mod_eq_zero_iff host.order, result]
  -- the protocol number keeps the sum from being zero
  have positive : 0 < host.order.htons proto := by
    cases host.order with
    | little =>
        simp only [ByteOrder.htons, swapBytes]
        omega
    | big => exact Nat.pos_of_ne_zero nonzero
  rw [htons_eq_wordSum host.order small] at positive
  have words := wordSum_pseudoHeader_append host.order.upperFirst src dest proto
    chain.totLen chain.data
  simp only [Nat.ModEq, Chain.totLen] at congruent zero words ⊢
  omega

end EmbeddedRtps.Inet
