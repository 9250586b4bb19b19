import EmbeddedRtps.Inet.Chain
import Mathlib.Data.List.GetD

/-!
# UDP datagrams

What `udp_sendto_if_src` puts before the payload and how the header is read again.  The
sender writes it into the room before the payload of the first `pbuf`, or into a `pbuf`
of its own.  The checksum covers a pseudo header, the header and the payload.  A checksum
field of zero means that there is no checksum, so a computed zero is sent as `0xffff`.

`udp_sendto_if_src` has no checksum of the payload at hand: `have_chksum` is zero.
Routing, the binding of an unbound `pcb`, UDP-Lite and IPv6 are left out.
-/

namespace EmbeddedRtps.Udp

open Foundation Inet

/-- `UDP_HLEN`. -/
def udpHlen : Nat := 8

/-- `IP_PROTO_UDP`. -/
def ipProtoUdp : Nat := 17

/-- A 16-bit word as the host writes it to memory. -/
def store16 (order : ByteOrder) (word : Nat) : List UInt8 :=
  match order with
  | .little => [UInt8.ofNat (word % 256), UInt8.ofNat (word / 256)]
  | .big => [UInt8.ofNat (word / 256), UInt8.ofNat (word % 256)]

/-- `struct udp_hdr` as it is filled in: the ports and the length through `lwip_htons`,
the checksum as it was computed. -/
def udpHdr (order : ByteOrder) (src dest : UInt16) (len chksum : Nat) : List UInt8 :=
  store16 order (order.htons src.toNat) ++ store16 order (order.htons dest.toNat) ++
    store16 order (order.htons len) ++ store16 order chksum

/-! ## Sending -/

/-- `ERR_MEM`. -/
inductive Err where
  | errMem
  deriving DecidableEq, Repr

/-- Where the header goes: before the payload of the first `pbuf`, or into a new one
whose payload is at `address`. -/
inductive Placement where
  | inFront
  | separate (address : Nat)
  deriving DecidableEq, Repr

/-- The chain `q` with a header before the chain of `first` and `rest`.  A chain without
data is not chained to a new `pbuf`. -/
def addHeader (header : List UInt8) (first : Segment) (rest : List Segment) :
    Placement → List Segment
  | .inFront => ⟨first.address - header.length, header ++ first.payload⟩ :: rest
  | .separate address =>
      if (flatten (first :: rest)).length ≠ 0 then
        ⟨address, header⟩ :: first :: rest
      else
        [⟨address, header⟩]

theorem flatten_addHeader (header : List UInt8) (first : Segment) (rest : List Segment)
    (place : Placement) :
    flatten (addHeader header first rest place) = header ++ flatten (first :: rest) := by
  cases place with
  | inFront => simp [addHeader, flatten]
  | separate address =>
      rw [addHeader]
      split
      next => simp [flatten]
      next empty =>
        have nothing : flatten (first :: rest) = [] :=
          List.eq_nil_of_length_eq_zero (not_not.mp empty)
        rw [nothing]
        simp [flatten]

/-- A `pbuf` chain that is sent: the room before its payload, zero for a `pbuf` that
refers to a payload elsewhere, and its buffers. -/
structure Outgoing where
  headroom : Nat
  first : Segment
  rest : List Segment
  small : (flatten (first :: rest)).length < 2 ^ 16

namespace Outgoing

/-- The payload. -/
def data (p : Outgoing) : List UInt8 := flatten (p.first :: p.rest)

/-- `tot_len`. -/
def totLen (p : Outgoing) : Nat := p.data.length

/-- The chain with a header in front, as long as the sum of the lengths has 16 bits. -/
def withHeader (p : Outgoing) (place : Placement) (header : List UInt8)
    (fits : header.length + p.totLen < 2 ^ 16) : Chain where
  segments := addHeader header p.first p.rest place
  small := by
    rw [flatten_addHeader, List.length_append]
    exact fits

theorem data_withHeader (p : Outgoing) (place : Placement) (header : List UInt8)
    (fits : header.length + p.totLen < 2 ^ 16) :
    (p.withHeader place header fits).data = header ++ p.data :=
  flatten_addHeader header p.first p.rest place

/-- `pbuf_add_header`, or else `pbuf_alloc`, which returns a `pbuf` with its payload at
`alloc` if it can. -/
def place? (p : Outgoing) (alloc : Option Nat) : Option Placement :=
  if p.headroom ≥ udpHlen then some .inFront else alloc.map .separate

end Outgoing

theorem length_store16 (order : ByteOrder) (word : Nat) : (store16 order word).length = 2 := by
  cases order <;> rfl

@[simp] theorem length_udpHdr (order : ByteOrder) (src dest : UInt16) (len chksum : Nat) :
    (udpHdr order src dest len chksum).length = udpHlen := by
  simp [udpHdr, length_store16, udpHlen]

/-- What a datagram is sent with: the ports, the addresses and whether
`UDP_FLAGS_NOCHKSUM` is set. -/
structure Route where
  srcPort : UInt16
  destPort : UInt16
  src : Ip4Addr
  dest : Ip4Addr
  noChksum : Bool
  deriving DecidableEq, Repr

/-- The value of `udphdr->chksum` for the chain `q` with a zero in its place. -/
def udpChksum (host : Host) (route : Route) (q : Chain) : Nat :=
  if route.noChksum then
    0
  else
    let udpchksum := inetChksumPseudo host q ipProtoUdp q.totLen route.src route.dest
    if udpchksum = 0 then 0xffff else udpchksum

/-- `udp_sendto_if_src` up to the call of `ip_output_if_src` with the chain `q`. -/
def udpSendtoIfSrc (host : Host) (route : Route) (alloc : Option Nat) (p : Outgoing) :
    Except Err Chain :=
  -- packet too large to add a UDP header without causing an overflow?
  if wraps : (p.totLen + udpHlen) % 2 ^ 16 < p.totLen then
    .error .errMem
  else
    match p.place? alloc with
    | none => .error .errMem
    | some place =>
        have fits : udpHlen + p.totLen < 2 ^ 16 := by
          have small : p.totLen < 2 ^ 16 := p.small
          simp only [udpHlen] at wraps ⊢
          omega
        let header := udpHdr host.order route.srcPort route.destPort (p.totLen + udpHlen)
        let q := p.withHeader place (header 0) (by rw [length_udpHdr]; exact fits)
        .ok (p.withHeader place (header (udpChksum host route q))
          (by rw [length_udpHdr]; exact fits))

/-! ## Receiving -/

/-- `pbuf_remove_header` on the first `pbuf`. -/
def removeHeader (p : Chain) : Chain where
  segments :=
    match p.segments with
    | [] => []
    | first :: rest => ⟨first.address + udpHlen, first.payload.drop udpHlen⟩ :: rest
  small := by
    have small := p.small
    split
    next => simp [flatten]
    next first rest chained =>
      rw [chained] at small
      simp only [flatten, List.flatMap_cons, List.length_append, List.length_drop] at small ⊢
      omega

/-- A field of the header as the host reads it. -/
def field (order : ByteOrder) (header : List UInt8) (offset : Nat) : Nat :=
  order.load16 (header.getD offset 0) (header.getD (offset + 1) 0)

/-- The check of the checksum in `udp_input`: the field is not zero and the sum does not
vanish. -/
def chksumFails (host : Host) (src dest : Ip4Addr) (p : Chain) : Bool :=
  field host.order p.head 6 != 0 &&
    inetChksumPseudo host p ipProtoUdp p.totLen src dest != 0

/-! ## The checksum that is sent -/

theorem store16_htons (order : ByteOrder) {number : Nat} (small : number < 2 ^ 16) :
    store16 order (order.htons number) = networkBytes number := by
  cases order with
  | little =>
      have low : swapBytes number % 256 = number / 256 := by
        rw [swapBytes]
        omega
      have high : swapBytes number / 256 = number % 256 := by
        rw [swapBytes]
        omega
      simp [store16, ByteOrder.htons, networkBytes, low, high]
  | big => rfl

theorem udpHdr_eq (order : ByteOrder) (src dest : UInt16) {len : Nat} (small : len < 2 ^ 16)
    (chksum : Nat) :
    udpHdr order src dest len chksum =
      networkBytes src.toNat ++ networkBytes dest.toNat ++ networkBytes len ++
        store16 order chksum := by
  rw [udpHdr, store16_htons order src.toNat_lt, store16_htons order dest.toNat_lt,
    store16_htons order small]

theorem wordSum_store16 (order : ByteOrder) {word : Nat} (small : word ≤ 65535) :
    wordSum order.upperFirst (store16 order word) = word := by
  cases order <;>
    simp only [store16, ByteOrder.upperFirst, wordSum_cons, wordSum_nil, byteWeight,
      UInt8.toNat_ofNat', Bool.not_true, Bool.not_false, if_true, Bool.false_eq_true,
      if_false] <;> omega

/-- The field takes part in the sum with its value. -/
theorem wordSum_udpHdr_append (order : ByteOrder) (src dest : UInt16) {len chksum : Nat}
    (small : len < 2 ^ 16) (small' : chksum ≤ 65535) (data : List UInt8) :
    wordSum order.upperFirst (udpHdr order src dest len chksum ++ data) =
      wordSum order.upperFirst (udpHdr order src dest len 0 ++ data) + chksum := by
  have zero := wordSum_store16 order (Nat.zero_le 65535)
  have word := wordSum_store16 order small'
  rw [udpHdr_eq order src dest small, udpHdr_eq order src dest small]
  simp only [wordSum_append, networkBytes, List.length_append, length_store16,
    List.length_cons, List.length_nil]
  simp only [zero, word, Nat.bodd_succ, Nat.bodd_zero, Bool.not_false, Bool.not_true,
    Bool.xor_false]
  omega

variable {host sender receiver : Host} {route : Route} {alloc : Option Nat} {p : Outgoing}
variable {q received : Chain}

/-- What a call that succeeds hands to IP. -/
theorem data_of_sent (sent : udpSendtoIfSrc host route alloc p = .ok q) :
    p.totLen + udpHlen < 2 ^ 16 ∧
      ∃ zeroed : Chain,
        zeroed.data = udpHdr host.order route.srcPort route.destPort
          (p.totLen + udpHlen) 0 ++ p.data ∧
        q.data = udpHdr host.order route.srcPort route.destPort (p.totLen + udpHlen)
          (udpChksum host route zeroed) ++ p.data := by
  rw [udpSendtoIfSrc] at sent
  split at sent
  next => cases sent
  next fits =>
    have small : p.totLen < 2 ^ 16 := p.small
    have room : p.totLen + udpHlen < 2 ^ 16 := by
      simp only [udpHlen] at fits ⊢
      omega
    split at sent
    next => cases sent
    next place _ =>
      cases sent
      exact ⟨room, _, p.data_withHeader place _ _, p.data_withHeader place _ _⟩

theorem udpChksum_le (host : Host) (route : Route) (zeroed : Chain) :
    udpChksum host route zeroed ≤ 65535 := by
  obtain ⟨sum, _, result⟩ := exists_inetChksumPseudo host zeroed
    (show ipProtoUdp < 2 ^ 16 by decide) zeroed.totLen_lt route.src route.dest
  rw [udpChksum]
  split
  next => exact Nat.zero_le _
  next =>
    simp only [result]
    split <;> omega

/-- A datagram is sent with a checksum that makes the sum vanish. -/
theorem verifies_of_sent (sent : udpSendtoIfSrc host route alloc p = .ok q)
    (checked : route.noChksum = false) :
    Verifies route.src route.dest ipProtoUdp q.data := by
  obtain ⟨room, zeroed, before, after⟩ := data_of_sent sent
  have length : zeroed.totLen = p.totLen + udpHlen := by
    rw [Chain.totLen, before, List.length_append, length_udpHdr, Nat.add_comm]
    rfl
  obtain ⟨sum, isChksum, result⟩ := exists_inetChksumPseudo host zeroed
    (show ipProtoUdp < 2 ^ 16 by decide) zeroed.totLen_lt route.src route.dest
  obtain ⟨bounded, congruent, _⟩ := isChksum
  have chksum : udpChksum host route zeroed =
      if 65535 - sum = 0 then 65535 else 65535 - sum := by
    simp only [udpChksum, checked, result, Bool.false_eq_true, if_false]
  have added := wordSum_udpHdr_append host.order route.srcPort route.destPort room
    (udpChksum_le host route zeroed) p.data
  rw [← after, ← before] at added
  have same : q.data.length = zeroed.totLen := by
    rw [after, List.length_append, length_udpHdr, length, Nat.add_comm]
    rfl
  rw [Verifies, ← wordSum_mod_eq_zero_iff host.order, same,
    wordSum_pseudoHeader_append, added]
  rw [wordSum_pseudoHeader_append, Nat.ModEq] at congruent
  rw [chksum]
  split <;> omega

/-! ## Reading the header -/

/-- The header is where the data begins. -/
theorem getD_head {offset : Nat} (inside : offset < received.head.length) :
    received.head.getD offset 0 = received.data.getD offset 0 := by
  obtain ⟨rest, whole⟩ := received.head_isPrefix
  rw [← whole, List.getD_append _ _ _ _ inside]

theorem data_removeHeader (whole : udpHlen ≤ received.head.length) :
    (removeHeader received).data = received.data.drop udpHlen := by
  rw [Chain.head] at whole
  simp only [removeHeader, Chain.data]
  split at whole
  next chained => simp [udpHlen] at whole
  next first rest chained =>
    simp only [chained, flatten, List.flatMap_cons]
    rw [List.drop_append_of_le_length whole]

theorem field_head {offset : Nat} (order : ByteOrder)
    (whole : udpHlen ≤ received.head.length) (inside : offset + 1 < udpHlen) :
    field order received.head offset = field order received.data offset := by
  rw [field, field, getD_head (by omega), getD_head (by omega)]

theorem load16_eq_zero_iff (order : ByteOrder) (byte0 byte1 : UInt8) :
    order.load16 byte0 byte1 = 0 ↔ byte0 = 0 ∧ byte1 = 0 := by
  rw [← UInt8.toNat_inj, ← UInt8.toNat_inj]
  cases order <;> simp only [ByteOrder.load16, UInt8.toNat_zero] <;> omega

/-- The check lets a datagram through whose field is zero or whose sum vanishes. -/
theorem chksumFails_eq_false_iff (receiver : Host) (whole : udpHlen ≤ received.head.length)
    (src dest : Ip4Addr) :
    chksumFails receiver src dest received = false ↔
      (received.data.getD 6 0 = 0 ∧ received.data.getD 7 0 = 0) ∨
        Verifies src dest ipProtoUdp received.data := by
  rw [chksumFails, Bool.and_eq_false_iff, bne_eq_false_iff_eq, bne_eq_false_iff_eq,
    field_head receiver.order whole (show 6 + 1 < udpHlen by decide), field,
    load16_eq_zero_iff,
    inetChksumPseudo_eq_zero_iff receiver received (show ipProtoUdp < 2 ^ 16 by decide)
      (by decide)]

theorem htons_load16 (order : ByteOrder) {number : Nat} (small : number < 2 ^ 16) :
    order.htons (order.load16 (UInt8.ofNat (number / 256)) (UInt8.ofNat (number % 256))) =
      number := by
  have split : number = 256 * (number / 256) + number % 256 := by omega
  have high : number / 256 % 2 ^ 8 = number / 256 := Nat.mod_eq_of_lt (by omega)
  have low : number % 256 % 2 ^ 8 = number % 256 := Nat.mod_eq_of_lt (by omega)
  cases order with
  | little =>
      simp only [ByteOrder.load16, ByteOrder.htons, UInt8.toNat_ofNat', high, low]
      rw [swapBytes_add (by omega) (by omega)]
      exact split.symm
  | big =>
      simp only [ByteOrder.load16, ByteOrder.htons, UInt8.toNat_ofNat', high, low]
      omega

/-! ## What arrives unchanged -/

section Carried

variable (sent : udpSendtoIfSrc sender route alloc p = .ok q)
variable (carried : received.data = q.data) (whole : udpHlen ≤ received.head.length)

include sent carried whole

theorem htons_srcPort (receiver : Host) :
    receiver.order.htons (field receiver.order received.head 0) = route.srcPort.toNat := by
  obtain ⟨room, zeroed, _, header⟩ := data_of_sent sent
  rw [udpHdr_eq _ _ _ room, ← carried] at header
  rw [field_head receiver.order whole (by decide), field, header]
  exact htons_load16 receiver.order route.srcPort.toNat_lt

theorem htons_destPort (receiver : Host) :
    receiver.order.htons (field receiver.order received.head 2) = route.destPort.toNat := by
  obtain ⟨room, zeroed, _, header⟩ := data_of_sent sent
  rw [udpHdr_eq _ _ _ room, ← carried] at header
  rw [field_head receiver.order whole (by decide), field, header]
  exact htons_load16 receiver.order route.destPort.toNat_lt

theorem chksumFails_of_sent (receiver : Host) :
    chksumFails receiver route.src route.dest received = false := by
  rw [chksumFails_eq_false_iff receiver whole]
  cases checked : route.noChksum with
  | false =>
      rw [carried]
      exact .inr (verifies_of_sent sent checked)
  | true =>
      obtain ⟨room, zeroed, _, header⟩ := data_of_sent sent
      have none : udpChksum sender route zeroed = 0 := by simp [udpChksum, checked]
      rw [udpHdr_eq _ _ _ room, ← carried, none] at header
      left
      rw [header]
      cases sender.order <;> exact ⟨rfl, rfl⟩

theorem data_removeHeader_of_sent : (removeHeader received).data = p.data := by
  obtain ⟨_, zeroed, _, header⟩ := data_of_sent sent
  rw [data_removeHeader whole, carried, header, List.drop_append_of_le_length (by simp),
    List.drop_of_length_le (by simp), List.nil_append]

end Carried

end EmbeddedRtps.Udp
