import EmbeddedRtps.Udp.Datagram
import EmbeddedRtps.Udp.Delivery

/-!
# Datagrams that arrive

`udp_input` as a whole: it looks for the `pcb` of a datagram first and at the checksum
second.  A datagram that no `pcb` takes and that is not for the address of the interface
is freed unchecked.  What one host sends reaches the `pcb` that the other host has for
it, and what is damaged on the way reaches none.
-/

namespace EmbeddedRtps.Udp

open Foundation Inet

universe u

variable {Id : Type u}

/-- `ip_addr_ismulticast`. -/
def ipAddrIsMulticast (addr : Ip4Addr) : Bool :=
  addr.octet0 &&& 0xf0 == 0xe0

/-- A datagram from and to the given ports. -/
def IpData.withPorts (current : IpData) (srcPort destPort : Nat) : Arrival where
  toIpData := current
  srcPort := srcPort
  destPort := destPort

/-- A datagram with the ports its header has in host byte order. -/
def IpData.arrival (current : IpData) (host : Host) (p : Chain) : Arrival :=
  current.withPorts (host.order.htons (field host.order p.head 0))
    (host.order.htons (field host.order p.head 2))

/-- What becomes of a datagram. -/
inductive Outcome (Id : Type u) where
  /-- Too short for a header. -/
  | lenerr
  | chkerr
  /-- It is freed, as no `pcb` takes it and it is for another address. -/
  | notForUs
  /-- It is freed, as no `pcb` takes it, with or without `icmp_port_unreach`. -/
  | noPort (unreach : Bool)
  /-- It is freed, as the `pcb` has no `recv` function. -/
  | noRecv (id : Id)
  /-- The `recv` function of a `pcb` is called. -/
  | recv (id : Id) (p : Chain) (addr : Ip4Addr) (port : Nat)

/-- `for_us`. -/
def State.forUs (state : State Id) (arrival : Arrival) : Bool :=
  (state.receiver arrival).isSome || arrival.netifIp == arrival.dest

/-- The end of `udp_input`, after the checksum. -/
def State.handOver (state : State Id) (arrival : Arrival) (p : Chain) : Outcome Id :=
  match state.receiver arrival with
  | some id =>
      if (state.pcbs id).any UdpPcb.recv then
        .recv id (removeHeader p) arrival.src arrival.srcPort
      else
        .noRecv id
  | none => .noPort (!arrival.broadcast && !ipAddrIsMulticast arrival.dest)

/-- `udp_input`. -/
def State.udpInput [DecidableEq Id] (state : State Id) (host : Host) (current : IpData)
    (p : Chain) : Outcome Id × State Id :=
  -- the first `pbuf` has to hold the whole header
  if p.head.length < udpHlen then
    (.lenerr, state)
  else
    let arrival := current.arrival host p
    let after := state.udpInputPcbs arrival
    if state.forUs arrival then
      if chksumFails host current.src current.dest p then
        (.chkerr, after)
      else
        (state.handOver arrival p, after)
    else
      (.notForUs, after)

variable [DecidableEq Id] {state : State Id} {current : IpData}
variable {sender : Host} {route : Route} {alloc : Option Nat} {p : Outgoing}
variable {q received : Chain}

/-- What happens to the list is a step of the machine. -/
theorem udpInput_reaches {start : State Id} (host : Host) (current : IpData) (p : Chain)
    (reached : machine.Reaches FreshAddress start state) :
    machine.Reaches FreshAddress start (state.udpInput host current p).2 := by
  have after : machine.Reaches FreshAddress start
      (state.udpInputPcbs (current.arrival host p)) :=
    .step reached (show machine.Enabled state (.input (current.arrival host p)) from trivial)
      trivial
  rw [State.udpInput]
  split
  next => exact reached
  next =>
    simp only
    split
    next => split <;> exact after
    next => exact after

theorem udpInput_fst (host : Host) (whole : udpHlen ≤ received.head.length) :
    (state.udpInput host current received).1 =
      if state.forUs (current.arrival host received) then
        if chksumFails host current.src current.dest received then .chkerr
        else state.handOver (current.arrival host received) received
      else .notForUs := by
  rw [State.udpInput, if_neg (Nat.not_lt.mpr whole)]
  simp only
  split
  next => split <;> rfl
  next => rfl

/-- A datagram that is sent and arrives with the same bytes is handed to the `pcb` that
the search finds for its addresses and ports, with the payload it was sent with.  The
two hosts may differ in byte order and checksum algorithm, and divide the datagram
differently, as long as the header is in one `pbuf`. -/
theorem datagram_round_trip (receiver : Host) {id : Id}
    (sent : udpSendtoIfSrc sender route alloc p = .ok q)
    (carried : received.data = q.data) (whole : udpHlen ≤ received.head.length)
    (src : current.src = route.src) (dest : current.dest = route.dest)
    (taken : state.receiver
      (current.withPorts route.srcPort.toNat route.destPort.toNat) = some id)
    (listens : (state.pcbs id).any UdpPcb.recv = true) :
    ∃ payload,
      (state.udpInput receiver current received).1 =
          .recv id payload route.src route.srcPort.toNat ∧
        payload.data = p.data := by
  have arrival : current.arrival receiver received =
      current.withPorts route.srcPort.toNat route.destPort.toNat := by
    rw [IpData.arrival, htons_srcPort sent carried whole, htons_destPort sent carried whole]
  have verified := chksumFails_of_sent sent carried whole receiver
  refine ⟨removeHeader received, ?_, data_removeHeader_of_sent sent carried whole⟩
  rw [udpInput_fst receiver whole, arrival, src, dest, verified, State.forUs, taken,
    State.handOver, taken]
  simp [listens, IpData.withPorts, src]

/-- Three bytes between two hosts. -/
def threeBytes : Outgoing where
  headroom := 0
  first := ⟨1, [1, 2, 3]⟩
  rest := []
  small := by decide

def someRoute : Route where
  srcPort := 5000
  destPort := 6000
  src := ⟨10, 0, 0, 1⟩
  dest := ⟨10, 0, 0, 2⟩
  noChksum := false

/-- The interface of the second host, which one `pcb` listens to. -/
def someIpData : IpData where
  src := ⟨10, 0, 0, 1⟩
  dest := ⟨10, 0, 0, 2⟩
  broadcast := false
  netifIdx := 1
  netifIp := ⟨10, 0, 0, 2⟩
  netmask := ⟨255, 255, 255, 0⟩

def oneListener : List (Event Nat) :=
  [.new 0, .bind 0 ⟨10, 0, 0, 2⟩ 6000, .recv 0 true]

theorem datagram_round_trip_three_bytes : ∃ (state : State Nat) (q payload : Chain),
    machine.Reaches Machine.AnyStep (.init Nat 0xc000) state ∧
      udpSendtoIfSrc ⟨.little, .version3⟩ someRoute (some 64) threeBytes = .ok q ∧
      (state.udpInput ⟨.big, .version1⟩ someIpData q).1 =
        .recv 0 payload ⟨10, 0, 0, 1⟩ 5000 ∧
      payload.data = [1, 2, 3] := by
  obtain ⟨state, reached, taken, listens⟩ : ∃ state : State Nat,
      machine.Reaches Machine.AnyStep (.init Nat 0xc000) state ∧
        state.receiver (someIpData.withPorts 5000 6000) = some 0 ∧
        (state.pcbs 0).any UdpPcb.recv = true :=
    Machine.exists_reaches_of_exec oneListener (by decide +kernel)
  obtain ⟨q, sent, whole⟩ :
      ∃ q, udpSendtoIfSrc ⟨.little, .version3⟩ someRoute (some 64) threeBytes = .ok q ∧
        udpHlen ≤ q.head.length := ⟨_, rfl, by decide⟩
  obtain ⟨payload, delivered, same⟩ :=
    datagram_round_trip ⟨.big, .version1⟩ sent rfl whole rfl rfl taken listens
  exact ⟨state, q, payload, reached, sent, delivered, same⟩

end EmbeddedRtps.Udp
