import EmbeddedRtps.Foundation.Machine
import EmbeddedRtps.Inet.Chain
import Mathlib.Data.List.Nodup
import Mathlib.Logic.Function.Basic

/-!
# UDP protocol control blocks

The list `udp_pcbs` of bound or connected `pcb`s and the functions that work on it.
Applications bind, connect, disconnect and remove `pcb`s in any order, and every
datagram that arrives may move a `pcb` to the front of the list.

The model is that of an IPv4 build.  `SO_REUSE` is on, but no `pcb` has the option
`SOF_REUSEADDR`, which none of these functions sets.  A `pcb` is known by the memory it
occupies.
-/

namespace EmbeddedRtps.Udp

open Foundation Inet

universe u

/-- `struct udp_pcb`. -/
structure UdpPcb where
  localIp : Ip4Addr
  localPort : Nat
  remoteIp : Ip4Addr
  remotePort : Nat
  netifIdx : Nat
  /-- `UDP_FLAGS_CONNECTED`. -/
  connected : Bool
  /-- A `recv` function is registered. -/
  recv : Bool
  deriving DecidableEq, Repr

/-- `IP4_ADDR_ANY`. -/
def ipAddrAny : Ip4Addr := ⟨0, 0, 0, 0⟩

/-- `IPADDR_BROADCAST`. -/
def ipAddrBroadcast : Ip4Addr := ⟨255, 255, 255, 255⟩

/-- `NETIF_NO_INDEX`. -/
def netifNoIndex : Nat := 0

/-- The memory of `udp_new`. -/
def UdpPcb.zero : UdpPcb where
  localIp := ipAddrAny
  localPort := 0
  remoteIp := ipAddrAny
  remotePort := 0
  netifIdx := netifNoIndex
  connected := false
  recv := false

/-- A `pcb` that is bound to the old address gets the new one. -/
def UdpPcb.replaceIp (pcb : UdpPcb) (old new : Ip4Addr) : UdpPcb :=
  if pcb.localIp = old then { pcb with localIp := new } else pcb

/-! ## Ports -/

/-- `UDP_LOCAL_PORT_RANGE_START`. -/
def rangeStart : Nat := 0xc000

/-- `UDP_LOCAL_PORT_RANGE_END`. -/
def rangeEnd : Nat := 0xffff

/-- The port after `port`, around the end of the range. -/
def nextPort (port : Nat) : Nat :=
  if port = rangeEnd then rangeStart else port + 1

/-- The loop of `udp_new_port`, which may fail `left` times before it gives up.  It
returns a port or zero, and leaves `udp_port` where it stopped. -/
def newPortLoop (inUse : Nat → Bool) : Nat → Nat → Nat × Nat
  | left, port =>
      if inUse (nextPort port) then
        match left with
        | 0 => (0, nextPort port)
        | left + 1 => newPortLoop inUse left (nextPort port)
      else
        (nextPort port, nextPort port)

/-! ## The calls of an application -/

/-- The `pcb`s that are allocated, `udp_pcbs` and `udp_port`. -/
structure State (Id : Type u) where
  pcbs : Id → Option UdpPcb
  active : List Id
  udpPort : Nat

variable {Id : Type u}

namespace State

/-- Some `pcb` of the list has a property. -/
def anyActive (state : State Id) (property : Id → UdpPcb → Bool) : Bool :=
  state.active.any fun id => (state.pcbs id).any (property id)

/-- Some `pcb` of the list is bound to the port. -/
def portInUse (state : State Id) (port : Nat) : Bool :=
  state.anyActive fun _ pcb => pcb.localPort == port

/-- `udp_new_port`. -/
def udpNewPort (state : State Id) : Nat × State Id :=
  let found := newPortLoop state.portInUse (rangeEnd - rangeStart) state.udpPort
  (found.1, { state with udpPort := found.2 })

/-- `ERR_OK` and `ERR_USE`. -/
inductive Result where
  | errOk
  | errUse
  deriving DecidableEq, Repr

variable [DecidableEq Id]

/-- Write to the memory of a `pcb`. -/
def modify (state : State Id) (id : Id) (change : UdpPcb → UdpPcb) : State Id :=
  { state with pcbs := Function.update state.pcbs id ((state.pcbs id).map change) }

/-- Put a `pcb` on the list, unless it is there. -/
def activate (state : State Id) (id : Id) : State Id :=
  if id ∈ state.active then state else { state with active := id :: state.active }

/-- Another `pcb` of the list has a binding that includes the address or is included
in it. -/
def bindConflict (state : State Id) (id : Id) (ipaddr : Ip4Addr) (port : Nat) : Bool :=
  state.anyActive fun other pcb =>
    other != id && (pcb.localPort == port &&
      (pcb.localIp == ipaddr || ipaddr == ipAddrAny || pcb.localIp == ipAddrAny))

/-- The end of `udp_bind`. -/
def setLocal (state : State Id) (id : Id) (ipaddr : Ip4Addr) (port : Nat) : State Id :=
  (state.modify id fun pcb =>
    { pcb with localIp := ipaddr, localPort := port }).activate id

/-- `udp_bind`. -/
def udpBind (state : State Id) (id : Id) (ipaddr : Ip4Addr) (port : Nat) :
    Result × State Id :=
  if port = 0 then
    let new := state.udpNewPort
    if new.1 = 0 then
      (.errUse, new.2)
    else
      (.errOk, new.2.setLocal id ipaddr new.1)
  else if state.bindConflict id ipaddr port then
    (.errUse, state)
  else
    (.errOk, state.setLocal id ipaddr port)

/-- `udp_connect`, from where the `pcb` is bound. -/
def setRemote (state : State Id) (id : Id) (ipaddr : Ip4Addr) (port : Nat) : State Id :=
  (state.modify id fun pcb =>
    { pcb with remoteIp := ipaddr, remotePort := port, connected := true }).activate id

/-- `udp_connect`. -/
def udpConnect (state : State Id) (id : Id) (ipaddr : Ip4Addr) (port : Nat) :
    Result × State Id :=
  match state.pcbs id with
  | none => (.errUse, state)
  | some pcb =>
      if pcb.localPort = 0 then
        match state.udpBind id pcb.localIp pcb.localPort with
        | (.errUse, bound) => (.errUse, bound)
        | (.errOk, bound) => (.errOk, bound.setRemote id ipaddr port)
      else
        (.errOk, state.setRemote id ipaddr port)

/-- `udp_disconnect`. -/
def udpDisconnect (state : State Id) (id : Id) : State Id :=
  state.modify id fun pcb =>
    { pcb with
      remoteIp := ipAddrAny
      remotePort := 0
      netifIdx := netifNoIndex
      connected := false }

/-- `udp_bind_netif`. -/
def udpBindNetif (state : State Id) (id : Id) (index : Nat) : State Id :=
  state.modify id fun pcb => { pcb with netifIdx := index }

/-- `udp_recv`. -/
def udpRecv (state : State Id) (id : Id) (registered : Bool) : State Id :=
  state.modify id fun pcb => { pcb with recv := registered }

/-- `udp_remove`. -/
def udpRemove (state : State Id) (id : Id) : State Id where
  pcbs := Function.update state.pcbs id none
  active := state.active.erase id
  udpPort := state.udpPort

/-- `udp_new`, when `memp_malloc` returns the memory `id`. -/
def udpNew (state : State Id) (id : Id) : State Id :=
  { state with pcbs := Function.update state.pcbs id (some .zero) }

/-- `udp_netif_ip_addr_changed`. -/
def udpNetifIpAddrChanged (state : State Id) (old new : Ip4Addr) : State Id :=
  if old = ipAddrAny ∨ new = ipAddrAny then
    state
  else
    { state with
      pcbs := fun id =>
        if id ∈ state.active then (state.pcbs id).map (·.replaceIp old new)
        else state.pcbs id }

end State

/-! ## Finding the `pcb` of a datagram -/

/-- What IP knows of the datagram it has received: the addresses, and the interface it
came in by. -/
structure IpData where
  src : Ip4Addr
  dest : Ip4Addr
  /-- The destination is a broadcast address of the interface. -/
  broadcast : Bool
  netifIdx : Nat
  netifIp : Ip4Addr
  netmask : Ip4Addr
  deriving DecidableEq, Repr

/-- A datagram with the ports of its header. -/
structure Arrival extends IpData where
  srcPort : Nat
  destPort : Nat
  deriving DecidableEq, Repr

/-- `ip4_addr_netcmp`. -/
def ip4AddrNetcmp (first second mask : Ip4Addr) : Bool :=
  first.octet0 &&& mask.octet0 == second.octet0 &&& mask.octet0 &&
    first.octet1 &&& mask.octet1 == second.octet1 &&& mask.octet1 &&
    first.octet2 &&& mask.octet2 == second.octet2 &&& mask.octet2 &&
    first.octet3 &&& mask.octet3 == second.octet3 &&& mask.octet3

/-- `udp_input_local_match`. -/
def udpInputLocalMatch (pcb : UdpPcb) (arrival : Arrival) : Bool :=
  if pcb.netifIdx ≠ netifNoIndex ∧ pcb.netifIdx ≠ arrival.netifIdx then
    false
  else if arrival.broadcast then
    pcb.localIp == ipAddrAny || arrival.dest == ipAddrBroadcast ||
      ip4AddrNetcmp pcb.localIp arrival.dest arrival.netmask
  else
    pcb.localIp == ipAddrAny || pcb.localIp == arrival.dest

/-- The comparison of the local address and port. -/
def matchesLocal (pcb : UdpPcb) (arrival : Arrival) : Bool :=
  pcb.localPort == arrival.destPort && udpInputLocalMatch pcb arrival

/-- The comparison of the remote address and port. -/
def matchesRemote (pcb : UdpPcb) (arrival : Arrival) : Bool :=
  pcb.remotePort == arrival.srcPort &&
    (pcb.remoteIp == ipAddrAny || pcb.remoteIp == arrival.src)

/-- What becomes of `uncon_pcb` at an unconnected `pcb` that matches. -/
def nextUncon (arrival : Arrival) (uncon : Option (Id × UdpPcb)) (here : Id × UdpPcb) :
    Option (Id × UdpPcb) :=
  match uncon with
  | none => some here
  | some best =>
      if arrival.broadcast ∧ arrival.dest = ipAddrBroadcast then
        if best.2.localIp ≠ arrival.netifIp ∧ here.2.localIp = arrival.netifIp then
          some here
        else
          some best
      -- prefer specific IPs over catch-all
      else if here.2.localIp ≠ ipAddrAny then
        some here
      else
        some best

/-- The loop over the list: the first `pcb` that matches fully, or else what
`uncon_pcb` is in the end. -/
def searchPcbs (arrival : Arrival) :
    Option (Id × UdpPcb) → List (Id × UdpPcb) → Option Id × Option Id
  | uncon, [] => (none, uncon.map Prod.fst)
  | uncon, here :: rest =>
      if matchesLocal here.2 arrival then
        let uncon := if here.2.connected then uncon else nextUncon arrival uncon here
        if matchesRemote here.2 arrival then
          (some here.1, uncon.map Prod.fst)
        else
          searchPcbs arrival uncon rest
      else
        searchPcbs arrival uncon rest

namespace State

/-- The list as the loop sees it. -/
def records (state : State Id) : List (Id × UdpPcb) :=
  state.active.filterMap fun id => (state.pcbs id).map fun pcb => (id, pcb)

/-- The `pcb` that `udp_input` gives a datagram to. -/
def receiver (state : State Id) (arrival : Arrival) : Option Id :=
  let found := searchPcbs arrival none state.records
  found.1.or found.2

/-- What `udp_input` does to the list: a `pcb` that matches fully is moved to the
front. -/
def udpInputPcbs [DecidableEq Id] (state : State Id) (arrival : Arrival) : State Id :=
  match (searchPcbs arrival none state.records).1 with
  | none => state
  | some id => { state with active := id :: state.active.erase id }

end State

/-! ## The machine -/

inductive Event (Id : Type u) where
  | new (id : Id)
  | bind (id : Id) (ipaddr : Ip4Addr) (port : Nat)
  | bindNetif (id : Id) (index : Nat)
  | connect (id : Id) (ipaddr : Ip4Addr) (port : Nat)
  | disconnect (id : Id)
  | recv (id : Id) (registered : Bool)
  | remove (id : Id)
  | input (arrival : Arrival)
  | ipAddrChanged (old new : Ip4Addr)
  deriving DecidableEq, Repr

/-- Memory is handed out once, and the functions are called for `pcb`s that exist. -/
def Enabled (state : State Id) : Event Id → Prop
  | .new id => (state.pcbs id).isNone = true
  | .bind id _ _ | .bindNetif id _ | .connect id _ _ | .disconnect id | .recv id _
  | .remove id =>
      (state.pcbs id).isSome = true
  | .input _ | .ipAddrChanged _ _ => True

instance (state : State Id) (event : Event Id) : Decidable (Enabled state event) :=
  match event with
  | .new _ | .bind _ _ _ | .bindNetif _ _ | .connect _ _ _ | .disconnect _ | .recv _ _
  | .remove _ =>
      inferInstanceAs (Decidable (_ = _))
  | .input _ | .ipAddrChanged _ _ => isTrue trivial

variable [DecidableEq Id]

def State.apply (state : State Id) : Event Id → State Id
  | .new id => state.udpNew id
  | .bind id ipaddr port => (state.udpBind id ipaddr port).2
  | .bindNetif id index => state.udpBindNetif id index
  | .connect id ipaddr port => (state.udpConnect id ipaddr port).2
  | .disconnect id => state.udpDisconnect id
  | .recv id registered => state.udpRecv id registered
  | .remove id => state.udpRemove id
  | .input arrival => state.udpInputPcbs arrival
  | .ipAddrChanged old new => state.udpNetifIpAddrChanged old new

/-- The UDP module with the applications that use it. -/
def machine : Machine (State Id) (Event Id) where
  Enabled := Enabled
  apply := State.apply

instance (state : State Id) (event : Event Id) : Decidable (machine.Enabled state event) :=
  inferInstanceAs (Decidable (Enabled state event))

/-- The module after `udp_init`, which may choose the first port by chance. -/
def State.init (Id : Type u) (port : Nat) : State Id where
  pcbs _ := none
  active := []
  udpPort := port

end EmbeddedRtps.Udp
