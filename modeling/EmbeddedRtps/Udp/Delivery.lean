import EmbeddedRtps.Udp.Bindings

/-!
# Who receives a datagram

`udp_input` walks the list of `pcb`s, stops at the first full match, remembers an
unconnected `pcb` in case there is none, and moves what it found to the front.  As
bindings never overlap, a datagram that is no broadcast has one possible receiver, and
neither the order of the list nor the traffic before has a say in it.
-/

namespace EmbeddedRtps.Udp

open Foundation Inet

universe u

variable {Id : Type u} {state : State Id} {arrival : Arrival}

/-- A `pcb` accepts a datagram for its local address; when it is connected, from its
peer only. -/
def UdpPcb.Accepts (pcb : UdpPcb) (arrival : Arrival) : Prop :=
  matchesLocal pcb arrival = true ∧
    (pcb.connected = true → matchesRemote pcb arrival = true)

/-! ## The walk -/

/-- Where nothing matches the walk has no effect. -/
theorem searchPcbs_of_no_match {uncon : Option (Id × UdpPcb)}
    {records : List (Id × UdpPcb)}
    (none : ∀ record ∈ records, matchesLocal record.2 arrival = false) :
    searchPcbs arrival uncon records = (.none, uncon.map Prod.fst) := by
  induction records with
  | nil => rfl
  | cons here rest ih =>
      obtain ⟨missed, none⟩ := List.forall_mem_cons.mp none
      simp [searchPcbs, missed, ih none]

/-- The walk stops at the only match, or remembers it. -/
theorem searchPcbs_of_match {here : Id × UdpPcb} {rest : List (Id × UdpPcb)}
    (matched : matchesLocal here.2 arrival = true)
    (none : ∀ record ∈ rest, matchesLocal record.2 arrival = false) :
    (searchPcbs arrival .none (here :: rest)).1.or
        (searchPcbs arrival .none (here :: rest)).2 =
      if here.2.connected = true ∧ matchesRemote here.2 arrival = false then .none
      else some here.1 := by
  cases remote : matchesRemote here.2 arrival <;>
    cases connected : here.2.connected <;>
      simp [searchPcbs, matched, remote, connected, nextUncon, searchPcbs_of_no_match none]

/-- In a list with one match at most, the walk finds the record that accepts the
datagram. -/
theorem searchPcbs_eq_some_iff {records : List (Id × UdpPcb)} {id : Id}
    (unique : records.Pairwise fun record other =>
      matchesLocal record.2 arrival = true → matchesLocal other.2 arrival = false) :
    (searchPcbs arrival none records).1.or (searchPcbs arrival none records).2 = some id ↔
      ∃ record ∈ records, record.1 = id ∧ record.2.Accepts arrival := by
  induction records with
  | nil => simp [searchPcbs]
  | cons here rest ih =>
      obtain ⟨sole, unique⟩ := List.pairwise_cons.mp unique
      cases matched : matchesLocal here.2 arrival with
      | false =>
          simp only [searchPcbs, matched, Bool.false_eq_true, if_false, ih unique,
            List.exists_mem_cons_iff, UdpPcb.Accepts, false_and, and_false, false_or]
      | true =>
          have none : ∀ record ∈ rest, matchesLocal record.2 arrival = false :=
            fun record member => sole record member matched
          have others : ¬ ∃ record ∈ rest, record.1 = id ∧ record.2.Accepts arrival := by
            rintro ⟨record, member, _, accepted, _⟩
            rw [none record member] at accepted
            cases accepted
          rw [searchPcbs_of_match matched none, List.exists_mem_cons_iff,
            or_iff_left others]
          simp only [UdpPcb.Accepts, matched, true_and]
          split
          next refused => simp [refused]
          next accepted =>
            simp only [Option.some.injEq, iff_self_and]
            intro _ connected
            simpa [connected] using accepted

/-! ## The list -/

theorem mem_records {id : Id} {pcb : UdpPcb} :
    (id, pcb) ∈ state.records ↔ id ∈ state.active ∧ state.pcbs id = some pcb := by
  simp [State.records, List.mem_filterMap]

/-- Two bindings that match one datagram overlap. -/
theorem UdpPcb.Overlaps.of_matchesLocal {pcb other : UdpPcb}
    (unicast : arrival.broadcast = false) (matched : matchesLocal pcb arrival = true)
    (matched' : matchesLocal other arrival = true) :
    pcb.Overlaps other.localIp other.localPort := by
  have local_iff : ∀ pcb, matchesLocal pcb arrival = true →
      pcb.localPort = arrival.destPort ∧
        (pcb.localIp = ipAddrAny ∨ pcb.localIp = arrival.dest) := by
    intro pcb matched
    simp only [matchesLocal, Bool.and_eq_true, beq_iff_eq] at matched
    obtain ⟨port, address⟩ := matched
    rw [udpInputLocalMatch, unicast] at address
    split at address
    next => cases address
    next => exact ⟨port, by simpa using address⟩
  obtain ⟨port, any | same⟩ := local_iff pcb matched
  · exact ⟨port.trans (local_iff other matched').1.symm, .inr (.inr any)⟩
  · obtain ⟨port', any' | same'⟩ := local_iff other matched'
    · exact ⟨port.trans port'.symm, .inr (.inl any')⟩
    · exact ⟨port.trans port'.symm, .inl (same.trans same'.symm)⟩

theorem State.Sound.pairwise_records (sound : state.Sound)
    (unicast : arrival.broadcast = false) :
    state.records.Pairwise fun record other =>
      matchesLocal record.2 arrival = true → matchesLocal other.2 arrival = false := by
  rw [State.records, List.pairwise_filterMap]
  refine List.Pairwise.imp_of_mem ?_ sound.nodup
  intro id other member member' different record found record' found' matched
  obtain ⟨pcb, here, rfl⟩ := Option.map_eq_some_iff.mp found
  obtain ⟨pcb', here', rfl⟩ := Option.map_eq_some_iff.mp found'
  by_contra matched'
  exact sound.apart id member other member' different pcb pcb' here here'
    (.of_matchesLocal unicast matched (by simpa using matched'))

theorem State.Sound.receiver_eq_some_iff (sound : state.Sound)
    (unicast : arrival.broadcast = false) {id : Id} :
    state.receiver arrival = some id ↔
      id ∈ state.active ∧ ∃ pcb, state.pcbs id = some pcb ∧ pcb.Accepts arrival := by
  rw [State.receiver, searchPcbs_eq_some_iff (sound.pairwise_records unicast)]
  constructor
  · rintro ⟨⟨current, pcb⟩, member, rfl, accepts⟩
    obtain ⟨listed, found⟩ := mem_records.mp member
    exact ⟨listed, pcb, found, accepts⟩
  · rintro ⟨listed, pcb, found, accepts⟩
    exact ⟨(id, pcb), mem_records.mpr ⟨listed, found⟩, rfl, accepts⟩

variable [DecidableEq Id]

/-- Several datagrams reorder the list, too. -/
theorem foldl_udpInputPcbs_eq (earlier : List Arrival) (state : State Id) :
    ∃ active, active.Perm state.active ∧
      earlier.foldl State.udpInputPcbs state = { state with active := active } := by
  induction earlier generalizing state with
  | nil => exact ⟨state.active, .refl _, rfl⟩
  | cons first rest ih =>
      obtain ⟨middle, perm, equal⟩ := udpInputPcbs_eq state first
      obtain ⟨active, perm', equal'⟩ := ih { state with active := middle }
      exact ⟨active, perm'.trans perm, by rw [List.foldl_cons, equal, equal']⟩

/-- In every run a datagram that is no broadcast goes to the `pcb` that accepts it, if
there is one, whatever has been received before. -/
theorem receiver_eq_some_iff_accepts {port : Nat} (inRange : InRange port)
    (reached : machine.Reaches FreshAddress (.init Id port) state)
    (unicast : arrival.broadcast = false) (id : Id) (earlier : List Arrival) :
    (earlier.foldl State.udpInputPcbs state).receiver arrival = some id ↔
      id ∈ state.active ∧ ∃ pcb, state.pcbs id = some pcb ∧ pcb.Accepts arrival := by
  have sound := sound_of_reaches inRange reached
  obtain ⟨active, perm, equal⟩ := foldl_udpInputPcbs_eq earlier state
  rw [equal, (sound.reorder perm).receiver_eq_some_iff unicast, perm.mem_iff]

/-- A datagram to port 7400 that is no broadcast. -/
def unicastArrival (src dest : Ip4Addr) (srcPort : Nat) : Arrival where
  src := src
  dest := dest
  srcPort := srcPort
  destPort := 7400
  broadcast := false
  netifIdx := 1
  netifIp := ⟨10, 0, 0, 1⟩
  netmask := ⟨255, 255, 255, 0⟩

/-- A datagram from the peer of the connected `pcb` comes before one to the other. -/
theorem receiver_eq_some_iff_accepts_two : ∃ state : State Nat,
    let earlier := [unicastArrival ⟨10, 0, 0, 9⟩ ⟨10, 0, 0, 1⟩ 7401]
    (state.active = [1, 0] ∧
        (earlier.foldl State.udpInputPcbs state).active = [0, 1]) ∧
      (earlier.foldl State.udpInputPcbs state).receiver
        (unicastArrival ⟨10, 0, 0, 8⟩ ⟨10, 0, 0, 2⟩ 9) = some 1 := by
  obtain ⟨state, reached, moved, second⟩ : ∃ state : State Nat,
      machine.Reaches FreshAddress (.init Nat 0xffff) state ∧
        (state.active = [1, 0] ∧
          ([unicastArrival ⟨10, 0, 0, 9⟩ ⟨10, 0, 0, 1⟩ 7401].foldl State.udpInputPcbs
            state).active = [0, 1]) ∧
        state.pcbs 1 = some ⟨⟨10, 0, 0, 2⟩, 7400, ipAddrAny, 0, 0, false, false⟩ :=
    Machine.exists_reaches_of_exec (twoBindings.take 6) (by decide +kernel)
  refine ⟨state, moved, ?_⟩
  rw [receiver_eq_some_iff_accepts ⟨by decide, by decide⟩ reached rfl]
  exact ⟨by simp [moved.1], _, second, by decide, by decide⟩

end EmbeddedRtps.Udp
