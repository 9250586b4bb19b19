import EmbeddedRtps.Udp.Pcbs

/-!
# Bindings of UDP control blocks

Whatever the applications do, a local address and port is bound to one `pcb` only, and
`udp_new_port` finds a port as long as there is one.
-/

namespace EmbeddedRtps.Udp

open Foundation Inet

universe u

/-! ## Ports -/

/-- A port of the dynamic range. -/
def InRange (port : Nat) : Prop := rangeStart ≤ port ∧ port ≤ rangeEnd

theorem nextPort_inRange {port : Nat} (inRange : InRange port) : InRange (nextPort port) := by
  rw [nextPort]
  split
  next last => exact ⟨Nat.le_refl _, by decide⟩
  next inner =>
    obtain ⟨above, below⟩ := inRange
    exact ⟨Nat.le_succ_of_le above, Nat.lt_of_le_of_ne below inner⟩

theorem InRange.ne_zero {port : Nat} (inRange : InRange port) : port ≠ 0 := by
  simp only [InRange, rangeStart] at inRange
  omega

/-- Where the loop is after some attempts. -/
theorem iterate_nextPort {port : Nat} (inRange : InRange port) (attempts : Nat) :
    nextPort^[attempts] port = rangeStart + (port - rangeStart + attempts) % 0x4000 := by
  induction attempts with
  | zero =>
      simp only [InRange, rangeStart, rangeEnd, Function.iterate_zero, id] at inRange ⊢
      omega
  | succ attempts ih =>
      rw [Function.iterate_succ_apply', ih]
      rw [nextPort]
      split
      next last =>
        simp only [rangeStart, rangeEnd] at last ⊢
        omega
      next inner =>
        simp only [rangeStart, rangeEnd] at inner ⊢
        omega

/-- The loop stops at a free port, or has found as many in use as it may. -/
theorem newPortLoop_spec (inUse : Nat → Bool) (left : Nat) {port : Nat}
    (inRange : InRange port) :
    InRange (newPortLoop inUse left port).2 ∧
      ((newPortLoop inUse left port).1 = 0 ∧
          (∀ attempt ≤ left, inUse (nextPort^[attempt + 1] port) = true) ∨
        InRange (newPortLoop inUse left port).1 ∧
          inUse (newPortLoop inUse left port).1 = false) := by
  have next := nextPort_inRange inRange
  induction left generalizing port with
  | zero =>
      rw [newPortLoop]
      split
      next used =>
        refine ⟨next, .inl ⟨rfl, fun attempt none => ?_⟩⟩
        obtain rfl := Nat.le_zero.mp none
        exact used
      next free => exact ⟨next, .inr ⟨next, by simpa using free⟩⟩
  | succ left ih =>
      rw [newPortLoop]
      split
      next used =>
        obtain ⟨stopped, result⟩ := ih next (nextPort_inRange next)
        refine ⟨stopped, result.imp_left fun ⟨zero, rest⟩ => ⟨zero, fun attempt few => ?_⟩⟩
        cases attempt with
        | zero => exact used
        | succ attempt => exact rest attempt (by omega)
      next free => exact ⟨next, .inr ⟨next, by simpa using free⟩⟩

/-- As many attempts as there are ports try all of them. -/
theorem exists_attempt {port target : Nat} (inRange : InRange port)
    (inRange' : InRange target) :
    ∃ attempt ≤ rangeEnd - rangeStart, nextPort^[attempt + 1] port = target := by
  refine ⟨(target + 0x4000 - (port + 1)) % 0x4000, ?_, ?_⟩
  · simp only [rangeStart, rangeEnd]
    omega
  · rw [iterate_nextPort inRange]
    simp only [InRange, rangeStart, rangeEnd] at inRange inRange' ⊢
    omega

variable {Id : Type u} {state : State Id}

theorem udpNewPort_spec (inRange : InRange state.udpPort) :
    InRange state.udpNewPort.2.udpPort ∧
      (state.udpNewPort.1 = 0 ∧
          (∀ port, InRange port → state.portInUse port = true) ∨
        InRange state.udpNewPort.1 ∧ state.portInUse state.udpNewPort.1 = false) := by
  obtain ⟨stopped, result⟩ :=
    newPortLoop_spec state.portInUse (rangeEnd - rangeStart) inRange
  refine ⟨stopped, result.imp_left fun ⟨zero, used⟩ => ⟨zero, fun port target => ?_⟩⟩
  obtain ⟨attempt, few, rfl⟩ := exists_attempt inRange target
  exact used attempt few

/-! ## The invariant -/

/-- The binding of a `pcb` and an address and port have a datagram in common. -/
def UdpPcb.Overlaps (pcb : UdpPcb) (ipaddr : Ip4Addr) (port : Nat) : Prop :=
  pcb.localPort = port ∧
    (pcb.localIp = ipaddr ∨ ipaddr = ipAddrAny ∨ pcb.localIp = ipAddrAny)

theorem UdpPcb.Overlaps.symm {pcb other : UdpPcb}
    (overlaps : pcb.Overlaps other.localIp other.localPort) :
    other.Overlaps pcb.localIp pcb.localPort := by
  obtain ⟨port, same | any | any⟩ := overlaps
  · exact ⟨port.symm, .inl same.symm⟩
  · exact ⟨port.symm, .inr (.inr any)⟩
  · exact ⟨port.symm, .inr (.inl any)⟩

/-- What holds between any two calls. -/
structure State.Sound (state : State Id) : Prop where
  nodup : state.active.Nodup
  allocated : ∀ id ∈ state.active, ∃ pcb, state.pcbs id = some pcb
  bound : ∀ id pcb, state.pcbs id = some pcb → (id ∈ state.active ↔ pcb.localPort ≠ 0)
  apart : ∀ id ∈ state.active, ∀ other ∈ state.active, id ≠ other →
    ∀ pcb pcb', state.pcbs id = some pcb → state.pcbs other = some pcb' →
      ¬ pcb.Overlaps pcb'.localIp pcb'.localPort
  port : InRange state.udpPort

theorem State.Sound.init {port : Nat} (inRange : InRange port) :
    (State.init Id port).Sound where
  nodup := List.nodup_nil
  allocated _ member := by cases member
  bound _ _ found := by cases found
  apart _ member := by cases member
  port := inRange

/-- The list is the same but for its order. -/
theorem State.Sound.reorder {active : List Id} (sound : state.Sound)
    (perm : active.Perm state.active) :
    ({ state with active := active } : State Id).Sound where
  nodup := perm.nodup_iff.mpr sound.nodup
  allocated current member := sound.allocated current (perm.mem_iff.mp member)
  bound current pcb found := (perm.mem_iff).trans (sound.bound current pcb found)
  apart current member other member' :=
    sound.apart current (perm.mem_iff.mp member) other (perm.mem_iff.mp member')
  port := sound.port

/-- `udp_port` moves within its range. -/
theorem State.Sound.rover {port : Nat} (sound : state.Sound) (inRange : InRange port) :
    ({ state with udpPort := port } : State Id).Sound :=
  ⟨sound.nodup, sound.allocated, sound.bound, sound.apart, inRange⟩

/-- Some `pcb` of the list has the property, read as a proposition. -/
theorem anyActive_eq_false {property : Id → UdpPcb → Bool} :
    state.anyActive property = false ↔
      ∀ id ∈ state.active, ∀ pcb, state.pcbs id = some pcb → property id pcb = false := by
  simp only [State.anyActive, List.any_eq_false, Bool.not_eq_true]
  refine forall₂_congr fun id _ => ?_
  cases state.pcbs id <;> simp

/-- What the loop of `udp_input` finds is on the list. -/
theorem mem_of_searchPcbs {arrival : Arrival} {uncon : Option (Id × UdpPcb)}
    {records : List (Id × UdpPcb)} {id : Id}
    (found : (searchPcbs arrival uncon records).1 = some id) :
    id ∈ records.map Prod.fst := by
  induction records generalizing uncon with
  | nil => cases found
  | cons here rest ih =>
      rw [searchPcbs] at found
      split at found
      next =>
        simp only at found
        split at found
        next =>
          cases found
          exact List.mem_cons_self
        next => exact List.mem_cons_of_mem _ (ih found)
      next => exact List.mem_cons_of_mem _ (ih found)

theorem mem_active_of_mem_records {id : Id} (member : id ∈ state.records.map Prod.fst) :
    id ∈ state.active := by
  simp only [State.records, List.mem_map, List.mem_filterMap, Option.map_eq_some_iff] at member
  obtain ⟨_, ⟨current, listed, pcb, _, rfl⟩, rfl⟩ := member
  exact listed

/-! ## What the calls do to the list -/

variable [DecidableEq Id] {id : Id}

theorem mem_activate {current : Id} :
    current ∈ (state.activate id).active ↔ current = id ∨ current ∈ state.active := by
  rw [State.activate]
  split
  next member =>
    constructor
    · exact .inr
    · rintro (rfl | member')
      · exact member
      · exact member'
  next => exact List.mem_cons

@[simp] theorem pcbs_activate : (state.activate id).pcbs = state.pcbs := by
  rw [State.activate]
  split <;> rfl

@[simp] theorem udpPort_activate : (state.activate id).udpPort = state.udpPort := by
  rw [State.activate]
  split <;> rfl

theorem nodup_activate (nodup : state.active.Nodup) :
    (state.activate id).active.Nodup := by
  rw [State.activate]
  split
  next => exact nodup
  next missing => exact List.nodup_cons.mpr ⟨missing, nodup⟩

theorem activate_eq_self (member : id ∈ state.active) : state.activate id = state :=
  if_pos member

namespace State.Sound

/-- Writing to a `pcb` without changing its binding. -/
theorem modify {change : UdpPcb → UdpPcb} (sound : state.Sound)
    (kept : ∀ pcb, (change pcb).localIp = pcb.localIp ∧
      (change pcb).localPort = pcb.localPort) :
    (state.modify id change).Sound := by
  -- every record of the new state has the binding of one of the old state
  have origin : ∀ current pcb, (state.modify id change).pcbs current = some pcb →
      ∃ old, state.pcbs current = some old ∧ pcb.localIp = old.localIp ∧
        pcb.localPort = old.localPort := by
    intro current pcb found
    simp only [State.modify, Function.update_apply] at found
    split at found
    next same =>
      subst same
      obtain ⟨old, found', rfl⟩ := Option.map_eq_some_iff.mp found
      exact ⟨old, found', kept old⟩
    next => exact ⟨pcb, found, rfl, rfl⟩
  refine ⟨sound.nodup, ?_, ?_, ?_, sound.port⟩
  · intro current member
    obtain ⟨old, found⟩ := sound.allocated current member
    by_cases same : current = id
    · subst same
      exact ⟨change old, by simp [State.modify, found]⟩
    · exact ⟨old, by simp [State.modify, same, found]⟩
  · intro current pcb found
    obtain ⟨old, found', _, port⟩ := origin current pcb found
    rw [port]
    exact sound.bound current old found'
  · intro current member other member' different pcb pcb' found found'
    obtain ⟨old, oldFound, ip, port⟩ := origin current pcb found
    obtain ⟨old', oldFound', ip', port'⟩ := origin other pcb' found'
    have apart := sound.apart current member other member' different old old' oldFound
      oldFound'
    rwa [UdpPcb.Overlaps, ip, port, ip', port']

/-- A `pcb` gets a binding that no other one has. -/
theorem setLocal (sound : state.Sound) {ipaddr : Ip4Addr} {port : Nat}
    (allocated : ∃ pcb, state.pcbs id = some pcb) (nonzero : port ≠ 0)
    (free : ∀ other ∈ state.active, other ≠ id → ∀ pcb, state.pcbs other = some pcb →
      ¬ pcb.Overlaps ipaddr port) :
    (state.setLocal id ipaddr port).Sound := by
  obtain ⟨pcb, found⟩ := allocated
  let new := { pcb with localIp := ipaddr, localPort := port }
  have own : (state.setLocal id ipaddr port).pcbs id = some new := by
    simp [State.setLocal, State.modify, found, new]
  have others : ∀ other, other ≠ id →
      (state.setLocal id ipaddr port).pcbs other = state.pcbs other := by
    intro other different
    simp [State.setLocal, State.modify, different]
  have members : ∀ current, current ∈ (state.setLocal id ipaddr port).active ↔
      current = id ∨ current ∈ state.active := fun _ => mem_activate
  refine ⟨nodup_activate sound.nodup, ?_, ?_, ?_, ?_⟩
  · intro current member
    by_cases same : current = id
    · exact ⟨new, same ▸ own⟩
    · rw [others current same]
      exact sound.allocated current (((members current).mp member).resolve_left same)
  · intro current record found'
    rw [members]
    by_cases same : current = id
    · subst same
      obtain rfl := Option.some.inj (own.symm.trans found')
      simp [new, nonzero]
    · rw [others current same] at found'
      simp only [same, false_or]
      exact sound.bound current record found'
  · intro current member other member' different record record' found' found''
    have listed := (members current).mp member
    have listed' := (members other).mp member'
    by_cases same : current = id
    · subst same
      obtain rfl := Option.some.inj (own.symm.trans found')
      rw [others other (Ne.symm different)] at found''
      have apart := free other (listed'.resolve_left (Ne.symm different))
        (Ne.symm different) record' found''
      exact fun overlaps => apart overlaps.symm
    · rw [others current same] at found'
      by_cases same' : other = id
      · subst same'
        obtain rfl := Option.some.inj (own.symm.trans found'')
        exact free current (listed.resolve_left same) same record found'
      · rw [others other same'] at found''
        exact sound.apart current (listed.resolve_left same) other
          (listed'.resolve_left same') different record record' found' found''
  · simpa [State.setLocal, State.modify] using sound.port

theorem udpBind (sound : state.Sound) (allocated : ∃ pcb, state.pcbs id = some pcb)
    (ipaddr : Ip4Addr) (port : Nat) : (state.udpBind id ipaddr port).2.Sound := by
  rw [State.udpBind]
  split
  next =>
    obtain ⟨stopped, result⟩ := udpNewPort_spec sound.port
    have roved : state.udpNewPort.2.Sound := sound.rover stopped
    simp only
    split
    next => exact roved
    next nonzero =>
      obtain ⟨_, unused⟩ := result.resolve_left fun exhausted => nonzero exhausted.1
      refine roved.setLocal allocated nonzero ?_
      intro other member _ pcb found overlaps
      have different := anyActive_eq_false.mp unused other member pcb found
      simp [overlaps.1] at different
  next nonzero =>
    split
    next => exact sound
    next free =>
      refine sound.setLocal allocated nonzero ?_
      intro other member different pcb found overlaps
      have none : state.bindConflict id ipaddr port = false := by simpa using free
      have apart := anyActive_eq_false.mp none other member pcb found
      obtain ⟨port, same | any | any⟩ := overlaps <;> simp_all

theorem mem_of_udpBind {bound : State Id} {ipaddr : Ip4Addr} {port : Nat}
    (ok : state.udpBind id ipaddr port = (.errOk, bound)) : id ∈ bound.active := by
  rw [State.udpBind] at ok
  split at ok
  next =>
    simp only at ok
    split at ok
    next => cases ok
    next =>
      cases ok
      exact mem_activate.mpr (.inl rfl)
  next =>
    split at ok
    next => cases ok
    next =>
      cases ok
      exact mem_activate.mpr (.inl rfl)

theorem setRemote (sound : state.Sound) (member : id ∈ state.active) (ipaddr : Ip4Addr)
    (port : Nat) : (state.setRemote id ipaddr port).Sound := by
  rw [State.setRemote, activate_eq_self (show id ∈ (state.modify id _).active from member)]
  exact sound.modify fun _ => ⟨rfl, rfl⟩

theorem udpConnect (sound : state.Sound) (ipaddr : Ip4Addr) (port : Nat) :
    (state.udpConnect id ipaddr port).2.Sound := by
  rw [State.udpConnect]
  split
  next => exact sound
  next pcb found =>
    split
    next =>
      have bound := sound.udpBind ⟨pcb, found⟩ pcb.localIp pcb.localPort
      split
      next after failed =>
        rw [failed] at bound
        exact bound
      next after ok =>
        rw [ok] at bound
        exact bound.setRemote (mem_of_udpBind ok) ipaddr port
    next nonzero =>
      exact sound.setRemote ((sound.bound id pcb found).mpr nonzero) ipaddr port

theorem udpRemove (sound : state.Sound) : (state.udpRemove id).Sound := by
  have members : ∀ current, current ∈ (state.udpRemove id).active ↔
      current ≠ id ∧ current ∈ state.active := fun current => sound.nodup.mem_erase_iff
  have others : ∀ current pcb, (state.udpRemove id).pcbs current = some pcb →
      current ≠ id ∧ state.pcbs current = some pcb := by
    intro current pcb found
    simp only [State.udpRemove, Function.update_apply] at found
    split at found
    next => cases found
    next different => exact ⟨different, found⟩
  refine ⟨sound.nodup.erase id, ?_, ?_, ?_, sound.port⟩
  · intro current member
    obtain ⟨different, listed⟩ := (members current).mp member
    obtain ⟨pcb, found⟩ := sound.allocated current listed
    exact ⟨pcb, by simp [State.udpRemove, different, found]⟩
  · intro current pcb found
    obtain ⟨different, found'⟩ := others current pcb found
    rw [members, ← sound.bound current pcb found']
    exact and_iff_right different
  · intro current member other member' different pcb pcb' found found'
    exact sound.apart current ((members current).mp member).2 other
      ((members other).mp member').2 different pcb pcb' (others current pcb found).2
      (others other pcb' found').2

theorem udpNew (sound : state.Sound) (fresh : state.pcbs id = none) :
    (state.udpNew id).Sound := by
  have missing : id ∉ state.active := fun member => by
    obtain ⟨pcb, found⟩ := sound.allocated id member
    rw [fresh] at found
    cases found
  have others : ∀ current ∈ state.active,
      (state.udpNew id).pcbs current = state.pcbs current := by
    intro current member
    have different : current ≠ id := fun same => missing (same ▸ member)
    simp [State.udpNew, different]
  refine ⟨sound.nodup, ?_, ?_, ?_, sound.port⟩
  · intro current member
    rw [others current member]
    exact sound.allocated current member
  · intro current pcb found
    by_cases same : current = id
    · subst same
      obtain rfl : UdpPcb.zero = pcb := by simpa [State.udpNew] using found
      exact ⟨fun member => absurd member missing, fun nonzero => absurd rfl nonzero⟩
    · exact sound.bound current pcb (by simpa [State.udpNew, same] using found)
  · intro current member other member' different pcb pcb' found found'
    rw [others current member] at found
    rw [others other member'] at found'
    exact sound.apart current member other member' different pcb pcb' found found'

end State.Sound

/-! ## A change of address -/

/-- An interface does not change to an address that a `pcb` is bound to already. -/
def FreshAddress (state : State Id) : Event Id → Prop
  | .ipAddrChanged _ new =>
      ∀ id ∈ state.active, ∀ pcb, state.pcbs id = some pcb → pcb.localIp ≠ new
  | _ => True

instance (state : State Id) (event : Event Id) : Decidable (FreshAddress state event) :=
  match event with
  | .ipAddrChanged _ new =>
      inferInstanceAs (Decidable (∀ id ∈ state.active, ∀ pcb ∈ state.pcbs id,
        pcb.localIp ≠ new))
  | .new _ | .bind _ _ _ | .bindNetif _ _ | .connect _ _ _ | .disconnect _ | .recv _ _
  | .remove _ | .input _ => isTrue trivial

/-- Bindings stay apart when an address is replaced in all of them. -/
theorem UdpPcb.not_overlaps_replaceIp {pcb other : UdpPcb} {old new : Ip4Addr}
    (oldSpecific : old ≠ ipAddrAny) (newSpecific : new ≠ ipAddrAny)
    (fresh : pcb.localIp ≠ new) (fresh' : other.localIp ≠ new)
    (apart : ¬ pcb.Overlaps other.localIp other.localPort) :
    ¬ (pcb.replaceIp old new).Overlaps (other.replaceIp old new).localIp
      (other.replaceIp old new).localPort := by
  grind [UdpPcb.Overlaps, UdpPcb.replaceIp]

theorem localPort_replaceIp (pcb : UdpPcb) (old new : Ip4Addr) :
    (pcb.replaceIp old new).localPort = pcb.localPort := by
  rw [UdpPcb.replaceIp]
  split <;> rfl

theorem State.Sound.udpNetifIpAddrChanged (sound : state.Sound) {old new : Ip4Addr}
    (fresh : FreshAddress state (.ipAddrChanged old new)) :
    (state.udpNetifIpAddrChanged old new).Sound := by
  rw [State.udpNetifIpAddrChanged]
  split
  next => exact sound
  next specific =>
    obtain ⟨oldSpecific, newSpecific⟩ := not_or.mp specific
    refine ⟨sound.nodup, ?_, ?_, ?_, sound.port⟩
    · intro current member
      obtain ⟨pcb, found⟩ := sound.allocated current member
      exact ⟨pcb.replaceIp old new, by simp [member, found]⟩
    · intro current pcb found
      simp only at found
      split at found
      next member =>
        obtain ⟨before, found', rfl⟩ := Option.map_eq_some_iff.mp found
        rw [localPort_replaceIp]
        exact sound.bound current before found'
      next => exact sound.bound current pcb found
    · intro current member other member' different pcb pcb' found found'
      simp only [show current ∈ state.active from member,
        show other ∈ state.active from member', if_true] at found found'
      obtain ⟨before, was, rfl⟩ := Option.map_eq_some_iff.mp found
      obtain ⟨before', was', rfl⟩ := Option.map_eq_some_iff.mp found'
      exact UdpPcb.not_overlaps_replaceIp oldSpecific newSpecific
        (fresh current member before was) (fresh other member' before' was')
        (sound.apart current member other member' different before before' was was')

/-! ## Over whole runs -/

/-- A datagram reorders the list and changes nothing else. -/
theorem udpInputPcbs_eq (state : State Id) (arrival : Arrival) :
    ∃ active, active.Perm state.active ∧
      state.udpInputPcbs arrival = { state with active := active } := by
  rw [State.udpInputPcbs]
  split
  next => exact ⟨state.active, .refl _, rfl⟩
  next id found =>
    have listed := mem_active_of_mem_records (mem_of_searchPcbs found)
    exact ⟨id :: state.active.erase id, (List.perm_cons_erase listed).symm, rfl⟩

theorem State.Sound.udpInputPcbs (sound : state.Sound) (arrival : Arrival) :
    (state.udpInputPcbs arrival).Sound := by
  obtain ⟨active, perm, equal⟩ := udpInputPcbs_eq state arrival
  rw [equal]
  exact sound.reorder perm

theorem sound_of_reaches {port : Nat} (inRange : InRange port)
    (reached : machine.Reaches FreshAddress (.init Id port) state) : state.Sound := by
  refine Machine.Reaches.invariant (State.Sound.init inRange) ?_ reached
  intro state event _ sound enabled fresh
  cases event with
  | new id => exact sound.udpNew (Option.isNone_iff_eq_none.mp enabled)
  | bind id ipaddr port =>
      exact sound.udpBind (Option.isSome_iff_exists.mp enabled) ipaddr port
  | bindNetif id index => exact sound.modify fun _ => ⟨rfl, rfl⟩
  | connect id ipaddr port => exact sound.udpConnect ipaddr port
  | disconnect id => exact sound.modify fun _ => ⟨rfl, rfl⟩
  | recv id registered => exact sound.modify fun _ => ⟨rfl, rfl⟩
  | remove id => exact sound.udpRemove
  | input arrival => exact sound.udpInputPcbs arrival
  | ipAddrChanged old new => exact sound.udpNetifIpAddrChanged fresh

/-- In every run the list has exactly the `pcb`s that are bound, each of them once, and
no two of them have overlapping bindings. -/
theorem active_bindings_apart {port : Nat} (inRange : InRange port)
    (reached : machine.Reaches FreshAddress (.init Id port) state) :
    state.active.Nodup ∧
      (∀ id pcb, state.pcbs id = some pcb → (id ∈ state.active ↔ pcb.localPort ≠ 0)) ∧
      ∀ id ∈ state.active, ∀ other ∈ state.active, id ≠ other →
        ∀ pcb pcb', state.pcbs id = some pcb → state.pcbs other = some pcb' →
          ¬ pcb.Overlaps pcb'.localIp pcb'.localPort := by
  have sound := sound_of_reaches inRange reached
  exact ⟨sound.nodup, sound.bound, sound.apart⟩

/-- Two `pcb`s are bound, to one port of two addresses; one of them is connected and
rebound. -/
def twoBindings : List (Event Nat) :=
  [.new 0, .new 1, .bind 0 ⟨10, 0, 0, 1⟩ 7400, .bind 1 ⟨10, 0, 0, 1⟩ 7400,
    .bind 1 ⟨10, 0, 0, 2⟩ 7400, .connect 0 ⟨10, 0, 0, 9⟩ 7401,
    .bind 0 ⟨10, 0, 0, 3⟩ 0, .ipAddrChanged ⟨10, 0, 0, 2⟩ ⟨10, 0, 0, 4⟩]

theorem active_bindings_apart_two : ∃ state : State Nat,
    (state.active = [1, 0] ∧ state.udpPort = 0xc000 ∧
      (state.pcbs 1).any (·.localIp == ⟨10, 0, 0, 4⟩) = true) ∧
      state.active.Nodup := by
  obtain ⟨state, reached, property⟩ : ∃ state : State Nat,
      machine.Reaches FreshAddress (.init Nat 0xffff) state ∧
        (state.active = [1, 0] ∧ state.udpPort = 0xc000 ∧
          (state.pcbs 1).any (·.localIp == ⟨10, 0, 0, 4⟩) = true) :=
    Machine.exists_reaches_of_exec twoBindings (by decide +kernel)
  exact ⟨state, property, (active_bindings_apart ⟨by decide, by decide⟩ reached).1⟩

/-- The condition on the new address is needed: `udp_netif_ip_addr_changed` does not look
for other bindings. -/
theorem exists_overlap_of_ipAddrChanged : ∃ state : State Nat,
    machine.Reaches Machine.AnyStep (.init Nat 0xffff) state ∧
      state.active = [1, 0] ∧ state.pcbs 0 = state.pcbs 1 :=
  Machine.exists_reaches_of_exec
    [.new 0, .new 1, .bind 0 ⟨10, 0, 0, 1⟩ 7400, .bind 1 ⟨10, 0, 0, 2⟩ 7400,
      .ipAddrChanged ⟨10, 0, 0, 2⟩ ⟨10, 0, 0, 1⟩]
    (by decide +kernel)

/-! ## The search for a port -/

theorem inRange_udpPort_udpBind (inRange : InRange state.udpPort) (id : Id)
    (ipaddr : Ip4Addr) (port : Nat) :
    InRange (state.udpBind id ipaddr port).2.udpPort := by
  rw [State.udpBind]
  split
  next =>
    have stopped := (udpNewPort_spec inRange).1
    simp only
    split
    next => exact stopped
    next => simpa [State.setLocal, State.modify] using stopped
  next =>
    split
    next => exact inRange
    next => simpa [State.setLocal, State.modify] using inRange

theorem inRange_udpPort_udpConnect (inRange : InRange state.udpPort) (id : Id)
    (ipaddr : Ip4Addr) (port : Nat) :
    InRange (state.udpConnect id ipaddr port).2.udpPort := by
  rw [State.udpConnect]
  split
  next => exact inRange
  next pcb _ =>
    split
    next =>
      have bound := inRange_udpPort_udpBind inRange id pcb.localIp pcb.localPort
      split
      next after failed =>
        rw [failed] at bound
        exact bound
      next after ok =>
        rw [ok] at bound
        simpa [State.setRemote, State.modify] using bound
    next => simpa [State.setRemote, State.modify] using inRange

/-- No condition on the addresses is needed for this part of the invariant. -/
theorem inRange_udpPort_of_reaches {port : Nat} (inRange : InRange port)
    (reached : machine.Reaches Machine.AnyStep (.init Id port) state) :
    InRange state.udpPort := by
  induction reached with
  | refl => exact inRange
  | @step state event _ _ _ inRange =>
      cases event with
      | bind id ipaddr port => exact inRange_udpPort_udpBind inRange id ipaddr port
      | connect id ipaddr port => exact inRange_udpPort_udpConnect inRange id ipaddr port
      | input arrival =>
          obtain ⟨active, _, equal⟩ := udpInputPcbs_eq state arrival
          change InRange (state.udpInputPcbs arrival).udpPort
          rw [equal]
          exact inRange
      | ipAddrChanged old new =>
          change InRange (state.udpNetifIpAddrChanged old new).udpPort
          rw [State.udpNetifIpAddrChanged]
          split <;> exact inRange
      | new | bindNetif | disconnect | recv | remove => exact inRange

/-- In every run `udp_new_port` fails only when all ports of its range are in use, and
the port it returns otherwise is one of the range that no `pcb` is bound to. -/
theorem udpNewPort_of_reaches {port : Nat} (inRange : InRange port)
    (reached : machine.Reaches Machine.AnyStep (.init Id port) state) :
    (state.udpNewPort.1 = 0 ↔ ∀ port, InRange port → state.portInUse port = true) ∧
      (state.udpNewPort.1 ≠ 0 →
        InRange state.udpNewPort.1 ∧ state.portInUse state.udpNewPort.1 = false) := by
  obtain ⟨_, ⟨zero, full⟩ | ⟨target, free⟩⟩ :=
    udpNewPort_spec (inRange_udpPort_of_reaches inRange reached)
  · exact ⟨iff_of_true zero full, fun nonzero => absurd zero nonzero⟩
  · refine ⟨iff_of_false target.ne_zero fun full => ?_, fun _ => ⟨target, free⟩⟩
    rw [full _ target] at free
    cases free

theorem udpNewPort_of_reaches_two : ∃ state : State Nat,
    (state.active = [1, 0] ∧ state.udpNewPort.1 = 0xc001) ∧
      state.portInUse state.udpNewPort.1 = false := by
  obtain ⟨state, reached, property⟩ : ∃ state : State Nat,
      machine.Reaches Machine.AnyStep (.init Nat 0xffff) state ∧
        (state.active = [1, 0] ∧ state.udpNewPort.1 = 0xc001) :=
    Machine.exists_reaches_of_exec twoBindings (by decide +kernel)
  have result := (udpNewPort_of_reaches ⟨by decide, by decide⟩ reached).2
    (by rw [property.2]; decide)
  exact ⟨state, property, result.2⟩

end EmbeddedRtps.Udp
