import EmbeddedRtps.Ip.Agreement
import Mathlib.Algebra.Group.Action.Defs

/-!
# Fragments in any order

All fragments of a datagram arrive, in any order, some of them more than once, and the timer
runs in between.  Nothing is delivered until the one that was missing last is there; then the
datagram is, and the store is as if only the timer had run.

A fragment that arrives again is thrown away, but only after the check whether there is room
for it.  So there has to be room for every fragment once, however often they arrive.
-/

namespace EmbeddedRtps.Ip

open Foundation

/-- One event after another. -/
def Receiver.run (cfg : Config) (receiver : Receiver) (events : List Event) : Receiver :=
  events.foldl (Receiver.apply cfg) receiver

/-- The packets that arrive, with their numbers of `pbuf`s. -/
def fragments (events : List Event) : List (Packet × Nat) :=
  events.filterMap fun
    | .input packet clen => some (packet, clen)
    | .tmr => none

/-- The calls of the timer. -/
def ticks (events : List Event) : List Event := events.filter (· = .tmr)

/-- The datagram has been cut into these packets. -/
structure CutInto (header : Header) (whole : List UInt8) (sent : List Packet) : Prop where
  joined : placement.Joined 0 sent whole.length
  pieces : ∀ packet ∈ sent, Genuine header whole packet
  nonempty : ∀ packet ∈ sent, packet.data ≠ []
  received : ∀ packet ∈ sent, ∀ clen, clen < 2 ^ 16 → Received packet clen
  short : whole.length ≤ 0xffff - ipHlen

/-- What the entry of a datagram holds when these packets have arrived.  The timer may still
run so many times. -/
structure Collecting (header : Header) (left : Nat) (arrived : List (Packet × Nat))
    (ipr : Reassdata) : Prop where
  key : ipr.iphdr.key = header.key
  origin : ∀ helper ∈ ipr.p, ∃ entry ∈ arrived, helper = entry.1.helper entry.2
  present : ∀ entry ∈ arrived, ∃ helper ∈ ipr.p, helper.start = entry.1.offset * 8
  last : ipr.lastFrag = true ↔ ∃ entry ∈ arrived, entry.1.mf = false
  left_le : left ≤ ipr.timer

variable {cfg : Config} {header : Header} {whole : List UInt8} {sent : List Packet}
variable {arrived : List (Packet × Nat)} {ipr : Reassdata} {packet : Packet}
variable {clen left most : Nat}

/-! ## The packets of a datagram -/

theorem CutInto.start_lt_stop (cut : CutInto header whole sent) (member : packet ∈ sent) :
    placement.start packet < placement.stop packet :=
  Nat.lt_add_of_pos_right (List.length_pos_iff.mpr (cut.nonempty packet member))

/-- Two packets that overlap are the same. -/
theorem CutInto.eq_of_overlap (cut : CutInto header whole sent) {other : Packet}
    (member : packet ∈ sent) (member' : other ∈ sent)
    (overlap : placement.start packet < placement.stop other)
    (overlap' : placement.start other < placement.stop packet) : packet = other :=
  (cut.joined.ordered fun _ member => cut.start_lt_stop member).eq_of_overlap member member'
    overlap overlap'

theorem CutInto.eq_of_offset (cut : CutInto header whole sent) {other : Packet}
    (member : packet ∈ sent) (member' : other ∈ sent)
    (same : packet.offset * 8 = other.offset * 8) : packet = other := by
  have start := cut.start_lt_stop member
  have start' := cut.start_lt_stop member'
  have same : placement.start packet = placement.start other := same
  exact cut.eq_of_overlap member member' (by omega) (by omega)

theorem CutInto.valid (cut : CutInto header whole sent) (member : packet ∈ sent) :
    ¬ Invalid packet := by
  have genuine := cut.pieces packet member
  have inside : packet.offset * 8 + packet.data.length ≤ whole.length := genuine.cut.stop_le
  have short := cut.short
  have len := genuine.len_eq
  have hlBytes := genuine.hlBytes_eq
  rw [ipHlen] at short len hlBytes
  rintro (options | header | wraps | ⟨-, long⟩)
  · exact options genuine.hlBytes_eq
  · omega
  · omega
  · rw [ipHlen] at long
    omega

/-- One packet reaches to the end, and says so. -/
theorem CutInto.exists_last (cut : CutInto header whole sent) (some_data : 0 < whole.length) :
    ∃ packet ∈ sent, packet.mf = false := by
  obtain ⟨packet, member, -, stop⟩ :=
    cut.joined.exists_mem (Nat.zero_le (whole.length - 1)) (by omega)
  refine ⟨packet, member, ?_⟩
  rw [← Bool.not_eq_true, (cut.pieces packet member).mf_iff]
  omega

/-! ## Collecting -/

theorem collecting_fresh (same : packet.header.key = header.key) (soon : left ≤ cfg.maxAge) :
    Collecting header left [] (.fresh cfg packet) :=
  ⟨same, nofun, nofun, ⟨nofun, nofun⟩, soon⟩

theorem Collecting.copyHeader (collecting : Collecting header left arrived ipr)
    (same : packet.header.key = header.key) :
    Collecting header left arrived (ipr.copyHeader packet) := by
  refine ⟨(Reassdata.key_copyHeader (collecting.key.trans same.symm)).trans same, ?_, ?_, ?_,
    ?_⟩
  · simpa using collecting.origin
  · simpa using collecting.present
  · simpa using collecting.last
  · simpa using collecting.left_le

/-- The timer has run. -/
theorem Collecting.tick (collecting : Collecting header (left + 1) arrived ipr) :
    Collecting header left arrived { ipr with timer := ipr.timer - 1 } :=
  ⟨collecting.key, collecting.origin, collecting.present, collecting.last,
    Nat.le_sub_of_add_le collecting.left_le⟩

/-- A new fragment has been put in its place. -/
theorem Collecting.update (collecting : Collecting header left arrived ipr)
    {front next queue : List Helper}
    (inserted : Inserted (packet.helper clen) ipr.p front next queue) :
    Collecting header left (arrived ++ [(packet, clen)]) (ipr.update packet queue) := by
  refine ⟨collecting.key, fun helper member => ?_, fun entry member => ?_, ?_,
    collecting.left_le⟩
  · rcases inserted.mem_iff.mp member with rfl | member
    · exact ⟨(packet, clen), by simp, rfl⟩
    · obtain ⟨entry, member, same⟩ := collecting.origin helper member
      exact ⟨entry, List.mem_append_left _ member, same⟩
  · rcases List.mem_append.mp member with member | member
    · obtain ⟨helper, member, start⟩ := collecting.present entry member
      exact ⟨helper, inserted.mem_iff.mpr (.inr member), start⟩
    · rw [List.mem_singleton.mp member]
      exact ⟨packet.helper clen, inserted.mem_iff.mpr (.inl rfl), rfl⟩
  · simp [Reassdata.update, Reassdata.enqueue, collecting.last, or_comm]

/-- A fragment has come again. -/
theorem Collecting.again (collecting : Collecting header left arrived ipr)
    {entry : Packet × Nat} (member : entry ∈ arrived) (same : entry.1 = packet) :
    Collecting header left (arrived ++ [(packet, clen)]) ipr := by
  refine ⟨collecting.key, fun helper member => ?_, fun other member' => ?_, ?_,
    collecting.left_le⟩
  · obtain ⟨entry, member, same⟩ := collecting.origin helper member
    exact ⟨entry, List.mem_append_left _ member, same⟩
  · rcases List.mem_append.mp member' with member' | member'
    · exact collecting.present other member'
    · rw [List.mem_singleton.mp member', ← same]
      exact collecting.present entry member
  · rw [collecting.last]
    constructor
    · rintro ⟨other, member', final⟩
      exact ⟨other, List.mem_append_left _ member', final⟩
    · rintro ⟨other, member', final⟩
      rcases List.mem_append.mp member' with member' | member'
      · exact ⟨other, member', final⟩
      · rw [List.mem_singleton.mp member'] at final
        exact ⟨entry, member, same ▸ final⟩

section Queue

variable (cut : CutInto header whole sent) (arrivals : ∀ entry ∈ arrived, entry.1 ∈ sent)
variable (collecting : Collecting header left arrived ipr)

include cut arrivals collecting

/-- What overlaps with the queue has arrived already. -/
theorem Collecting.arrived_of_overlaps (member : packet ∈ sent)
    (overlaps : Overlaps (packet.helper clen) ipr.p) :
    ∃ entry ∈ arrived, entry.1 = packet := by
  obtain ⟨helper, member', overlap⟩ := overlaps
  obtain ⟨entry, member'', rfl⟩ := collecting.origin helper member'
  refine ⟨entry, member'', ?_⟩
  rcases overlap with same | ⟨overlap, overlap'⟩
  · exact cut.eq_of_offset (arrivals entry member'') member same
  · exact cut.eq_of_overlap (arrivals entry member'') member overlap' overlap

/-- As long as a packet is missing, what has arrived takes less room than all packets. -/
theorem Collecting.clens_add_le (sound : Sound ipr.p) {missing : Packet}
    (member : missing ∈ sent) (absent : ∀ entry ∈ arrived, entry.1 ≠ missing)
    (small : ∀ entry ∈ arrived, entry.2 ≤ most) : clens ipr.p + most ≤ sent.length * most := by
  -- each packet is in the queue at most once, and the missing one is not
  have distinct : (missing.offset * 8 :: ipr.p.map Helper.start).Nodup := by
    refine List.nodup_cons.mpr ⟨fun again => ?_, ?_⟩
    · obtain ⟨helper, member', start⟩ := List.mem_map.mp again
      obtain ⟨entry, arrival, rfl⟩ := collecting.origin helper member'
      exact absent entry arrival (cut.eq_of_offset (arrivals entry arrival) member start)
    · exact List.pairwise_map.mpr (sound.ordered.imp fun apart => Nat.ne_of_lt apart.1)
  have places : missing.offset * 8 :: ipr.p.map Helper.start ⊆
      sent.map fun packet => packet.offset * 8 := by
    refine List.cons_subset.mpr ⟨List.mem_map_of_mem member, fun start found => ?_⟩
    obtain ⟨helper, member', rfl⟩ := List.mem_map.mp found
    obtain ⟨entry, arrival, rfl⟩ := collecting.origin helper member'
    exact List.mem_map_of_mem (arrivals entry arrival)
  have fewer : ipr.p.length + 1 ≤ sent.length := by
    simpa using (List.subperm_of_subset distinct places).length_le
  have each : clens ipr.p ≤ ipr.p.length * most := by
    have bounded : ∀ clen ∈ ipr.p.map Helper.clen, clen ≤ most := by
      intro clen found
      obtain ⟨helper, member', rfl⟩ := List.mem_map.mp found
      obtain ⟨entry, arrival, rfl⟩ := collecting.origin helper member'
      exact small entry arrival
    exact (List.sum_le_card_nsmul _ most bounded).trans_eq
      (by rw [List.length_map, smul_eq_mul])
  calc clens ipr.p + most ≤ (ipr.p.length + 1) * most := by rw [Nat.succ_mul]; omega
    _ ≤ sent.length * most := Nat.mul_le_mul_right most fewer

/-- As long as a packet is missing there is a hole, or the end is not known. -/
theorem Collecting.not_joined {missing : Packet} (member : missing ∈ sent)
    (absent : ∀ entry ∈ arrived, entry.1 ≠ missing) (known : ipr.lastFrag = true) :
    ¬ ∃ last, queued.Joined 0 ipr.p last := by
  rintro ⟨last, joined⟩
  have forwards : ∀ helper ∈ ipr.p, queued.start helper ≤ queued.stop helper := by
    intro helper member
    obtain ⟨entry, -, rfl⟩ := collecting.origin helper member
    exact Nat.le_add_right _ _
  -- the queue reaches to the end of the datagram
  have reaches : whole.length ≤ last := by
    obtain ⟨entry, arrival, final⟩ := collecting.last.mp known
    obtain ⟨helper, member', start⟩ := collecting.present entry arrival
    obtain ⟨entry', arrival', rfl⟩ := collecting.origin helper member'
    have same := cut.eq_of_offset (arrivals entry' arrival') (arrivals entry arrival) start
    have stop := joined.stop_le forwards member'
    have ends := mt (cut.pieces _ (arrivals entry arrival)).mf_iff.mpr
      (by rw [final]; exact nofun)
    have stop' : placement.stop entry.1 ≤ last := same ▸ stop
    omega
  -- so something covers the place of the missing packet
  have nonempty := cut.start_lt_stop member
  have inside := (cut.pieces missing member).cut.stop_le
  obtain ⟨helper, member', start, stop⟩ :=
    joined.exists_mem (Nat.zero_le (placement.start missing)) (by omega)
  obtain ⟨entry, arrival, rfl⟩ := collecting.origin helper member'
  have start : placement.start entry.1 ≤ placement.start missing := start
  have stop : placement.start missing < placement.stop entry.1 := stop
  exact absent entry arrival
    (cut.eq_of_overlap (arrivals entry arrival) member (by omega) stop)

/-- When all packets have arrived there is no hole. -/
theorem Collecting.joined (sound : Sound ipr.p) (some_data : 0 < whole.length)
    (all : ∀ packet ∈ sent, ∃ entry ∈ arrived, entry.1 = packet) :
    ipr.lastFrag = true ∧ ∃ last, queued.Joined 0 ipr.p last := by
  have represented : ∀ packet ∈ sent, ∃ helper ∈ ipr.p,
      helper.start = packet.offset * 8 := by
    intro packet member
    obtain ⟨entry, arrival, rfl⟩ := all packet member
    exact collecting.present entry arrival
  constructor
  · obtain ⟨packet, member, final⟩ := cut.exists_last some_data
    obtain ⟨entry, arrival, rfl⟩ := all packet member
    exact collecting.last.mpr ⟨entry, arrival, final⟩
  · obtain ⟨packet, member, start, -⟩ := cut.joined.exists_mem (Nat.le_refl 0) some_data
    obtain ⟨helper, member', start'⟩ := represented packet member
    have first : helper.start = 0 := by
      have start : packet.offset * 8 ≤ 0 := start
      omega
    have nonempty : ∀ helper ∈ ipr.p, queued.start helper < queued.stop helper ∧
        queued.stop helper ≤ whole.length := by
      intro helper member
      obtain ⟨entry, arrival, rfl⟩ := collecting.origin helper member
      exact ⟨cut.start_lt_stop (arrivals entry arrival),
        (cut.pieces _ (arrivals entry arrival)).cut.stop_le⟩
    have followed : ∀ helper ∈ ipr.p, queued.stop helper = whole.length ∨
        ∃ next ∈ ipr.p, queued.start next = queued.stop helper := by
      intro helper member
      obtain ⟨entry, arrival, rfl⟩ := collecting.origin helper member
      refine (cut.joined.followed (arrivals entry arrival)).imp_right ?_
      rintro ⟨next, member, start⟩
      obtain ⟨helper, member, start'⟩ := represented next member
      exact ⟨helper, member, start'.trans start⟩
    have ordered := sound.ordered
    obtain ⟨head, rest, queue⟩ := List.exists_cons_of_ne_nil (List.ne_nil_of_mem member')
    rw [queue] at member' nonempty followed ordered ⊢
    have headStart : queued.start head = 0 := by
      rcases List.mem_cons.mp member' with rfl | behind
      · exact first
      · have := ((List.pairwise_cons.mp ordered).1 helper behind).1
        have first : queued.start helper = 0 := first
        omega
    exact ⟨whole.length, headStart ▸ ordered.joined nonempty followed⟩

end Queue

/-! ## The store -/

/-- The store without the datagram has room for it. -/
structure Spare (cfg : Config) (header : Header) (size : Nat) (base : State) : Prop where
  inv : Inv cfg base
  foreign : ∀ ipr ∈ base.reassdatagrams, ipr.iphdr.key ≠ header.key
  free : base.reassdatagrams.length < cfg.numReassdata
  room : base.pbufcount + size ≤ cfg.maxPbufs

/-- The store has an entry for the datagram in front of what it would have without, if one
of its packets has arrived. -/
structure Holding (cfg : Config) (header : Header) (whole : List UInt8) (base : State)
    (left : Nat) (arrived : List (Packet × Nat)) (state : State) : Prop where
  inv : Inv cfg state
  pieces : Pieces header whole state.reassdatagrams
  soon : left ≤ cfg.maxAge
  entry : arrived = [] ∧ state = base ∨ ∃ ipr, Collecting header left arrived ipr ∧
    state = ⟨ipr :: base.reassdatagrams, base.pbufcount + clens ipr.p⟩

theorem Spare.aged {base base' : State} {size : Nat} (spare : Spare cfg header size base)
    (inv : Inv cfg base') (aged : Aged base base') : Spare cfg header size base' := by
  refine ⟨inv, fun ipr member => ?_, aged.length_le.trans_lt spare.free,
    (Nat.add_le_add_right aged.pbufcount_le size).trans spare.room⟩
  obtain ⟨old, member, same⟩ := aged.entries ipr member
  rw [same]
  exact spare.foreign old member

/-- The timer runs, and the datagram is not given up. -/
theorem Holding.tick {base state : State} (narrow : cfg.maxPbufs ≤ 0xffff)
    (holding : Holding cfg header whole base (left + 1) arrived state) {base' : State}
    (called : ipReassTmr base = some base') :
    ∃ state', ipReassTmr state = some state' ∧
      Holding cfg header whole base' left arrived state' := by
  obtain ⟨state', called', inv, aged⟩ := ipReassTmr_spec narrow holding.inv
  refine ⟨state', called', inv, aged.pieces holding.pieces, Nat.le_of_succ_le holding.soon, ?_⟩
  rcases holding.entry with ⟨none, rfl⟩ | ⟨ipr, collecting, rfl⟩
  · exact .inl ⟨none, Option.some.inj (called'.symm.trans called)⟩
  · rw [ipReassTmr_cons called (Nat.zero_lt_of_lt collecting.left_le)] at called'
    cases called'
    exact .inr ⟨_, collecting.tick, rfl⟩

section Store

variable {base state : State}
variable (foreign : ∀ ipr ∈ base.reassdatagrams, ipr.iphdr.key ≠ header.key)
variable (holding : Holding cfg header whole base left arrived state)

include foreign holding

/-- The entry of a packet of the datagram is the one in front. -/
theorem Holding.focus (same : packet.header.key = header.key)
    {before after : List Reassdata}
    (focus : Focus cfg packet state.reassdatagrams before ipr after) :
    before = [] ∧ after = base.reassdatagrams ∧ Collecting header left arrived ipr ∧
      state.pbufcount = base.pbufcount + clens ipr.p := by
  rcases holding.entry with ⟨rfl, rfl⟩ | ⟨ipr, collecting, rfl⟩
  · cases focus with
    | @old _ ipr _ split key =>
        have member : ipr ∈ state.reassdatagrams := by simp [split]
        exact absurd (key.trans same) (foreign ipr member)
    | new _ => exact ⟨rfl, rfl, collecting_fresh same holding.soon, rfl⟩
  · cases focus with
    | @old before other after split key =>
        cases before with
        | nil =>
            cases split
            exact ⟨rfl, rfl, collecting.copyHeader same, by rw [Reassdata.p_copyHeader]⟩
        | cons head before =>
            have split : ipr :: base.reassdatagrams = head :: (before ++ other :: after) := split
            have member : other ∈ base.reassdatagrams := by simp [(List.cons.inj split).2]
            exact absurd (key.trans same) (foreign other member)
    | new none =>
        exact absurd (collecting.key.trans same.symm) (none ipr List.mem_cons_self)

end Store

theorem lastFrag_update {queue : List Helper} :
    (ipr.update packet queue).lastFrag = true ↔ packet.mf = false ∨ ipr.lastFrag = true := by
  simp [Reassdata.update, Reassdata.enqueue]

theorem CutInto.honest (cut : CutInto header whole sent) (member : packet ∈ sent)
    (clen : Nat) :
    packet.header.key = header.key ∧ Honest header whole (.input packet clen) := by
  have genuine := cut.pieces packet member
  exact ⟨by rw [genuine.header_eq], fun _ =>
    ⟨genuine.header_eq.symm ▸ genuine, fun _ => genuine.header_eq⟩⟩

section Step

variable {base state state' : State} {out : Option Datagram}
variable (cut : CutInto header whole sent) (arrivals : ∀ entry ∈ arrived, entry.1 ∈ sent)
variable (foreign : ∀ ipr ∈ base.reassdatagrams, ipr.iphdr.key ≠ header.key)
variable (holding : Holding cfg header whole base left arrived state)
variable (member : packet ∈ sent) (roomy : Roomy cfg state packet clen)
variable (step : Reassembled cfg packet clen state state' out)

include cut arrivals foreign holding member roomy step

/-- A packet arrives while another one is still missing. -/
theorem Holding.incomplete {missing : Packet} (member' : missing ∈ sent)
    (absent : ∀ entry ∈ arrived ++ [(packet, clen)], entry.1 ≠ missing) :
    out = none ∧ Holding cfg header whole base left (arrived ++ [(packet, clen)]) state' := by
  have inv := step.inv
  have soon := holding.soon
  obtain ⟨same, honest⟩ := cut.honest member clen
  obtain ⟨pieces, -⟩ := step.pieces holding.pieces honest
  have arrivals' : ∀ entry ∈ arrived ++ [(packet, clen)], entry.1 ∈ sent :=
    List.forall_mem_append.mpr ⟨arrivals, List.forall_mem_singleton.mpr member⟩
  cases step with
  | ignored _ reason =>
      exact absurd reason (not_or.mpr ⟨cut.valid member, not_not.mpr roomy⟩)
  | @refused middle before after ipr madeRoom split key reason =>
      obtain rfl := madeRoom.only roomy
      have focus : Focus cfg packet _ before _ after := .old split key
      obtain ⟨rfl, rfl, collecting, count⟩ := holding.focus foreign same focus
      have overlaps := reason.resolve_left (cut.valid member)
      rw [← Reassdata.p_copyHeader ipr packet] at overlaps
      obtain ⟨entry, arrival, again⟩ :=
        collecting.arrived_of_overlaps cut arrivals member overlaps
      exact ⟨rfl, inv, pieces, soon,
        .inr ⟨_, collecting.again arrival again, by rw [count]; rfl⟩⟩
  | @queued middle before after ipr front next queue madeRoom _ _ focus inserted _ =>
      obtain rfl := madeRoom.only roomy
      obtain ⟨rfl, rfl, collecting, count⟩ := holding.focus foreign same focus
      have counted := inserted.clens_eq
      refine ⟨rfl, inv, pieces, soon, .inr ⟨_, collecting.update inserted, ?_⟩⟩
      rw [count, Nat.add_assoc, ← counted]
      rfl
  | @finished middle before after ipr front next queue madeRoom _ _ focus inserted complete =>
      obtain rfl := madeRoom.only roomy
      obtain ⟨rfl, rfl, collecting, count⟩ := holding.focus foreign same focus
      exact absurd complete.2 ((collecting.update inserted).not_joined cut arrivals' member'
        absent (lastFrag_update.mpr complete.1))

/-- The packet arrives that was missing last. -/
theorem Holding.complete (some_data : 0 < whole.length)
    (absent : ∀ entry ∈ arrived, entry.1 ≠ packet)
    (all : ∀ other ∈ sent, ∃ entry ∈ arrived ++ [(packet, clen)], entry.1 = other) :
    out = some ⟨header, whole.length + ipHlen, whole⟩ ∧ state' = base := by
  obtain ⟨same, honest⟩ := cut.honest member clen
  obtain ⟨-, delivered⟩ := step.pieces holding.pieces honest
  have arrivals' : ∀ entry ∈ arrived ++ [(packet, clen)], entry.1 ∈ sent :=
    List.forall_mem_append.mpr ⟨arrivals, List.forall_mem_singleton.mpr member⟩
  cases step with
  | ignored _ reason =>
      exact absurd reason (not_or.mpr ⟨cut.valid member, not_not.mpr roomy⟩)
  | @refused middle before after ipr madeRoom split key reason =>
      obtain rfl := madeRoom.only roomy
      have focus : Focus cfg packet _ before _ after := .old split key
      obtain ⟨rfl, rfl, collecting, count⟩ := holding.focus foreign same focus
      have overlaps := reason.resolve_left (cut.valid member)
      rw [← Reassdata.p_copyHeader ipr packet] at overlaps
      obtain ⟨entry, arrival, again⟩ :=
        collecting.arrived_of_overlaps cut arrivals member overlaps
      exact absurd again (absent entry arrival)
  | @queued middle before after ipr front next queue madeRoom _ _ focus inserted incomplete =>
      obtain rfl := madeRoom.only roomy
      obtain ⟨rfl, rfl, collecting, count⟩ := holding.focus foreign same focus
      have sound := inserted.sound (focus.sound holding.inv).1 (Nat.le_add_right _ _)
      obtain ⟨known, joined⟩ :=
        (collecting.update inserted).joined cut arrivals' sound some_data all
      exact absurd ⟨lastFrag_update.mp known, joined⟩ incomplete
  | @finished middle before after ipr front next queue madeRoom _ _ focus inserted complete =>
      obtain rfl := madeRoom.only roomy
      obtain ⟨rfl, rfl, collecting, count⟩ := holding.focus foreign same focus
      have counted := inserted.clens_eq
      refine ⟨congrArg some (delivered _ rfl collecting.key), ?_⟩
      rw [count, counted, Nat.add_assoc, Nat.add_sub_cancel]
      rfl

end Step

/-! ## Runs -/

@[simp] theorem fragments_append_input (events : List Event) (packet : Packet) (clen : Nat) :
    fragments (events ++ [.input packet clen]) = fragments events ++ [(packet, clen)] :=
  List.filterMap_append

@[simp] theorem fragments_append_tmr (events : List Event) :
    fragments (events ++ [.tmr]) = fragments events := by
  rw [fragments, List.filterMap_append]
  exact List.append_nil _

theorem Receiver.run_append_singleton (receiver : Receiver) (events : List Event)
    (event : Event) :
    receiver.run cfg (events ++ [event]) = (receiver.run cfg events).apply cfg event :=
  List.foldl_concat ..

section Run

variable (cut : CutInto header whole sent)

include cut

/-- There is room for a packet as long as one is missing. -/
theorem Holding.roomy {base state : State}
    (spare : Spare cfg header (sent.length * most) base)
    (holding : Holding cfg header whole base left arrived state)
    (arrivals : ∀ entry ∈ arrived, entry.1 ∈ sent ∧ entry.2 ≤ most) {missing : Packet}
    (member' : missing ∈ sent) (absent : ∀ entry ∈ arrived, entry.1 ≠ missing)
    (member : packet ∈ sent) (small : clen ≤ most) : Roomy cfg state packet clen := by
  have room := spare.room
  rcases holding.entry with ⟨rfl, rfl⟩ | ⟨ipr, collecting, rfl⟩
  · have one : 1 * most ≤ sent.length * most :=
      Nat.mul_le_mul_right most (List.length_pos_of_mem member)
    exact ⟨by omega, .inl spare.free⟩
  · have less := collecting.clens_add_le cut (fun entry arrival => (arrivals entry arrival).1)
      (holding.inv.sound ipr List.mem_cons_self) member' absent
      fun entry arrival => (arrivals entry arrival).2
    refine ⟨?_, .inr ⟨ipr, List.mem_cons_self, ?_⟩⟩
    · show base.pbufcount + clens ipr.p + clen ≤ cfg.maxPbufs
      omega
    · exact collecting.key.trans (cut.honest member clen).1.symm

/-- A packet of the datagram in few `pbuf`s. -/
theorem Spare.received {base : State} (narrow : cfg.maxPbufs ≤ 0xffff)
    (spare : Spare cfg header (sent.length * most) base) (member : packet ∈ sent)
    (small : clen ≤ most) : Received packet clen := by
  have room := spare.room
  have one : 1 * most ≤ sent.length * most :=
    Nat.mul_le_mul_right most (List.length_pos_of_mem member)
  exact cut.received packet member clen (by omega)

variable (narrow : cfg.maxPbufs ≤ 0xffff) {receiver : Receiver} {events : List Event}

include narrow

/-- Nothing is delivered as long as a packet is missing. -/
theorem run_incomplete (spare : Spare cfg header (sent.length * most) receiver.reass)
    {missing : Packet} (member : missing ∈ sent)
    (arrivals : ∀ entry ∈ fragments events, entry.1 ∈ sent ∧ entry.2 ≤ most)
    (absent : ∀ entry ∈ fragments events, entry.1 ≠ missing)
    (inTime : (ticks events).length + left = cfg.maxAge) :
    ∃ state base, receiver.run cfg events = ⟨state, receiver.delivered⟩ ∧
      receiver.run cfg (ticks events) = ⟨base, receiver.delivered⟩ ∧
      Spare cfg header (sent.length * most) base ∧
      Holding cfg header whole base left (fragments events) state := by
  induction events using List.reverseRecOn generalizing left with
  | nil =>
      have pieces : Pieces header whole receiver.reass.reassdatagrams :=
        fun ipr member same => absurd same (spare.foreign ipr member)
      exact ⟨receiver.reass, receiver.reass, rfl, rfl, spare, spare.inv, pieces,
        (Nat.le_add_left _ _).trans_eq inTime, .inl ⟨rfl, rfl⟩⟩
  | append_singleton events event ih =>
      rw [Receiver.run_append_singleton]
      cases event with
      | input packet clen =>
          have same : ticks (events ++ [.input packet clen]) = ticks events := by
            simp [ticks]
          rw [same] at inTime ⊢
          rw [fragments_append_input] at arrivals absent ⊢
          obtain ⟨arrivals', own⟩ := List.forall_mem_append.mp arrivals
          obtain ⟨own, small⟩ : packet ∈ sent ∧ clen ≤ most :=
            own _ (List.mem_singleton_self _)
          have absent' := (List.forall_mem_append.mp absent).1
          obtain ⟨state, base, run, aged, spare', holding⟩ := ih arrivals' absent' inTime
          have roomy := holding.roomy cut spare' arrivals' member absent' own small
          obtain ⟨state', out, called, step⟩ :=
            ip4Reass_spec narrow holding.inv (spare'.received cut narrow own small)
          obtain ⟨rfl, holding'⟩ := holding.incomplete cut
            (fun entry arrival => (arrivals' entry arrival).1) spare'.foreign own roomy step
            member absent
          refine ⟨state', base, ?_, aged, spare', holding'⟩
          rw [run, Receiver.apply, called]
          simp
      | tmr =>
          have more : ticks (events ++ [.tmr]) = ticks events ++ [.tmr] := by
            simp [ticks]
          rw [more, List.length_append, List.length_singleton] at inTime
          rw [fragments_append_tmr] at arrivals absent ⊢
          obtain ⟨state, base, run, aged, spare', holding⟩ :=
            ih arrivals absent (show (ticks events).length + (left + 1) = _ by omega)
          obtain ⟨base', called, inv, older⟩ := ipReassTmr_spec narrow spare'.inv
          obtain ⟨state', called', holding'⟩ := holding.tick narrow called
          refine ⟨state', base', ?_, ?_, spare'.aged inv older, holding'⟩
          · rw [run, Receiver.apply, called']
          · rw [more, Receiver.run_append_singleton, aged, Receiver.apply, called]

/-- The datagram is delivered with the packet that was missing last. -/
theorem run_complete (spare : Spare cfg header (sent.length * most) receiver.reass)
    (some_data : 0 < whole.length)
    (arrivals : ∀ entry ∈ fragments events ++ [(packet, clen)],
      entry.1 ∈ sent ∧ entry.2 ≤ most)
    (absent : ∀ entry ∈ fragments events, entry.1 ≠ packet)
    (all : ∀ other ∈ sent, ∃ entry ∈ fragments events ++ [(packet, clen)], entry.1 = other)
    (inTime : (ticks events).length ≤ cfg.maxAge) :
    (receiver.run cfg events).delivered = receiver.delivered ∧
      receiver.run cfg (events ++ [.input packet clen]) =
        ⟨(receiver.run cfg (ticks events)).reass,
          receiver.delivered ++ [⟨header, whole.length + ipHlen, whole⟩]⟩ := by
  obtain ⟨arrivals', own⟩ := List.forall_mem_append.mp arrivals
  obtain ⟨member, small⟩ : packet ∈ sent ∧ clen ≤ most := own _ (List.mem_singleton_self _)
  obtain ⟨state, base, run, aged, spare', holding⟩ :=
    run_incomplete cut narrow spare member arrivals' absent (Nat.add_sub_of_le inTime)
  have roomy := holding.roomy cut spare' arrivals' member absent member small
  obtain ⟨state', out, called, step⟩ :=
    ip4Reass_spec narrow holding.inv (spare'.received cut narrow member small)
  obtain ⟨rfl, rfl⟩ := holding.complete cut
    (fun entry arrival => (arrivals' entry arrival).1) spare'.foreign member roomy step
    some_data absent all
  rw [Receiver.run_append_singleton, run, aged]
  refine ⟨rfl, ?_⟩
  rw [Receiver.apply, called]
  rfl

end Run

/-- A datagram that is too large for the interface is cut into fragments. -/
theorem cutInto_of_ip4Frag {mtu allocs : Nat} (aligned : mtu % 8 = 4) (roomy : 28 ≤ mtu)
    (short : whole.length ≤ 0xffff - ipHlen) (large : mtu < whole.length + ipHlen)
    {chain : List (List UInt8)} (room : ipHlen ≤ (chain.headD []).length)
    (payload : chain.flatten.drop ipHlen = whole)
    (fragmented : ip4Frag mtu header ipHlen 0 false chain allocs = some (sent, .errOk)) :
    CutInto header whole sent := by
  have genuine : Genuine header whole
      ⟨header, ipHlen, whole.length + ipHlen, 0, false, whole⟩ := by
    refine ⟨rfl, rfl, rfl, Nat.two_pow_pos 13, ⟨Nat.zero_le _, ?_, ?_⟩, ?_⟩
    · simp [placement]
    · simp [placement]
    · simp [placement]
  obtain ⟨sent', err, last, fragmented', joined, ended, pieces⟩ :=
    ip4Frag_genuine aligned roomy (short.trans (by decide)) genuine room payload allocs
  rw [fragmented] at fragmented'
  cases fragmented'
  have last : last = whole.length := by simpa [placement] using ended
  subst last
  refine ⟨by simpa [placement] using joined, fun packet member => (pieces packet member).1,
    fun packet member => (pieces packet member).2.1, fun packet member clen small => ?_, short⟩
  obtain ⟨genuine, -, fits⟩ := pieces packet member
  have len := genuine.len_eq
  have hlBytes := genuine.hlBytes_eq
  have inside : packet.offset * 8 + packet.data.length ≤ whole.length := genuine.cut.stop_le
  have stop : placement.stop packet = packet.offset * 8 + packet.data.length := rfl
  refine ⟨?_, genuine.offset_lt, ?_, by omega, small⟩
  · rw [genuine.mf_iff]
    omega
  · rw [ipHlen] at short len
    omega

/-- What `ip4_frag` sends is put together by `ip4_reass`, in whatever order it arrives and
however often each fragment but the last one does, while the timer runs at most
`IP_REASS_MAXAGE` times: nothing is delivered before the fragment that was missing last, the
datagram is delivered with it, and the store is then as the timer alone would have left it. -/
theorem delivered_in_any_order {mtu allocs : Nat} {receiver : Receiver}
    {events : List Event} (most : Nat) (narrow : cfg.maxPbufs ≤ 0xffff)
    (reached : (machine cfg).Reaches Machine.AnyStep .init receiver)
    (foreign : ∀ ipr ∈ receiver.reass.reassdatagrams, ipr.iphdr.key ≠ header.key)
    (aligned : mtu % 8 = 4) (roomy : 28 ≤ mtu) (short : whole.length ≤ 0xffff - ipHlen)
    (large : mtu < whole.length + ipHlen) {chain : List (List UInt8)}
    (first : ipHlen ≤ (chain.headD []).length)
    (payload : chain.flatten.drop ipHlen = whole)
    (fragmented : ip4Frag mtu header ipHlen 0 false chain allocs = some (sent, .errOk))
    (arrivals : ∀ entry ∈ fragments events ++ [(packet, clen)],
      entry.1 ∈ sent ∧ entry.2 ≤ most)
    (all : ∀ other ∈ sent, ∃ entry ∈ fragments events ++ [(packet, clen)], entry.1 = other)
    (absent : ∀ entry ∈ fragments events, entry.1 ≠ packet)
    (inTime : (ticks events).length ≤ cfg.maxAge)
    (free : receiver.reass.reassdatagrams.length < cfg.numReassdata)
    (room : receiver.reass.pbufcount + sent.length * most ≤ cfg.maxPbufs) :
    (receiver.run cfg events).delivered = receiver.delivered ∧
      receiver.run cfg (events ++ [.input packet clen]) =
        ⟨(receiver.run cfg (ticks events)).reass,
          receiver.delivered ++ [⟨header, whole.length + ipHlen, whole⟩]⟩ := by
  have cut := cutInto_of_ip4Frag aligned roomy short large first payload fragmented
  have spare : Spare cfg header (sent.length * most) receiver.reass :=
    ⟨inv_of_reaches narrow reached, foreign, free, room⟩
  rw [ipHlen] at large
  exact run_complete cut narrow spare (by omega) arrivals absent all inTime

/-- Two of the three fragments arrive, five times altogether, and the timer runs as often
as it may. -/
def repeatedFragments : List Event :=
  [.input thirdPiece 1, .tmr, .input firstPiece 1, .input thirdPiece 1, .tmr,
    .input firstPiece 1, .input firstPiece 1, .tmr]

theorem delivered_in_any_order_three :
    (Receiver.init.run portConfig repeatedFragments).delivered = [] ∧
      Receiver.init.run portConfig (repeatedFragments ++ [.input secondPiece 1]) =
        ⟨(Receiver.init.run portConfig (ticks repeatedFragments)).reass,
          [⟨⟨7, 64, 17, 1, 2⟩, twentyBytes.length + ipHlen, twentyBytes⟩]⟩ := by
  have fragmented : ip4Frag 28 ⟨7, 64, 17, 1, 2⟩ ipHlen 0 false
      [List.replicate 20 0, twentyBytes.take 9, twentyBytes.drop 9] 100 =
        some ([firstPiece, secondPiece, thirdPiece], .errOk) := by
    decide
  exact delivered_in_any_order 1 (by decide) .refl (by decide) (by decide) (by decide)
    (by decide) (by decide) (by decide) (by decide) fragmented (by decide) (by decide)
    (by decide) (by decide) (by decide) (by decide)

end EmbeddedRtps.Ip
