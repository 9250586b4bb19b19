import EmbeddedRtps.Ip.Store

/-!
# What is delivered is what was sent

The store of fragments over a whole run.  No assertion of the code fails and the number of
`pbuf`s is always right, whatever fragments arrive.  If the fragments of a datagram are
pieces of it, then nothing but this datagram is delivered for them, with the header of its
first fragment, whatever happens to other datagrams and in whatever order, however often or
seldom the fragments arrive.
-/

namespace EmbeddedRtps.Ip

open Foundation

/-- The store, and the datagrams that have been passed on. -/
structure Receiver where
  reass : State
  delivered : List Datagram
  deriving DecidableEq, Repr

def Receiver.init : Receiver := ⟨⟨[], 0⟩, []⟩

inductive Event where
  /-- `ip4_input` passes a fragment on. -/
  | input (packet : Packet) (clen : Nat)
  | tmr
  deriving DecidableEq, Repr

def Enabled : Event → Prop
  | .input packet clen => Received packet clen
  | .tmr => True

instance (event : Event) : Decidable (Enabled event) :=
  match event with
  | .input packet clen => inferInstanceAs (Decidable (Received packet clen))
  | .tmr => isTrue trivial

def Receiver.apply (cfg : Config) (receiver : Receiver) : Event → Receiver
  | .input packet clen =>
      match ip4Reass cfg receiver.reass packet clen with
      | none => receiver
      | some (reass, out) => ⟨reass, receiver.delivered ++ out.toList⟩
  | .tmr =>
      match ipReassTmr receiver.reass with
      | none => receiver
      | some reass => ⟨reass, receiver.delivered⟩

def machine (cfg : Config) : Machine Receiver Event where
  Enabled _ := Enabled
  apply := Receiver.apply cfg

instance (cfg : Config) (receiver : Receiver) (event : Event) :
    Decidable ((machine cfg).Enabled receiver event) :=
  inferInstanceAs (Decidable (Enabled event))

variable {cfg : Config} {receiver : Receiver} {event : Event}
variable {condition : Receiver → Event → Prop}

/-! ## No assertion fails -/

theorem inv_apply (narrow : cfg.maxPbufs ≤ 0xffff) (inv : Inv cfg receiver.reass)
    (enabled : Enabled event) : Inv cfg (receiver.apply cfg event).reass := by
  cases event with
  | input packet clen =>
      obtain ⟨state, out, called, step⟩ := ip4Reass_spec narrow inv enabled
      rw [Receiver.apply, called]
      exact step.inv
  | tmr =>
      obtain ⟨state, called, inv', -⟩ := ipReassTmr_spec narrow inv
      rw [Receiver.apply, called]
      exact inv'

theorem inv_of_reaches (narrow : cfg.maxPbufs ≤ 0xffff)
    (reached : (machine cfg).Reaches condition .init receiver) : Inv cfg receiver.reass := by
  induction reached with
  | refl => exact ⟨.nil, nofun, nofun, rfl, Nat.zero_le _⟩
  | step _ enabled _ ih => exact inv_apply narrow ih enabled

/-- Whatever arrives, every call returns, the number of `pbuf`s is that of the fragments in
the store and within its limit, and no two entries are for the same datagram. -/
theorem reassembly_sound (narrow : cfg.maxPbufs ≤ 0xffff)
    (reached : (machine cfg).Reaches Machine.AnyStep .init receiver) :
    (∀ packet clen, Received packet clen →
        (ip4Reass cfg receiver.reass packet clen).isSome = true) ∧
      (ipReassTmr receiver.reass).isSome = true ∧
      receiver.reass.pbufcount = pbufs receiver.reass.reassdatagrams ∧
      receiver.reass.pbufcount ≤ cfg.maxPbufs ∧
      (receiver.reass.reassdatagrams.map fun ipr => ipr.iphdr.key).Nodup := by
  have inv := inv_of_reaches narrow reached
  refine ⟨fun packet clen received => ?_, ?_, inv.count, inv.bound, inv.distinct⟩
  · obtain ⟨_, _, called, -⟩ := ip4Reass_spec narrow inv received
    rw [called, Option.isSome_some]
  · obtain ⟨_, called, -⟩ := ipReassTmr_spec narrow inv
    rw [called, Option.isSome_some]

/-- The limits of the port. -/
def portConfig : Config where
  maxPbufs := 4
  numReassdata := 1
  maxAge := 3

/-- A datagram of 20 bytes. -/
def twentyBytes : List UInt8 := (List.range 20).map UInt8.ofNat

/-- Its three fragments for an interface of 28 bytes. -/
def firstPiece : Packet := ⟨⟨7, 64, 17, 1, 2⟩, 20, 28, 0, true, twentyBytes.take 8⟩

@[inherit_doc firstPiece]
def secondPiece : Packet :=
  ⟨⟨7, 64, 17, 1, 2⟩, 20, 28, 1, true, (twentyBytes.drop 8).take 8⟩

@[inherit_doc firstPiece]
def thirdPiece : Packet := ⟨⟨7, 64, 17, 1, 2⟩, 20, 24, 2, false, twentyBytes.drop 16⟩

/-- They arrive in another order, the first one twice and the second one on another way. -/
def threeFragments : List Event :=
  [.input thirdPiece 1, .input firstPiece 1, .input firstPiece 1, .tmr,
    .input { secondPiece with header := ⟨7, 63, 17, 1, 2⟩ } 1]

theorem reassembly_sound_threeFragments :
    ∃ receiver, (machine portConfig).Reaches Machine.AnyStep .init receiver ∧
      receiver.reass.pbufcount = 2 ∧
      receiver.reass.pbufcount = pbufs receiver.reass.reassdatagrams := by
  obtain ⟨receiver, reached, count⟩ :
      ∃ receiver, (machine portConfig).Reaches Machine.AnyStep .init receiver ∧
        receiver.reass.pbufcount = 2 :=
    Machine.exists_reaches_of_exec (threeFragments.take 4) (by decide +kernel)
  exact ⟨receiver, reached, count, (reassembly_sound (by decide) reached).2.2.1⟩

/-! ## Agreement -/

variable {header : Header} {whole : List UInt8}

/-- The packet is a fragment of the datagram.  On the way its header may have changed in
what is not compared, but that of the first fragment is the one of the datagram. -/
structure FragmentOf (header : Header) (whole : List UInt8) (packet : Packet) : Prop where
  genuine : Genuine packet.header whole packet
  first : packet.offset = 0 → packet.header = header

/-- What comes with the addresses and the number of the datagram is a fragment of it. -/
def Honest (header : Header) (whole : List UInt8) : Event → Prop
  | .input packet _ => packet.header.key = header.key → FragmentOf header whole packet
  | .tmr => True

instance (packet : Packet) : Decidable (FragmentOf header whole packet) :=
  decidable_of_iff
    (Genuine packet.header whole packet ∧ (packet.offset = 0 → packet.header = header))
    ⟨fun ⟨genuine, first⟩ => ⟨genuine, first⟩, fun ⟨genuine, first⟩ => ⟨genuine, first⟩⟩

instance (event : Event) : Decidable (Honest header whole event) :=
  match event with
  | .input _ _ => inferInstanceAs (Decidable (_ → _))
  | .tmr => isTrue trivial

/-- What is known of an entry for the datagram. -/
structure Piecewise (header : Header) (whole : List UInt8) (ipr : Reassdata) : Prop where
  pieces : ∀ helper ∈ ipr.p, queued.CutFrom whole helper
  last : ipr.lastFrag = true → ipr.datagramLen = whole.length ∧
    whole.length ≤ 0xffff - ipHlen ∧ ∃ helper ∈ ipr.p, helper.stop = whole.length
  iphdr_eq : ipr.iphdrOffset = 0 → ipr.iphdr = header
  offset_eq : ∀ helper ∈ ipr.p, helper.start = 0 → ipr.iphdrOffset = 0

theorem Piecewise.copyHeader {ipr : Reassdata} {packet : Packet}
    (piecewise : Piecewise header whole ipr) (fragmentOf : FragmentOf header whole packet) :
    Piecewise header whole (ipr.copyHeader packet) := by
  rw [Reassdata.copyHeader]
  split
  next copied =>
    exact ⟨piecewise.pieces, piecewise.last, fragmentOf.first, fun _ _ _ => copied.1⟩
  next => exact piecewise

section Focus

variable {packet : Packet} {clen : Nat} {middle : State} {before after : List Reassdata}
variable {ipr : Reassdata} {front next queue : List Helper}

theorem Focus.piecewise (focus : Focus cfg packet middle.reassdatagrams before ipr after)
    (entries : ∀ ipr ∈ middle.reassdatagrams, ipr.iphdr.key = header.key →
      Piecewise header whole ipr)
    (same : packet.header.key = header.key) (fragmentOf : FragmentOf header whole packet) :
    Piecewise header whole ipr ∧ (packet.offset = 0 → ipr.iphdrOffset = 0) := by
  cases focus with
  | @old _ ipr _ split key =>
      have member : ipr ∈ middle.reassdatagrams := by simp [split]
      refine ⟨(entries ipr member (key.trans same)).copyHeader fragmentOf, fun first => ?_⟩
      rw [Reassdata.copyHeader]
      split
      next => exact first
      next other => exact not_not.mp fun offset => other ⟨first, offset⟩
  | new _ =>
      exact ⟨⟨List.forall_mem_nil _, fun last => absurd last Bool.false_ne_true,
        fragmentOf.first, List.forall_mem_nil _⟩, id⟩

theorem Inserted.mem_iff {iprh helper : Helper} {old : List Helper}
    (inserted : Inserted iprh old front next queue) :
    helper ∈ queue ↔ helper = iprh ∨ helper ∈ old := by
  rw [inserted.queue_eq, inserted.old_eq]
  simp only [List.mem_append, List.mem_cons]
  exact or_left_comm

/-- An entry with a fragment more. -/
theorem Piecewise.update (piecewise : Piecewise header whole ipr)
    (fragmentOf : FragmentOf header whole packet) (valid : ¬ Invalid packet)
    (first : packet.offset = 0 → ipr.iphdrOffset = 0)
    (inserted : Inserted (packet.helper clen) ipr.p front next queue) :
    Piecewise header whole (ipr.update packet queue) := by
  have cut : queued.CutFrom whole (packet.helper clen) :=
    ⟨fragmentOf.genuine.cut.start_le, fragmentOf.genuine.cut.stop_le,
      fragmentOf.genuine.cut.items_eq⟩
  refine ⟨fun helper member => ?_, fun last => ?_, piecewise.iphdr_eq,
    fun helper member start => ?_⟩
  · rcases inserted.mem_iff.mp member with rfl | member
    · exact cut
    · exact piecewise.pieces helper member
  · cases more : packet.mf with
    | true =>
        have known : ipr.lastFrag = true := by
          simpa [Reassdata.update, Reassdata.enqueue, more] using last
        obtain ⟨len, short, helper, member, stop⟩ := piecewise.last known
        refine ⟨?_, short, helper, inserted.mem_iff.mpr (.inr member), stop⟩
        simpa [Reassdata.update, Reassdata.enqueue, more] using len
    | false =>
        have stop : packet.offset * 8 + packet.data.length = whole.length := by
          have reaches := mt fragmentOf.genuine.mf_iff.mpr (by rw [more]; exact nofun)
          exact le_antisymm fragmentOf.genuine.cut.stop_le (Nat.not_lt.mp reaches)
        refine ⟨?_, ?_, packet.helper clen, inserted.mem_iff.mpr (.inl rfl), stop⟩
        · simpa [Reassdata.update, Reassdata.enqueue, more] using stop
        · have notLong := fun long => valid (.inr (.inr (.inr ⟨more, long⟩)))
          rw [← stop]
          exact Nat.not_lt.mp notLong
  · rcases inserted.mem_iff.mp member with rfl | member
    · have start : packet.offset * 8 = 0 := start
      exact first (by omega)
    · exact piecewise.offset_eq helper member start

/-- A complete entry is the datagram. -/
theorem Piecewise.complete (piecewise : Piecewise header whole (ipr.update packet queue))
    (complete : Complete ipr packet queue) (nonempty : queue ≠ []) :
    (⟨ipr.iphdr, ((ipr.update packet queue).datagramLen + ipHlen) % 2 ^ 16,
      queue.flatMap Helper.data⟩ : Datagram) = ⟨header, whole.length + ipHlen, whole⟩ := by
  obtain ⟨known, last, joined⟩ := complete
  have known : (ipr.update packet queue).lastFrag = true := by
    rcases known with final | known
    · simp [Reassdata.update, Reassdata.enqueue, final]
    · simp [Reassdata.update, Reassdata.enqueue, known]
  obtain ⟨len, short, helper, member, stop⟩ := piecewise.last known
  have reaches : whole.length ≤ last :=
    stop ▸ joined.stop_le (fun helper member => (piecewise.pieces helper member).start_le) member
  obtain ⟨-, items⟩ := joined.flatMap_items piecewise.pieces
  have data : queue.flatMap Helper.data = whole := by
    rw [List.drop_zero, Nat.sub_zero, List.take_of_length_le reaches] at items
    exact items
  have iphdr : ipr.iphdr = header := by
    obtain ⟨first, rest, rfl⟩ := List.exists_cons_of_ne_nil nonempty
    exact piecewise.iphdr_eq (piecewise.offset_eq first List.mem_cons_self joined.1)
  rw [data, iphdr, len, Nat.mod_eq_of_lt (by rw [ipHlen] at short ⊢; omega)]

end Focus

/-- The entries for the datagram are made of its fragments. -/
def Pieces (header : Header) (whole : List UInt8) (datagrams : List Reassdata) : Prop :=
  ∀ ipr ∈ datagrams, ipr.iphdr.key = header.key → Piecewise header whole ipr

theorem Pieces.middle {before after : List Reassdata} {ipr : Reassdata}
    (rest : Pieces header whole (before ++ after))
    (here : ipr.iphdr.key = header.key → Piecewise header whole ipr) :
    Pieces header whole (before ++ ipr :: after) := by
  intro old member
  rcases List.mem_cons.mp (List.perm_middle.subset member) with rfl | member
  · exact here
  · exact rest old member

theorem Focus.rest_subset {packet : Packet} {datagrams before after : List Reassdata}
    {ipr : Reassdata} (focus : Focus cfg packet datagrams before ipr after) :
    before ++ after ⊆ datagrams := by
  cases focus with
  | old split _ =>
      rw [split]
      exact ((List.sublist_cons_self _ _).append_left _).subset
  | new _ => exact List.Subset.refl _

/-- One call: other datagrams do not matter, and a fragment of this one keeps the entries
as they should be. -/
theorem Reassembled.pieces {packet : Packet} {clen : Nat} {state state' : State}
    {out : Option Datagram} (step : Reassembled cfg packet clen state state' out)
    (entries : Pieces header whole state.reassdatagrams)
    (honest : Honest header whole (.input packet clen)) :
    Pieces header whole state'.reassdatagrams ∧
      ∀ datagram ∈ out, datagram.header.key = header.key →
        datagram = ⟨header, whole.length + ipHlen, whole⟩ := by
  cases step with
  | ignored madeRoom _ =>
      exact ⟨fun ipr member => entries ipr (madeRoom.thinned.sublist.subset member), nofun⟩
  | @refused middle before after ipr madeRoom split same _ =>
      have entries' : Pieces header whole middle.reassdatagrams :=
        fun ipr member => entries ipr (madeRoom.thinned.sublist.subset member)
      have focus : Focus cfg packet middle.reassdatagrams before _ after := .old split same
      refine ⟨Pieces.middle (fun ipr member => entries' ipr (focus.rest_subset member)) ?_,
        nofun⟩
      intro key
      have own := (Reassdata.key_copyHeader same).symm.trans key
      exact (focus.piecewise entries' own (honest own)).1
  | @queued middle before after ipr front next queue madeRoom _ valid focus inserted _ =>
      have entries' : Pieces header whole middle.reassdatagrams :=
        fun ipr member => entries ipr (madeRoom.thinned.sublist.subset member)
      refine ⟨Pieces.middle (fun ipr member => entries' ipr (focus.rest_subset member)) ?_,
        nofun⟩
      intro key
      have own : packet.header.key = header.key :=
        (focus.rest madeRoom.inv).2.2.symm.trans key
      obtain ⟨piecewise, first⟩ := focus.piecewise entries' own (honest own)
      exact piecewise.update (honest own) valid first inserted
  | @finished middle before after ipr front next queue madeRoom _ valid focus inserted
      complete =>
      have entries' : Pieces header whole middle.reassdatagrams :=
        fun ipr member => entries ipr (madeRoom.thinned.sublist.subset member)
      refine ⟨fun ipr member => entries' ipr (focus.rest_subset member), ?_⟩
      rintro datagram ⟨⟩ key
      have own : packet.header.key = header.key :=
        (focus.rest madeRoom.inv).2.2.symm.trans key
      obtain ⟨piecewise, first⟩ := focus.piecewise entries' own (honest own)
      exact (piecewise.update (honest own) valid first inserted).complete complete
        inserted.ne_nil

theorem Aged.pieces {state state' : State} (aged : Aged state state')
    (entries : Pieces header whole state.reassdatagrams) :
    Pieces header whole state'.reassdatagrams := by
  intro ipr member
  obtain ⟨old, member, same⟩ := aged.entries ipr member
  rw [same]
  intro key
  obtain ⟨pieces, last, iphdr, offset⟩ := entries old member key
  exact ⟨pieces, last, iphdr, offset⟩

/-- If all fragments that arrive for a datagram are pieces of it, then whatever is delivered
for it is the datagram itself. -/
theorem delivered_eq_sent (narrow : cfg.maxPbufs ≤ 0xffff)
    (reached : (machine cfg).Reaches (fun _ event => Honest header whole event) .init
      receiver) :
    ∀ datagram ∈ receiver.delivered, datagram.header.key = header.key →
      datagram = ⟨header, whole.length + ipHlen, whole⟩ := by
  suffices agrees : Pieces header whole receiver.reass.reassdatagrams ∧
      ∀ datagram ∈ receiver.delivered, datagram.header.key = header.key →
        datagram = ⟨header, whole.length + ipHlen, whole⟩ from agrees.2
  induction reached with
  | refl => exact ⟨nofun, nofun⟩
  | @step receiver event before enabled honest ih =>
      obtain ⟨entries, delivered⟩ := ih
      have inv := inv_of_reaches narrow before
      cases event with
      | input packet clen =>
          obtain ⟨state, out, called, step⟩ := ip4Reass_spec narrow inv enabled
          obtain ⟨entries', agrees⟩ := step.pieces entries honest
          have applied : (machine cfg).apply receiver (.input packet clen) =
              ⟨state, receiver.delivered ++ out.toList⟩ := by
            simp only [machine, Receiver.apply, called]
          rw [applied]
          refine ⟨entries', List.forall_mem_append.mpr ⟨delivered, fun datagram member => ?_⟩⟩
          exact agrees datagram (Option.mem_toList.mp member)
      | tmr =>
          obtain ⟨state, called, -, aged⟩ := ipReassTmr_spec narrow inv
          have applied : (machine cfg).apply receiver .tmr = ⟨state, receiver.delivered⟩ := by
            simp only [machine, Receiver.apply, called]
          rw [applied]
          exact ⟨aged.pieces entries, delivered⟩

theorem delivered_eq_sent_threeFragments :
    ∃ receiver, (machine portConfig).Reaches
        (fun _ event => Honest ⟨7, 64, 17, 1, 2⟩ twentyBytes event) .init receiver ∧
      receiver.delivered.length = 1 ∧
      ∀ datagram ∈ receiver.delivered, datagram.header.key = (1, 2, 7) →
        datagram = ⟨⟨7, 64, 17, 1, 2⟩, 40, twentyBytes⟩ := by
  obtain ⟨receiver, reached, once⟩ :
      ∃ receiver, (machine portConfig).Reaches
          (fun _ event => Honest ⟨7, 64, 17, 1, 2⟩ twentyBytes event) .init receiver ∧
        receiver.delivered.length = 1 :=
    Machine.exists_reaches_of_exec threeFragments (by decide +kernel)
  exact ⟨receiver, reached, once, delivered_eq_sent (by decide) reached⟩

end EmbeddedRtps.Ip
