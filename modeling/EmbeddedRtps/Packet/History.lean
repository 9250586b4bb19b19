import EmbeddedRtps.Packet.Completion
import EmbeddedRtps.Packet.LittleEndian

/-!
# Reactions and earlier messages

The callbacks decode the whole of `m_buffer`, not only the bytes of the message that
was copied into it.  What a message leaves out is completed from earlier messages,
since any bytes can be brought into the buffer by a message of its full size.

A reaction therefore depends on the message alone in three cases: the message does
not fit into the buffer, it announces a text that would not, or it holds every byte
that the reaction depends on.
-/

namespace EmbeddedRtps.Packet

open Foundation Multicast

/-! ## Two runs -/

/-- Both reject, or both accept with outputs that are the same as far as `same`
tells.  An undefined reaction agrees with none. -/
def Reaction.Agrees {Output : Type} (same : Output → Output → Prop) :
    Reaction Output → Reaction Output → Prop
  | .rejected, .rejected => True
  | .accepted first, .accepted second => same first second
  | _, _ => False

instance {Output : Type} (same : Output → Output → Prop) [DecidableRel same]
    (first second : Reaction Output) : Decidable (first.Agrees same second) :=
  match first, second with
  | .rejected, .rejected => isTrue trivial
  | .accepted first, .accepted second => inferInstanceAs (Decidable (same first second))
  | .rejected, .undefined | .rejected, .accepted _ | .undefined, .rejected
  | .undefined, .undefined | .undefined, .accepted _ | .accepted _, .rejected
  | .accepted _, .undefined => isFalse id

/-- A change is reacted to in the same way after any two sequences of earlier
calls. -/
def HistoryFree {Locals Output : Type} {size : Nat} (same : Output → Output → Prop)
    (callback : FixedBytes size → Locals → List UInt8 →
      FixedBytes size × Reaction Output)
    (change : List UInt8) : Prop :=
  ∀ (locals : Locals) (first second : List (Locals × List UInt8)),
    (callback (serve callback (.fill size 0) first) locals change).2.Agrees same
      (callback (serve callback (.fill size 0) second) locals change).2

/-- The fields a response is compared by. -/
def Response.Same (first second : Response) : Prop :=
  first.packet.pType = second.packet.pType ∧
    cString first.packet.pTextmessage.bytes = cString second.packet.pTextmessage.bytes ∧
    first.packet.id = second.packet.id ∧
    first.packet.timestamp = second.packet.timestamp

instance : DecidableRel Response.Same :=
  fun _ _ => inferInstanceAs (Decidable (_ ∧ _))

/-- The fields `MulticastSender::responderCallback` looks at. -/
def MeasurementPacket.SameFields (first second : MeasurementPacket) : Prop :=
  first.pType = second.pType ∧ first.id = second.id

/-- The same branch is taken for both. -/
def MeasurementPacket.SameBranch (multicast : Bool) (currentId : UInt32)
    (first second : MeasurementPacket) : Prop :=
  first.branch multicast currentId = second.branch multicast currentId

section Buffers

variable {Locals Output : Type} {size : Nat} {same : Output → Output → Prop}
variable {callback : FixedBytes size → Locals → List UInt8 →
  FixedBytes size × Reaction Output}
variable {change : List UInt8}

/-- Two histories that refute it. -/
theorem not_historyFree (locals : Locals) (first second : List (Locals × List UInt8))
    (differ : ¬ (callback (serve callback (.fill size 0) first) locals change).2.Agrees
      same (callback (serve callback (.fill size 0) second) locals change).2) :
    ¬ HistoryFree same callback change :=
  fun free => differ (free locals first second)

/-- A callback that copies what fits can meet any buffer. -/
theorem historyFree_iff_buffers
    (copies : ∀ buffer locals (content : FixedBytes size),
      (callback buffer locals content.bytes).1 = content) :
    HistoryFree same callback change ↔
      ∀ locals (first second : FixedBytes size),
        (callback first locals change).2.Agrees same
          (callback second locals change).2 := by
  have reached : ∀ locals (content : FixedBytes size),
      serve callback (.fill size 0) [(locals, content.bytes)] = content :=
    fun locals content => copies _ locals content
  constructor
  · intro free locals first second
    have agrees := free locals [(locals, first.bytes)] [(locals, second.bytes)]
    rwa [reached, reached] at agrees
  · intro free locals first second
    exact free locals _ _

/-- The three cases of a reaction that depends on the message alone, for a callback
that rejects in the first two. -/
theorem historyFree_iff {oversized holds : Prop}
    (copies : ∀ buffer locals (content : FixedBytes size),
      (callback buffer locals content.bytes).1 = content)
    (long : size < change.length → ∀ buffer locals,
      (callback buffer locals change).2 = .rejected)
    (rejects : change.length ≤ size → oversized → ∀ buffer locals,
      (callback buffer locals change).2 = .rejected)
    (agrees : change.length ≤ size → ¬ oversized → holds → ∀ locals first second,
      (callback first locals change).2.Agrees same (callback second locals change).2)
    (needs : change.length ≤ size → ¬ oversized →
      (∀ locals first second, (callback first locals change).2.Agrees same
        (callback second locals change).2) → holds) :
    HistoryFree same callback change ↔ size < change.length ∨ oversized ∨ holds := by
  rw [historyFree_iff_buffers copies]
  by_cases fits : size < change.length
  · refine iff_of_true ?_ (.inl fits)
    intro locals first second
    rw [long fits, long fits]
    trivial
  · have short := Nat.not_lt.mp fits
    by_cases large : oversized
    · refine iff_of_true ?_ (.inr (.inl large))
      intro locals first second
      rw [rejects short large, rejects short large]
      trivial
    · constructor
      · intro free
        exact .inr (.inr (needs short large free))
      · rintro (excluded | excluded | held)
        · exact absurd excluded fits
        · exact absurd excluded large
        · exact agrees short large held

end Buffers

theorem callback_copies {platform : Platform} (lawful : platform.Lawful)
    {Topic Output : Type} {size : Nat}
    {deserializeTopic : UcdrBuffer → Topic → Bool × Topic}
    {respond : Topic → Reaction Output} (buffer : FixedBytes size) (topic : Topic)
    (content : FixedBytes size) :
    (callback platform deserializeTopic respond buffer topic content.bytes).1 =
      content := by
  rw [callback_of_le lawful (Nat.le_of_eq content.length_eq)]
  exact FixedBytes.write_self content

/-! ## The multicast receiver -/

/-- The message holds a complete packet with a terminated text. -/
def HoldsPacket (platform : Platform) (change : List UInt8) : Prop :=
  idPosition (platform.lengthAt change 8) + 8 ≤ change.length ∧
    (0 : UInt8) ∈ window change 12 (platform.lengthAt change 8)

/-- However its length bytes are completed, the message announces a text for which
the buffer has no room. -/
def OversizedPacket (platform : Platform) (change : List UInt8) : Prop :=
  ∀ completion : Completion change sizeSamples, 236 < completion.length platform

section MulticastReceiver

variable {platform : Platform} {multicast : Bool} {change : List UInt8}

/-- A packet that lies in the message is decoded from the message. -/
theorem packetAt_write (buffer : FixedBytes sizeSamples) (topic : MeasurementPacket)
    (short : change.length ≤ sizeSamples)
    (whole : idPosition (platform.lengthAt change 8) + 8 ≤ change.length) :
    packetAt platform (buffer.write change).bytes topic =
      packetAt platform change topic := by
  have position := idPosition_le (platform.lengthAt change 8)
  simp only [packetAt]
  rw [lengthAt_write platform buffer short (by omega),
    window_write buffer short (by omega), window_write buffer short (by omega),
    window_write buffer short (by omega), window_write buffer short (by omega)]

theorem packetFits_write (buffer : FixedBytes sizeSamples)
    (short : change.length ≤ sizeSamples)
    (whole : idPosition (platform.lengthAt change 8) + 8 ≤ change.length) :
    PacketFits platform (buffer.write change).bytes := by
  have position := idPosition_le (platform.lengthAt change 8)
  have small := (idPosition_add_le _).mp (Nat.le_trans whole short)
  rw [PacketFits, lengthAt_write platform buffer short (by omega),
    (buffer.write change).length_eq]
  exact ⟨by omega, Nat.le_trans whole short⟩

theorem OversizedPacket.not_fits (oversized : OversizedPacket platform change)
    (short : change.length ≤ sizeSamples) (buffer : FixedBytes sizeSamples) :
    ¬ PacketFits platform (buffer.write change).bytes := by
  intro fits
  have announced : 236 < platform.lengthAt (buffer.write change).bytes 8 :=
    oversized (.ofBuffer buffer short (by decide))
  have inside := fits.2
  rw [(buffer.write change).length_eq, idPosition_add_le] at inside
  omega

/-- A completion that announces a text for which there is room is decoded. -/
theorem packetFits_memory (completion : Completion change sizeSamples)
    (room : completion.length platform ≤ 236) (fill : UInt8) :
    PacketFits platform (completion.memory fill) := by
  rw [PacketFits, completion.lengthAt_memory, completion.length_memory]
  exact ⟨by omega, (idPosition_add_le _).mpr room⟩

/-- A text that is terminated within its announced length does not run on into the
uninitialised rest of the array. -/
theorem cString_packetAt {memory : List UInt8} (topic : MeasurementPacket)
    (short : platform.lengthAt memory 8 ≤ 255)
    (terminated : (0 : UInt8) ∈ window memory 12 (platform.lengthAt memory 8)) :
    cString (packetAt platform memory topic).pTextmessage.bytes =
      cString (window memory 12 (platform.lengthAt memory 8)) := by
  have fits : (window memory 12 (platform.lengthAt memory 8)).length ≤ 255 :=
    Nat.le_trans (List.length_take_le _ _) short
  rw [packetAt, FixedBytes.bytes_write fits]
  exact cString_append terminated _

/-- A packet with a terminated text is answered with its own fields. -/
theorem multicastReceiver_accepts (lawful : platform.Lawful)
    (short : change.length ≤ sizeSamples) (buffer : FixedBytes sizeSamples)
    (locals : Locals) (fits : PacketFits platform (buffer.write change).bytes)
    (terminated : (0 : UInt8) ∈ window (buffer.write change).bytes 12
      (platform.lengthAt (buffer.write change).bytes 8)) :
    ∃ payload,
      (MulticastReceiver.responderCallback platform multicast buffer locals change).2 =
        .accepted ⟨{ packetAt platform (buffer.write change).bytes locals.mp with
          pType := responseType multicast
            (packetAt platform (buffer.write change).bytes locals.mp).pType },
          payload⟩ := by
  have text := cString_packetAt locals.mp fits.1 terminated
  obtain ⟨string, found⟩ : ∃ string, cString (window (buffer.write change).bytes 12
      (platform.lengthAt (buffer.write change).bytes 8)) = some string := by
    apply Option.ne_none_iff_exists'.mp
    intro unterminated
    exact cString_eq_none.mp unterminated terminated
  obtain ⟨payload, sent⟩ := sendResponse_eq_some platform multicast locals.buffer
    (text.trans found)
  rw [multicastReceiver_reaction lawful short, if_pos fits, sent]
  exact ⟨payload, rfl⟩

/-- A complete packet is answered with its own fields, whatever the buffer and the
locals held. -/
theorem HoldsPacket.agrees (lawful : platform.Lawful)
    (holds : HoldsPacket platform change) (short : change.length ≤ sizeSamples)
    (first second : FixedBytes sizeSamples) (locals locals' : Locals) :
    (MulticastReceiver.responderCallback platform multicast first locals
        change).2.Agrees Response.Same
      (MulticastReceiver.responderCallback platform multicast second locals'
        change).2 := by
  obtain ⟨whole, terminated⟩ := holds
  have position := idPosition_le (platform.lengthAt change 8)
  have small := (idPosition_add_le _).mp (Nat.le_trans whole short)
  have text := fun topic =>
    cString_packetAt topic (Nat.le_trans small (by decide)) terminated
  have answer : ∀ (buffer : FixedBytes sizeSamples) (locals : Locals), ∃ payload,
      (MulticastReceiver.responderCallback platform multicast buffer locals change).2 =
        .accepted ⟨{ packetAt platform change locals.mp with
          pType := responseType multicast
            (packetAt platform change locals.mp).pType }, payload⟩ := by
    intro buffer locals
    rw [← packetAt_write buffer locals.mp short whole]
    apply multicastReceiver_accepts lawful short buffer locals
      (packetFits_write buffer short whole)
    rwa [lengthAt_write platform buffer short (by omega),
      window_write buffer short (by omega)]
  obtain ⟨payload, accepted⟩ := answer first locals
  obtain ⟨payload', accepted'⟩ := answer second locals'
  rw [accepted, accepted']
  exact ⟨rfl, (text locals.mp).trans (text locals'.mp).symm, rfl, rfl⟩

/-- If the message's own text bytes have no terminator, some completion and some
uninitialised text array leave the scan for one undefined. -/
theorem exists_undefined (multicast : Bool) (lawful : platform.Lawful)
    (completion : Completion change sizeSamples)
    (room : completion.length platform ≤ 236)
    (unterminated : (0 : UInt8) ∉ window change 12 (completion.length platform)) :
    ∃ locals, (MulticastReceiver.responderCallback platform multicast
      (completion.buffer 1) locals change).2 = .undefined := by
  let locals : Locals := ⟨⟨0, .fill 255 1, 0, 0⟩, fun _ => 0⟩
  refine ⟨locals, ?_⟩
  have fits := packetFits_memory completion room 1
  have text : cString (packetAt platform (completion.memory 1)
      locals.mp).pTextmessage.bytes = none := by
    have enough : 12 + 236 ≤ sizeSamples := by decide
    rw [packetAt, completion.lengthAt_memory]
    exact completion.cString_write_fill (by omega) (by omega) unterminated
  rw [multicastReceiver_reaction lawful completion.short, ← Completion.memory,
    if_pos fits, sendResponse_eq_none platform multicast locals.buffer text]
  rfl

/-- If the message lacks the last byte of the timestamp, the response depends on what
stood there. -/
theorem not_agrees_of_lacks (lawful : platform.Lawful)
    (completion : Completion change sizeSamples)
    (room : completion.length platform ≤ 236)
    (terminated : (0 : UInt8) ∈ window change 12 (completion.length platform))
    (lacks : change.length < idPosition (completion.length platform) + 8)
    (locals : Locals) :
    ¬ (MulticastReceiver.responderCallback platform multicast (completion.buffer 0)
        locals change).2.Agrees Response.Same
      (MulticastReceiver.responderCallback platform multicast (completion.buffer 1)
        locals change).2 := by
  have position := idPosition_le (completion.length platform)
  have answer : ∀ fill, ∃ payload,
      (MulticastReceiver.responderCallback platform multicast (completion.buffer fill)
        locals change).2 =
        .accepted ⟨{ packetAt platform (completion.memory fill) locals.mp with
          pType := responseType multicast
            (packetAt platform (completion.memory fill) locals.mp).pType },
          payload⟩ := by
    intro fill
    apply multicastReceiver_accepts lawful completion.short _ locals
      (packetFits_memory completion room fill)
    rw [← Completion.memory, completion.lengthAt_memory]
    exact (window_prefix_write _ _ _ completion.short).subset terminated
  obtain ⟨payload, accepted⟩ := answer 0
  obtain ⟨payload', accepted'⟩ := answer 1
  rw [accepted, accepted']
  rintro ⟨_, _, _, same⟩
  simp only [packetAt, completion.lengthAt_memory] at same
  have within := (idPosition_add_le _).mpr room
  exact completion.value32_ne lawful (by omega) (by omega) (by omega) same

/-- What a message must hold, if what stood in the buffer is not to matter. -/
theorem holdsPacket_of_agrees (lawful : platform.Lawful)
    (sized : ¬ OversizedPacket platform change)
    (agrees : ∀ locals (first second : FixedBytes sizeSamples),
      (MulticastReceiver.responderCallback platform multicast first locals
          change).2.Agrees Response.Same
        (MulticastReceiver.responderCallback platform multicast second locals
          change).2) : HoldsPacket platform change := by
  simp only [OversizedPacket, not_forall, Nat.not_lt] at sized
  obtain ⟨completion, room⟩ := sized
  have terminated : (0 : UInt8) ∈ window change 12 (completion.length platform) := by
    by_contra unterminated
    obtain ⟨locals, undefined⟩ := exists_undefined multicast lawful completion room
      unterminated
    have itself := agrees locals (completion.buffer 1) (completion.buffer 1)
    rw [undefined] at itself
    exact itself
  have length : completion.length platform = platform.lengthAt change 8 :=
    completion.length_eq_lengthAt (long_of_mem_window terminated)
  refine ⟨?_, length ▸ terminated⟩
  by_contra lacks
  rw [← length] at lacks
  let locals : Locals := ⟨⟨0, .fill 255 0, 0, 0⟩, fun _ => 0⟩
  exact not_agrees_of_lacks lawful completion room terminated (by omega) locals
    (agrees locals _ _)

/-- When the multicast receiver's reaction depends on the message alone. -/
theorem multicastReceiver_historyFree_iff (lawful : platform.Lawful) :
    HistoryFree Response.Same (MulticastReceiver.responderCallback platform multicast)
        change ↔
      sizeSamples < change.length ∨ OversizedPacket platform change ∨
        HoldsPacket platform change := by
  apply historyFree_iff
  case copies =>
    exact fun buffer locals content => callback_copies lawful buffer locals.mp content
  case long =>
    intro long buffer locals
    rw [MulticastReceiver.responderCallback, callback_of_lt lawful long]
  case rejects =>
    intro short oversized buffer locals
    rw [multicastReceiver_reaction lawful short,
      if_neg (oversized.not_fits short buffer)]
  case agrees =>
    intro short _ holds locals first second
    exact holds.agrees lawful short first second locals locals
  case needs =>
    intro _ sized agrees
    exact holdsPacket_of_agrees lawful sized agrees

end MulticastReceiver

/-! ## The multicast sender -/

/-- The message holds a packet up to its id. -/
def HoldsId (platform : Platform) (change : List UInt8) : Prop :=
  idPosition (platform.lengthAt change 8) + 4 ≤ change.length

section MulticastSender

variable {platform : Platform} {change : List UInt8}

/-- The three cases for the multicast sender. -/
theorem multicastSender_historyFree_iff_of (lawful : platform.Lawful)
    {same : MeasurementPacket → MeasurementPacket → Prop} {holds : Prop}
    (agrees : change.length ≤ sizeSamples → ¬ OversizedPacket platform change → holds →
      ∀ mp (first second : FixedBytes sizeSamples),
        (MulticastSender.responderCallback platform first mp change).2.Agrees same
          (MulticastSender.responderCallback platform second mp change).2)
    (needs : ¬ OversizedPacket platform change →
      (∀ mp (first second : FixedBytes sizeSamples),
        (MulticastSender.responderCallback platform first mp change).2.Agrees same
          (MulticastSender.responderCallback platform second mp change).2) → holds) :
    HistoryFree same (MulticastSender.responderCallback platform) change ↔
      sizeSamples < change.length ∨ OversizedPacket platform change ∨ holds := by
  apply historyFree_iff
  case copies =>
    exact fun buffer mp content => callback_copies lawful buffer mp content
  case long =>
    intro long buffer mp
    rw [MulticastSender.responderCallback, callback_of_lt lawful long]
  case rejects =>
    intro short oversized buffer mp
    rw [multicastSender_reaction lawful short,
      if_neg (oversized.not_fits short buffer)]
  case agrees => exact agrees
  case needs => exact fun _ => needs

/-- A message that announces a text for which there is room is decoded from any buffer. -/
theorem packetFits_write_of_sized (sized : ¬ OversizedPacket platform change)
    (short : change.length ≤ sizeSamples) (long : 12 ≤ change.length)
    (buffer : FixedBytes sizeSamples) : PacketFits platform (buffer.write change).bytes := by
  simp only [OversizedPacket, not_forall, Nat.not_lt] at sized
  obtain ⟨completion, room⟩ := sized
  rw [completion.length_eq_lengthAt long] at room
  rw [PacketFits, lengthAt_write platform buffer short long,
    (buffer.write change).length_eq]
  exact ⟨by omega, (idPosition_add_le _).mpr room⟩

theorem HoldsId.agrees (lawful : platform.Lawful) (holds : HoldsId platform change)
    (sized : ¬ OversizedPacket platform change) (short : change.length ≤ sizeSamples)
    (first second : FixedBytes sizeSamples) (mp : MeasurementPacket) :
    (MulticastSender.responderCallback platform first mp change).2.Agrees
      MeasurementPacket.SameFields
        (MulticastSender.responderCallback platform second mp change).2 := by
  have position := idPosition_le (platform.lengthAt change 8)
  have inside : idPosition (platform.lengthAt change 8) + 4 ≤ change.length := holds
  have length := fun buffer : FixedBytes sizeSamples =>
    lengthAt_write platform buffer short (by omega)
  have fits := packetFits_write_of_sized sized short (by omega)
  rw [multicastSender_reaction lawful short, multicastSender_reaction lawful short,
    if_pos (fits first), if_pos (fits second)]
  constructor
  · simp only [packetAt]
    rw [window_write first short (by omega), window_write second short (by omega)]
  · simp only [packetAt, length]
    rw [window_write first short inside, window_write second short inside]

theorem holdsId_of_agrees (lawful : platform.Lawful)
    (sized : ¬ OversizedPacket platform change)
    (agrees : ∀ mp (first second : FixedBytes sizeSamples),
      (MulticastSender.responderCallback platform first mp change).2.Agrees
        MeasurementPacket.SameFields
          (MulticastSender.responderCallback platform second mp change).2) :
    HoldsId platform change := by
  simp only [OversizedPacket, not_forall, Nat.not_lt] at sized
  obtain ⟨completion, room⟩ := sized
  have position := idPosition_le (completion.length platform)
  have within := (idPosition_add_le _).mpr room
  by_cases lacks : change.length < idPosition (completion.length platform) + 4
  · have same := agrees ⟨0, .fill 255 0, 0, 0⟩ (completion.buffer 0) (completion.buffer 1)
    rw [multicastSender_reaction lawful completion.short,
      multicastSender_reaction lawful completion.short, ← Completion.memory,
      ← Completion.memory, if_pos (packetFits_memory completion room 0),
      if_pos (packetFits_memory completion room 1)] at same
    have ids := same.2
    simp only [packetAt, completion.lengthAt_memory] at ids
    exact absurd ids (completion.value32_ne lawful lacks (by omega) (by omega))
  · rw [HoldsId, ← completion.length_eq_lengthAt (by omega)]
    exact Nat.not_lt.mp lacks

/-- When what the multicast sender looks at depends on the message alone. -/
theorem multicastSender_historyFree_iff (lawful : platform.Lawful) :
    HistoryFree MeasurementPacket.SameFields
        (MulticastSender.responderCallback platform) change ↔
      sizeSamples < change.length ∨ OversizedPacket platform change ∨
        HoldsId platform change :=
  multicastSender_historyFree_iff_of lawful
    (fun short sized holds mp first second =>
      HoldsId.agrees lawful holds sized short first second mp)
    fun sized agrees => holdsId_of_agrees lawful sized agrees

/-! ### Its branches -/

variable {multicast : Bool} {currentId : UInt32}

/-- The id that a packet of the given type is compared with. -/
def comparedId (multicast : Bool) (currentId : UInt32) (pType : UInt16) : Option UInt32 :=
  if pType = MeasurementPacketType.init.code then some 0
  else if isResponse multicast pType then some currentId
  else none

/-- The message holds its type and the length of its text, and enough of the id for the
comparison: all of it, or something that the other id does not have. -/
def HoldsBranch (platform : Platform) (multicast : Bool) (currentId : UInt32)
    (change : List UInt8) : Prop :=
  12 ≤ change.length ∧
    ∀ id ∈ comparedId multicast currentId (platform.value16 (window change 4 2)),
      HoldsId platform change ∨
        ¬ window change (idPosition (platform.lengthAt change 8)) 4 <+: platform.image32 id

/-- Packets of one type differ in their branch by the comparison of the id only. -/
theorem sameBranch_iff {first second : MeasurementPacket}
    (type : first.pType = second.pType) :
    MeasurementPacket.SameBranch multicast currentId first second ↔
      ∀ id ∈ comparedId multicast currentId first.pType, (first.id = id ↔ second.id = id) := by
  have zero : ∀ id : UInt32, id.toNat = 0 ↔ id = 0 := by
    intro id
    rw [← UInt32.toNat_inj]
    rfl
  simp only [MeasurementPacket.SameBranch, MeasurementPacket.branch, comparedId, ← type,
    isInitAnswer, zero]
  by_cases init : first.pType = MeasurementPacketType.init.code
  · have other : ¬ isResponse multicast MeasurementPacketType.init.code := by
      cases multicast <;> simp [isResponse, MeasurementPacketType.code]
    by_cases here : first.id = 0 <;> by_cases there : second.id = 0 <;>
      simp [init, other, here, there]
  · by_cases response : isResponse multicast first.pType
    · by_cases here : first.id = currentId <;> by_cases there : second.id = currentId <;>
        simp [init, response, here, there]
    · simp [init, response]

/-- Type and id that are decoded for a message with all its length bytes. -/
theorem packetAt_write_of_long (buffer : FixedBytes sizeSamples)
    (short : change.length ≤ sizeSamples) (long : 12 ≤ change.length)
    (mp : MeasurementPacket) :
    (packetAt platform (buffer.write change).bytes mp).pType =
        platform.value16 (window change 4 2) ∧
      (packetAt platform (buffer.write change).bytes mp).id = platform.value32
        (window (buffer.write change).bytes (idPosition (platform.lengthAt change 8)) 4) := by
  rw [packetAt, lengthAt_write platform buffer short long,
    window_write buffer short (by omega)]
  exact ⟨rfl, rfl⟩

theorem HoldsBranch.agrees (lawful : platform.Lawful)
    (holds : HoldsBranch platform multicast currentId change)
    (sized : ¬ OversizedPacket platform change) (short : change.length ≤ sizeSamples)
    (first second : FixedBytes sizeSamples) (mp : MeasurementPacket) :
    (MulticastSender.responderCallback platform first mp change).2.Agrees
      (MeasurementPacket.SameBranch multicast currentId)
        (MulticastSender.responderCallback platform second mp change).2 := by
  obtain ⟨long, compares⟩ := holds
  have fits := packetFits_write_of_sized sized short long
  obtain ⟨type, firstId⟩ := packetAt_write_of_long first short long mp
  obtain ⟨type', secondId⟩ := packetAt_write_of_long second short long mp
  rw [multicastSender_reaction lawful short, multicastSender_reaction lawful short,
    if_pos (fits first), if_pos (fits second)]
  refine (sameBranch_iff (type.trans type'.symm)).mpr ?_
  rw [type, firstId, secondId]
  intro id compared
  rcases compares id compared with held | differs
  · rw [window_write first short held, window_write second short held]
  · -- what the message holds of the id cannot be completed to the other one
    have other : ∀ buffer : FixedBytes sizeSamples, platform.value32
        (window (buffer.write change).bytes (idPosition (platform.lengthAt change 8)) 4) ≠
          id := by
      intro buffer same
      have inside := (fits buffer).2
      rw [lengthAt_write platform buffer short long] at inside
      apply differs
      rw [← same, lawful.image32_value32 _ (length_window (by omega))]
      exact window_prefix_write buffer _ 4 short
    exact iff_of_false (other first) (other second)

/-- If a message lacks a length byte, some buffers make it announce a text for which there
is no room. -/
theorem long_of_agrees {same : MeasurementPacket → MeasurementPacket → Prop}
    (lawful : platform.Lawful) (completion : Completion change sizeSamples)
    (room : completion.length platform ≤ 236)
    (agrees : ∀ mp (first second : FixedBytes sizeSamples),
      (MulticastSender.responderCallback platform first mp change).2.Agrees same
        (MulticastSender.responderCallback platform second mp change).2) :
    12 ≤ change.length := by
  by_contra lacks
  obtain ⟨other, announced⟩ :=
    completion.exists_long lawful (Nat.not_le.mp lacks) (show 236 < 255 by decide)
  have overrun : ¬ PacketFits platform (other.memory 0) := by
    intro fits
    have inside := fits.2
    rw [other.lengthAt_memory, other.length_memory, idPosition_add_le] at inside
    omega
  have agree := agrees ⟨0, .fill 255 0, 0, 0⟩ (completion.buffer 0) (other.buffer 0)
  rw [multicastSender_reaction lawful completion.short,
    multicastSender_reaction lawful completion.short, ← Completion.memory,
    ← Completion.memory, if_pos (packetFits_memory completion room 0),
    if_neg overrun] at agree
  exact agree

/-- If a message lacks a part of the id and could have the one compared with, some buffers
complete it to that and others do not. -/
theorem exists_other_branch (lawful : platform.Lawful)
    (completion : Completion change sizeSamples)
    (room : completion.length platform ≤ 236) (long : 12 ≤ change.length) {id : UInt32}
    (compared : id ∈
      comparedId multicast currentId (platform.value16 (window change 4 2)))
    (lacks : ¬ HoldsId platform change)
    (leading : window change (idPosition (platform.lengthAt change 8)) 4 <+:
      platform.image32 id) :
    ∃ mp first second,
      ¬ (MulticastSender.responderCallback platform first mp change).2.Agrees
        (MeasurementPacket.SameBranch multicast currentId)
          (MulticastSender.responderCallback platform second mp change).2 := by
  have length : completion.length platform = platform.lengthAt change 8 :=
    completion.length_eq_lengthAt long
  have within := (idPosition_add_le _).mpr room
  have sized : ¬ OversizedPacket platform change :=
    fun oversized => Nat.not_lt.mpr room (oversized completion)
  have fits := packetFits_write_of_sized sized completion.short long
  have position := idPosition_le (completion.length platform)
  rw [HoldsId, ← length] at lacks
  rw [← length] at leading
  -- the last byte of the id is missing, so a buffer decides whether it is the one compared
  obtain ⟨matching, completed⟩ :=
    exists_value32_write lawful completion.short (show _ ≤ sizeSamples by omega) leading
  obtain ⟨fill, differs⟩ := completion.exists_value32_ne lawful
    (idPosition (completion.length platform)) (by omega) (by omega) (by omega) id
  refine ⟨⟨0, .fill 255 0, 0, 0⟩, matching, completion.buffer fill, fun agree => ?_⟩
  rw [multicastSender_reaction lawful completion.short,
    multicastSender_reaction lawful completion.short, if_pos (fits _),
    if_pos (fits _)] at agree
  obtain ⟨type, matchingId⟩ :=
    packetAt_write_of_long matching completion.short long ⟨0, .fill 255 0, 0, 0⟩
  obtain ⟨type', otherId⟩ :=
    packetAt_write_of_long (completion.buffer fill) completion.short long
      ⟨0, .fill 255 0, 0, 0⟩
  have compares := (sameBranch_iff (type.trans type'.symm)).mp agree id
    (by rw [type]; exact compared)
  rw [matchingId, otherId, ← length, completed] at compares
  exact differs (compares.mp rfl)

/-- When the branch of the multicast sender depends on the message alone. -/
theorem multicastSender_branch_historyFree_iff (lawful : platform.Lawful) :
    HistoryFree (MeasurementPacket.SameBranch multicast currentId)
        (MulticastSender.responderCallback platform) change ↔
      sizeSamples < change.length ∨ OversizedPacket platform change ∨
        HoldsBranch platform multicast currentId change := by
  apply multicastSender_historyFree_iff_of lawful
  case agrees =>
    intro short sized holds mp first second
    exact holds.agrees lawful sized short first second mp
  case needs =>
    intro sized agrees
    simp only [OversizedPacket, not_forall, Nat.not_lt] at sized
    obtain ⟨completion, room⟩ := sized
    have long := long_of_agrees lawful completion room agrees
    refine ⟨long, fun id compared => ?_⟩
    by_contra neither
    obtain ⟨lacks, leading⟩ := not_or.mp neither
    obtain ⟨mp, first, second, differ⟩ := exists_other_branch lawful completion room long
      compared lacks (not_not.mp leading)
    exact differ (agrees mp first second)

end MulticastSender

/-! ## The hello world receiver -/

/-- However its length bytes are completed, the message announces a text for which
the array or the buffer has no room. -/
def OversizedHello (platform : Platform) (size : Nat) (change : List UInt8) : Prop :=
  ∀ completion : Completion change size,
    ¬ (completion.length platform ≤ 255 ∧ 12 + completion.length platform ≤ size)

/-- The message holds the terminator of its text. -/
def HoldsText (platform : Platform) (change : List UInt8) : Prop :=
  (0 : UInt8) ∈ window change 12 (platform.lengthAt change 8)

section Receiver

variable {platform : Platform} {change : List UInt8} {size : Nat}

theorem OversizedHello.not_fits (oversized : OversizedHello platform size change)
    (short : change.length ≤ size) (buffer : FixedBytes size) :
    ¬ HelloFits platform (buffer.write change).bytes := by
  intro fits
  rw [HelloFits, (buffer.write change).length_eq] at fits
  exact oversized (.ofBuffer buffer short (by omega)) fits

theorem helloFits_memory (completion : Completion change size)
    (room : completion.length platform ≤ 255 ∧ 12 + completion.length platform ≤ size)
    (fill : UInt8) : HelloFits platform (completion.memory fill) := by
  rwa [HelloFits, completion.lengthAt_memory, completion.length_memory]

theorem HoldsText.reaction (lawful : platform.Lawful) (holds : HoldsText platform change)
    (sized : ¬ OversizedHello platform size change) (short : change.length ≤ size)
    (buffer : FixedBytes size) (hw : HelloWorld) :
    (Receiver.responderCallback platform size buffer hw change).2 =
      .ofOption ((cString (window change 12 (platform.lengthAt change 8))).map fun text =>
        (text, platform.value32 (window change 4 4))) := by
  have long := long_of_mem_window holds
  have length := lengthAt_write platform buffer short long
  simp only [OversizedHello, not_forall, not_not] at sized
  obtain ⟨completion, room⟩ := sized
  rw [completion.length_eq_lengthAt long] at room
  have fits : HelloFits platform (buffer.write change).bytes := by
    rwa [HelloFits, length, (buffer.write change).length_eq]
  have text : cString (helloAt platform (buffer.write change).bytes hw).message.bytes =
      cString (window change 12 (platform.lengthAt change 8)) := by
    have bounded : (window (buffer.write change).bytes 12
        (platform.lengthAt change 8)).length ≤ 255 :=
      Nat.le_trans (List.length_take_le _ _) room.1
    rw [helloAt, length, FixedBytes.bytes_write bounded]
    obtain ⟨suffix, completed⟩ :=
      window_prefix_write buffer 12 (platform.lengthAt change 8) short
    rw [← completed, List.append_assoc]
    exact cString_append holds _
  rw [receiver_reaction lawful short, if_pos fits, text, helloAt,
    window_write buffer short (by omega)]

theorem holdsText_of_agrees (lawful : platform.Lawful)
    (sized : ¬ OversizedHello platform size change)
    (agrees : ∀ hw (first second : FixedBytes size),
      (Receiver.responderCallback platform size first hw change).2.Agrees Eq
        (Receiver.responderCallback platform size second hw change).2) :
    HoldsText platform change := by
  simp only [OversizedHello, not_forall, not_not] at sized
  obtain ⟨completion, room⟩ := sized
  have terminated : (0 : UInt8) ∈ window change 12 (completion.length platform) := by
    by_contra unterminated
    have fits := helloFits_memory completion room 1
    have text : cString (helloAt platform (completion.memory 1)
        ⟨0, .fill 255 1⟩).message.bytes = none := by
      rw [helloAt, completion.lengthAt_memory]
      exact completion.cString_write_fill room.1 room.2 unterminated
    have itself := agrees ⟨0, .fill 255 1⟩ (completion.buffer 1) (completion.buffer 1)
    rw [receiver_reaction lawful completion.short, ← Completion.memory, if_pos fits,
      text] at itself
    exact itself
  rwa [HoldsText, ← completion.length_eq_lengthAt (long_of_mem_window terminated)]

/-- When what the hello world receiver prints depends on the message alone. -/
theorem receiver_historyFree_iff (lawful : platform.Lawful) :
    HistoryFree Eq (Receiver.responderCallback platform size)
        change ↔
      size < change.length ∨ OversizedHello platform size change ∨
        HoldsText platform change := by
  apply historyFree_iff
  case copies =>
    exact fun buffer hw content => callback_copies lawful buffer hw content
  case long =>
    intro long buffer hw
    rw [Receiver.responderCallback, callback_of_lt lawful long]
  case rejects =>
    intro short oversized buffer hw
    rw [receiver_reaction lawful short, if_neg (oversized.not_fits short buffer)]
  case agrees =>
    intro short sized holds hw first second
    rw [holds.reaction lawful sized short, holds.reaction lawful sized short]
    cases found : cString (window change 12 (platform.lengthAt change 8)) with
    | none => exact absurd holds (cString_eq_none.mp found)
    | some text => exact rfl
  case needs =>
    intro _ sized agrees
    exact holdsText_of_agrees lawful sized agrees

end Receiver

/-! ## All three -/

/-- A callback reacts to a message in the same way after all histories exactly when
the message does not fit into its buffer, announces a text that does not, or holds
all that the reaction depends on: the whole packet for the response of the multicast
receiver, everything up to the id for the fields the multicast sender looks at, less for
the branch it takes if the type or a part of the id decides, and the terminator of the
text for what the hello world receiver prints. -/
theorem historyFree_iff_holds {platform : Platform} (lawful : platform.Lawful)
    (change : List UInt8) :
    (∀ multicast,
      HistoryFree Response.Same
          (MulticastReceiver.responderCallback platform multicast) change ↔
        sizeSamples < change.length ∨ OversizedPacket platform change ∨
          HoldsPacket platform change) ∧
    (HistoryFree MeasurementPacket.SameFields
        (MulticastSender.responderCallback platform) change ↔
      sizeSamples < change.length ∨ OversizedPacket platform change ∨
        HoldsId platform change) ∧
    (∀ multicast currentId,
      HistoryFree (MeasurementPacket.SameBranch multicast currentId)
          (MulticastSender.responderCallback platform) change ↔
        sizeSamples < change.length ∨ OversizedPacket platform change ∨
          HoldsBranch platform multicast currentId change) ∧
    ∀ size,
      HistoryFree Eq (Receiver.responderCallback platform size) change ↔
        size < change.length ∨ OversizedHello platform size change ∨
          HoldsText platform change :=
  ⟨fun _ => multicastReceiver_historyFree_iff lawful,
    multicastSender_historyFree_iff lawful,
    fun _ _ => multicastSender_branch_historyFree_iff lawful,
    fun _ => receiver_historyFree_iff lawful⟩

/-- An INIT packet with the text "A", the id 7 and the timestamp 9. -/
def wholePacket : List UInt8 :=
  [0, 1, 0, 0, 5, 0, 0, 0, 2, 0, 0, 0, 65, 0, 0, 0, 7, 0, 0, 0, 9, 0, 0, 0]

/-- A packet of another type that ends before its id. -/
def truncatedPacket : List UInt8 :=
  [0, 1, 0, 0, 1, 0, 0, 0, 2, 0, 0, 0, 65, 0]

/-- A whole packet is reacted to by itself, and the branch for a packet of another type
does not depend on its id. -/
theorem historyFree_wholePacket :
    HistoryFree Response.Same (MulticastReceiver.responderCallback littleEndian true)
        wholePacket ∧
      HistoryFree MeasurementPacket.SameFields
        (MulticastSender.responderCallback littleEndian) wholePacket ∧
      HistoryFree (MeasurementPacket.SameBranch true 7)
        (MulticastSender.responderCallback littleEndian) truncatedPacket ∧
      HistoryFree Eq (Receiver.responderCallback littleEndian 256) wholePacket := by
  obtain ⟨receiver, sender, -, hello⟩ :=
    historyFree_iff_holds littleEndian_lawful wholePacket
  obtain ⟨-, -, branch, -⟩ := historyFree_iff_holds littleEndian_lawful truncatedPacket
  refine ⟨(receiver true).mpr (.inr (.inr ?_)), sender.mpr (.inr (.inr ?_)),
    (branch true 7).mpr (.inr (.inr ?_)), (hello 256).mpr (.inr (.inr ?_))⟩
  · exact ⟨by decide, by decide⟩
  · unfold HoldsId
    decide
  · have other : comparedId true 7 (littleEndian.value16 (window truncatedPacket 4 2)) = none := by
      decide
    refine ⟨by decide, fun id compared => ?_⟩
    rw [other] at compared
    cases compared
  · unfold HoldsText
    decide

/-- Locals that happen to be zero. -/
def zeroLocals : Locals where
  mp := ⟨0, .fill 255 0, 0, 0⟩
  buffer _ := 0

/-- An empty message is answered with the packet received before it. -/
theorem empty_change_completed :
    ¬ HistoryFree Response.Same (MulticastReceiver.responderCallback littleEndian true)
      [] :=
  not_historyFree zeroLocals [] [(zeroLocals, wholePacket)] (by decide +kernel)

end EmbeddedRtps.Packet
