import EmbeddedRtps.Packet.Topic

/-!
# What the callbacks decode

A reader that has not failed stands at a position of its memory.  Following that
position through the reads of a topic tells when the decoding succeeds and which
windows of the memory the fields come from.

After the four bytes of the header both topics have their text length at position 8
and their text at position 12.
-/

namespace EmbeddedRtps.Packet

open Foundation Multicast

/-! ## Positions of a reader -/

/-- A reader over `memory` at a position, or a failed one. -/
def UcdrBuffer.At (memory : List UInt8) : Option Nat → UcdrBuffer → Prop
  | some position, buffer => buffer = ⟨memory, position, false⟩
  | none, buffer => buffer.error = true

/-- The position after a field. -/
def skip (memory : List UInt8) (align width position : Nat) : Option Nat :=
  if alignUp align position + width ≤ memory.length then
    some (alignUp align position + width)
  else
    none

section Positions

variable {memory : List UInt8} {cursor : Option Nat} {buffer : UcdrBuffer}
variable {align width position : Nat}

theorem skip_of_le (inside : alignUp align position + width ≤ memory.length) :
    skip memory align width position = some (alignUp align position + width) :=
  if_pos inside

theorem skip_of_lt (outside : memory.length < alignUp align position + width) :
    skip memory align width position = none :=
  if_neg (Nat.not_le.mpr outside)

/-- The last of several fields decides whether all of them are inside. -/
theorem skip_bind_skip (memory : List UInt8)
    (align width align' width' position : Nat) :
    (skip memory align width position).bind (skip memory align' width') =
      skip memory align' width' (alignUp align position + width) := by
  by_cases inside : alignUp align position + width ≤ memory.length
  · rw [skip_of_le inside, Option.bind_some]
  · have later := le_alignUp align' (alignUp align position + width)
    rw [skip_of_lt (by omega), skip_of_lt (by omega), Option.bind_none]

theorem UcdrBuffer.At.error_eq (here : UcdrBuffer.At memory cursor buffer) :
    buffer.error = cursor.isNone := by
  cases cursor with
  | none => exact here
  | some position =>
      cases here
      rfl

theorem Reads.eq_at {Value : Type} {value : List UInt8 → Value}
    {read : UcdrBuffer → Value × UcdrBuffer} (reads : Reads align width value read)
    (memory : List UInt8) (position : Nat)
    (inside : alignUp align position + width ≤ memory.length) :
    read ⟨memory, position, false⟩ =
      (value (window memory (alignUp align position) width),
        ⟨memory, alignUp align position + width, false⟩) :=
  reads.succeeds _ ⟨rfl, inside⟩

/-- A read moves the position on or fails. -/
theorem Reads.at_next {Value : Type} {value : List UInt8 → Value}
    {read : UcdrBuffer → Value × UcdrBuffer} (reads : Reads align width value read)
    (here : UcdrBuffer.At memory cursor buffer) :
    UcdrBuffer.At memory (cursor.bind (skip memory align width)) (read buffer).2 := by
  cases cursor with
  | none =>
      apply reads.fails
      intro fits
      cases here.symm.trans fits.1
  | some position =>
      cases here
      by_cases inside : alignUp align position + width ≤ memory.length
      · rw [reads.eq_at memory position inside, Option.bind_some, skip_of_le inside]
        rfl
      · rw [Option.bind_some, skip_of_lt (Nat.not_le.mp inside)]
        exact reads.fails _ fun fits => inside fits.2

end Positions

namespace Platform

/-- The length announced by the four bytes at `position`. -/
def lengthAt (platform : Platform) (memory : List UInt8) (position : Nat) : Nat :=
  (platform.value32 (window memory position 4)).toNat

/-- The position after a string of at most `capacity` bytes. -/
def skipString (platform : Platform) (memory : List UInt8) (capacity position : Nat) :
    Option Nat :=
  let length := platform.lengthAt memory (alignUp 4 position)
  if length ≤ capacity ∧ alignUp 4 position + 4 + length ≤ memory.length then
    some (alignUp 4 position + 4 + length)
  else
    none

theorem stringFits_iff {platform : Platform} {memory : List UInt8}
    {position capacity : Nat} :
    platform.StringFits ⟨memory, position, false⟩ capacity ↔
      platform.lengthAt memory (alignUp 4 position) ≤ capacity ∧
        alignUp 4 position + 4 + platform.lengthAt memory (alignUp 4 position) ≤
          memory.length := by
  constructor
  · intro fits
    exact fits.2
  · intro fits
    exact ⟨⟨rfl, Nat.le_trans (Nat.le_add_right _ _) fits.2⟩, fits⟩

end Platform

section Decoding

variable {platform : Platform} {memory : List UInt8} {cursor : Option Nat}
variable {buffer : UcdrBuffer} {size : Nat}

theorem Platform.Lawful.string_eq_at (lawful : platform.Lawful) (memory : List UInt8)
    (position : Nat) (destination : FixedBytes size) {capacity : Nat}
    (short : platform.lengthAt memory (alignUp 4 position) ≤ capacity)
    (inside : alignUp 4 position + 4 +
      platform.lengthAt memory (alignUp 4 position) ≤ memory.length) :
    platform.deserializeString ⟨memory, position, false⟩ destination capacity =
      (destination.write (window memory (alignUp 4 position + 4)
          (platform.lengthAt memory (alignUp 4 position))),
        ⟨memory, alignUp 4 position + 4 +
          platform.lengthAt memory (alignUp 4 position), false⟩) :=
  lawful.readsString _ _ _ (Platform.stringFits_iff.mpr ⟨short, inside⟩)

theorem Platform.Lawful.string_at_next (lawful : platform.Lawful)
    (here : UcdrBuffer.At memory cursor buffer) (destination : FixedBytes size)
    (capacity : Nat) :
    UcdrBuffer.At memory (cursor.bind (platform.skipString memory capacity))
      (platform.deserializeString buffer destination capacity).2 := by
  cases cursor with
  | none =>
      apply lawful.failsString
      intro fits
      cases here.symm.trans fits.1.1
  | some position =>
      cases here
      rw [Option.bind_some, Platform.skipString]
      split
      next fits =>
        rw [lawful.string_eq_at memory position destination fits.1 fits.2]
        rfl
      next overrun =>
        exact lawful.failsString _ _ _ fun fits =>
          overrun (Platform.stringFits_iff.mp fits)

/-! ## The header -/

/-- The position after the header. -/
theorem skipHeader_at (lawful : platform.Lawful) (memory : List UInt8) :
    UcdrBuffer.At memory (skip memory 2 2 2) (skipHeader platform memory) := by
  have start : UcdrBuffer.At memory (some 0) (platform.initBuffer memory) :=
    lawful.initBuffer memory
  have scheme := (lawful.readsArrayUint8 platform.schemeCdrLe.length).at_next start
  have options := lawful.readsUint16.at_next scheme
  have position : ((some 0).bind (skip memory 1 platform.schemeCdrLe.length)).bind
      (skip memory 2 2) = skip memory 2 2 2 := by
    rw [lawful.length_schemeCdrLe, Option.bind_some, skip_bind_skip]
    rfl
  rw [position] at options
  exact options

theorem skipHeader_eq (lawful : platform.Lawful) (long : 4 ≤ memory.length) :
    skipHeader platform memory = ⟨memory, 4, false⟩ := by
  have here := skipHeader_at lawful memory
  rw [skip_of_le long] at here
  exact here

/-! ## Measurement packets -/

/-- The position of the id behind a text of the given length. -/
def idPosition (length : Nat) : Nat :=
  alignUp 4 (12 + length)

/-- The memory is large enough for the packet it announces. -/
def PacketFits (platform : Platform) (memory : List UInt8) : Prop :=
  platform.lengthAt memory 8 ≤ 255 ∧
    idPosition (platform.lengthAt memory 8) + 8 ≤ memory.length

instance (platform : Platform) (memory : List UInt8) :
    Decidable (PacketFits platform memory) :=
  inferInstanceAs (Decidable (_ ∧ _))

/-- The packet in a memory.  The end of the text array, behind the announced length,
is that of `topic`. -/
def packetAt (platform : Platform) (memory : List UInt8) (topic : MeasurementPacket) :
    MeasurementPacket :=
  let length := platform.lengthAt memory 8
  { pType := platform.value16 (window memory 4 2)
    pTextmessage := topic.pTextmessage.write (window memory 12 length)
    id := platform.value32 (window memory (idPosition length) 4)
    timestamp := platform.value32 (window memory (idPosition length + 4) 4) }

theorem idPosition_le (length : Nat) : 12 + length ≤ idPosition length :=
  le_alignUp 4 _

/-- The texts for which the buffers of the multicast benchmark have room. -/
theorem idPosition_add_le (length : Nat) :
    idPosition length + 8 ≤ sizeSamples ↔ length ≤ 236 := by
  simp only [idPosition, alignUp, padding, sizeSamples]
  omega

theorem alignUp_idPosition_add_four (length : Nat) :
    alignUp 4 (idPosition length + 4) = idPosition length + 4 := by
  simp only [idPosition, alignUp, padding]
  omega

theorem PacketFits.string (fits : PacketFits platform memory) :
    platform.lengthAt memory 8 ≤ 255 ∧
      12 + platform.lengthAt memory 8 ≤ memory.length := by
  have position := idPosition_le (platform.lengthAt memory 8)
  have inside := fits.2
  exact ⟨fits.1, by omega⟩

theorem skipString_six (platform : Platform) (memory : List UInt8) :
    platform.skipString memory 255 6 =
      if platform.lengthAt memory 8 ≤ 255 ∧
          12 + platform.lengthAt memory 8 ≤ memory.length then
        some (12 + platform.lengthAt memory 8)
      else
        none := rfl

/-- The reads of a packet succeed exactly when it fits. -/
theorem packet_position (platform : Platform) (memory : List UInt8) :
    ((((skip memory 2 2 2).bind (skip memory 2 2)).bind
      (platform.skipString memory 255)).bind (skip memory 4 4)).bind
        (skip memory 4 4) =
      if PacketFits platform memory then
        some (idPosition (platform.lengthAt memory 8) + 8)
      else
        none := by
  have numbers :
      ((some (12 + platform.lengthAt memory 8)).bind (skip memory 4 4)).bind
          (skip memory 4 4) =
        if idPosition (platform.lengthAt memory 8) + 8 ≤ memory.length then
          some (idPosition (platform.lengthAt memory 8) + 8)
        else
          none := by
    rw [Option.bind_some, skip_bind_skip, skip, ← idPosition,
      alignUp_idPosition_add_four]
  rw [skip_bind_skip, show alignUp 2 2 + 2 = 4 from rfl, skip,
    show alignUp 2 4 + 2 = 6 from rfl]
  by_cases fits : PacketFits platform memory
  · have string := fits.string
    rw [if_pos fits, if_pos (by omega), Option.bind_some, skipString_six,
      if_pos string, numbers, if_pos fits.2]
  · rw [if_neg fits]
    by_cases header : 6 ≤ memory.length
    · rw [if_pos header, Option.bind_some, skipString_six]
      split
      next string =>
        rw [numbers]
        exact if_neg fun inside => fits ⟨string.1, inside⟩
      next => rfl
    · rw [if_neg header]
      rfl

/-- Decoding succeeds exactly when the packet fits. -/
theorem deserializeTopic_fst (lawful : platform.Lawful) (memory : List UInt8)
    (topic : MeasurementPacket) :
    (topic.deserializeTopic platform (skipHeader platform memory)).1 =
      decide (PacketFits platform memory) := by
  have header := skipHeader_at lawful memory
  have pType := lawful.readsUint16.at_next header
  have text := lawful.string_at_next pType topic.pTextmessage 255
  have id := lawful.readsUint32.at_next text
  have timestamp := lawful.readsInt32.at_next id
  rw [packet_position] at timestamp
  change (!_) = _
  rw [timestamp.error_eq]
  split
  next fits => simp [fits]
  next overrun => simp [overrun]

/-- Its fields come from their windows of the memory. -/
theorem deserializeTopic_snd (lawful : platform.Lawful)
    (fits : PacketFits platform memory) (topic : MeasurementPacket) :
    (topic.deserializeTopic platform (skipHeader platform memory)).2 =
      packetAt platform memory topic := by
  obtain ⟨short, string⟩ := fits.string
  have inside := fits.2
  have pType : platform.deserializeUint16 ⟨memory, 4, false⟩ =
      (platform.value16 (window memory 4 2), ⟨memory, 6, false⟩) :=
    lawful.readsUint16.eq_at memory 4 (Nat.le_trans (by decide)
      (Nat.le_trans (Nat.le_add_right 12 _) string))
  have text : platform.deserializeString ⟨memory, 6, false⟩ topic.pTextmessage 255 =
      (topic.pTextmessage.write (window memory 12 (platform.lengthAt memory 8)),
        ⟨memory, 12 + platform.lengthAt memory 8, false⟩) :=
    lawful.string_eq_at memory 6 topic.pTextmessage short string
  have id : platform.deserializeUint32
        ⟨memory, 12 + platform.lengthAt memory 8, false⟩ =
      (platform.value32 (window memory (idPosition (platform.lengthAt memory 8)) 4),
        ⟨memory, idPosition (platform.lengthAt memory 8) + 4, false⟩) :=
    lawful.readsUint32.eq_at memory (12 + platform.lengthAt memory 8)
      (by rw [← idPosition]; omega)
  have timestamp := lawful.readsInt32.eq_at memory
    (idPosition (platform.lengthAt memory 8) + 4)
    (by rw [alignUp_idPosition_add_four]; exact inside)
  rw [alignUp_idPosition_add_four] at timestamp
  rw [skipHeader_eq lawful (by omega), MeasurementPacket.deserializeTopic, pType]
  simp only [text, id, timestamp]
  simp [packetAt]

/-! ## Hello world packets -/

/-- The memory is large enough for the text it announces. -/
def HelloFits (platform : Platform) (memory : List UInt8) : Prop :=
  platform.lengthAt memory 8 ≤ 255 ∧
    12 + platform.lengthAt memory 8 ≤ memory.length

instance (platform : Platform) (memory : List UInt8) :
    Decidable (HelloFits platform memory) :=
  inferInstanceAs (Decidable (_ ∧ _))

/-- The packet in a memory. -/
def helloAt (platform : Platform) (memory : List UInt8) (topic : HelloWorld) :
    HelloWorld where
  index := platform.value32 (window memory 4 4)
  message := topic.message.write (window memory 12 (platform.lengthAt memory 8))

theorem hello_position (platform : Platform) (memory : List UInt8) :
    ((skip memory 2 2 2).bind (skip memory 4 4)).bind
        (platform.skipString memory 255) =
      if HelloFits platform memory then
        some (12 + platform.lengthAt memory 8)
      else
        none := by
  rw [skip_bind_skip, show alignUp 2 2 + 2 = 4 from rfl, skip,
    show alignUp 4 4 + 4 = 8 from rfl]
  by_cases header : 8 ≤ memory.length
  · rw [if_pos header]
    rfl
  · rw [if_neg header, Option.bind_none]
    exact (if_neg fun fits => header (Nat.le_trans (by omega) fits.2)).symm

theorem helloDeserializeTopic_fst (lawful : platform.Lawful) (memory : List UInt8)
    (topic : HelloWorld) :
    (topic.deserializeTopic platform (skipHeader platform memory)).1 =
      decide (HelloFits platform memory) := by
  have header := skipHeader_at lawful memory
  have index := lawful.readsUint32.at_next header
  have text := lawful.string_at_next index topic.message 255
  rw [hello_position] at text
  change (!_) = _
  rw [text.error_eq]
  split
  next fits => simp [fits]
  next overrun => simp [overrun]

theorem helloDeserializeTopic_snd (lawful : platform.Lawful)
    (fits : HelloFits platform memory) (topic : HelloWorld) :
    (topic.deserializeTopic platform (skipHeader platform memory)).2 =
      helloAt platform memory topic := by
  obtain ⟨short, inside⟩ := fits
  have index : platform.deserializeUint32 ⟨memory, 4, false⟩ =
      (platform.value32 (window memory 4 4), ⟨memory, 8, false⟩) :=
    lawful.readsUint32.eq_at memory 4 (Nat.le_trans (by decide)
      (Nat.le_trans (Nat.le_add_right 12 _) inside))
  have text : platform.deserializeString ⟨memory, 8, false⟩ topic.message 255 =
      (topic.message.write (window memory 12 (platform.lengthAt memory 8)),
        ⟨memory, 12 + platform.lengthAt memory 8, false⟩) :=
    lawful.string_eq_at memory 8 topic.message short inside
  rw [skipHeader_eq lawful (by omega), HelloWorld.deserializeTopic, index]
  simp only [text]
  rfl

end Decoding

/-! ## The callbacks -/

section Callbacks

variable {platform : Platform} {Topic Output : Type} {size : Nat}
variable {deserializeTopic : UcdrBuffer → Topic → Bool × Topic}
variable {respond : Topic → Reaction Output} {buffer : FixedBytes size}
variable {change : List UInt8}

/-- A change that is too long is rejected, and leaves the buffer as it is. -/
theorem callback_of_lt (lawful : platform.Lawful) (long : size < change.length)
    (topic : Topic) :
    callback platform deserializeTopic respond buffer topic change =
      (buffer, .rejected) := by
  rw [callback, lawful.rejectsLonger _ _ long]
  rfl

/-- Otherwise its bytes come to stand before those of earlier changes. -/
theorem callback_of_le (lawful : platform.Lawful) (short : change.length ≤ size)
    (topic : Topic) :
    callback platform deserializeTopic respond buffer topic change =
      (buffer.write change,
        let decoded :=
          deserializeTopic (skipHeader platform (buffer.write change).bytes) topic
        if decoded.1 then respond decoded.2 else .rejected) := by
  rw [callback, lawful.copiesInto _ _ short]
  rfl

theorem packetCallback_eq (lawful : platform.Lawful) (short : change.length ≤ size)
    {respond : MeasurementPacket → Reaction Output} (topic : MeasurementPacket) :
    (callback platform (MeasurementPacket.deserializeTopic platform) respond buffer
        topic change).2 =
      if PacketFits platform (buffer.write change).bytes then
        respond (packetAt platform (buffer.write change).bytes topic)
      else
        .rejected := by
  rw [callback_of_le lawful short]
  simp only [deserializeTopic_fst lawful, decide_eq_true_eq]
  split
  next fits => rw [deserializeTopic_snd lawful fits]
  next => rfl

theorem helloCallback_eq (lawful : platform.Lawful) (short : change.length ≤ size)
    {respond : HelloWorld → Reaction Output} (topic : HelloWorld) :
    (callback platform (HelloWorld.deserializeTopic platform) respond buffer topic
        change).2 =
      if HelloFits platform (buffer.write change).bytes then
        respond (helloAt platform (buffer.write change).bytes topic)
      else
        .rejected := by
  rw [callback_of_le lawful short]
  simp only [helloDeserializeTopic_fst lawful, decide_eq_true_eq]
  split
  next fits => rw [helloDeserializeTopic_snd lawful fits]
  next => rfl

variable {multicast : Bool} {change : List UInt8}

/-- The reactions to a message that fits into the buffer. -/
theorem multicastReceiver_reaction (lawful : platform.Lawful)
    (short : change.length ≤ sizeSamples) (buffer : FixedBytes sizeSamples)
    (locals : Locals) :
    (MulticastReceiver.responderCallback platform multicast buffer locals change).2 =
      if PacketFits platform (buffer.write change).bytes then
        .ofOption (sendResponse platform multicast locals.buffer
          (packetAt platform (buffer.write change).bytes locals.mp))
      else
        .rejected :=
  packetCallback_eq lawful short locals.mp

theorem multicastSender_reaction (lawful : platform.Lawful)
    (short : change.length ≤ sizeSamples) (buffer : FixedBytes sizeSamples)
    (mp : MeasurementPacket) :
    (MulticastSender.responderCallback platform buffer mp change).2 =
      if PacketFits platform (buffer.write change).bytes then
        .accepted (packetAt platform (buffer.write change).bytes mp)
      else
        .rejected :=
  packetCallback_eq lawful short mp

theorem receiver_reaction (lawful : platform.Lawful) (short : change.length ≤ size)
    (buffer : FixedBytes size) (hw : HelloWorld) :
    (Receiver.responderCallback platform size buffer hw change).2 =
      if HelloFits platform (buffer.write change).bytes then
        .ofOption ((cString (helloAt platform (buffer.write change).bytes
          hw).message.bytes).map fun text =>
            (text, (helloAt platform (buffer.write change).bytes hw).index))
      else
        .rejected :=
  helloCallback_eq lawful short hw

end Callbacks

end EmbeddedRtps.Packet
