import EmbeddedRtps.Packet.Layout
import EmbeddedRtps.Packet.LittleEndian

/-!
# The echo of a packet

A framed packet is a record of six aligned fields.  Its size is computed as if the
topic stood at position 0 and it is written at position 4; both are multiples of four,
so the padding is the same and the writer ends exactly at the end of the buffer.

The receiver finds the six fields where the writer put them, and the sender finds
those of the response where the receiver put them.
-/

namespace EmbeddedRtps.Packet

open Foundation Multicast

/-! ## Writing fields -/

/-- A write that fits stores its field and leaves the rest to the writes after it. -/
theorem Writes.store {align : Nat} {bytes : List UInt8} {write : UcdrBuffer → UcdrBuffer}
    (writes : Writes align bytes write) {memory : List UInt8} {position : Nat}
    {rest : List Field}
    (inside : Field.finish position (⟨align, bytes⟩ :: rest) ≤ memory.length) :
    ∃ memory' position',
      write ⟨memory, position, false⟩ = ⟨memory', position', false⟩ ∧
      Field.store memory position (⟨align, bytes⟩ :: rest) =
        Field.store memory' position' rest ∧
      Field.finish position (⟨align, bytes⟩ :: rest) = Field.finish position' rest ∧
      Field.finish position' rest ≤ memory'.length := by
  have fits : alignUp align position + bytes.length ≤ memory.length :=
    Nat.le_trans (Field.le_finish _ rest) inside
  refine ⟨_, _, writes.succeeds _ ⟨rfl, fits⟩, rfl, rfl, ?_⟩
  change _ ≤ (overwrite memory (alignUp align position) bytes).length
  rw [length_overwrite fits]
  exact inside

/-! ## The frame of a packet -/

/-- The fields of a framed packet with this text. -/
def packetFields (platform : Platform) (mp : MeasurementPacket) (text : List UInt8) :
    List Field :=
  [⟨1, platform.schemeCdrLe⟩, ⟨2, platform.image16 0⟩, ⟨2, platform.image16 mp.pType⟩,
    ⟨4, platform.stringImage text⟩, ⟨4, platform.image32 mp.id⟩,
    ⟨4, platform.image32 mp.timestamp⟩]

/-- The bytes of a framed packet with a text of this length. -/
def frameSize (length : Nat) : Nat :=
  idPosition (length + 1) + 8

section Frames

variable {platform : Platform} {mp : MeasurementPacket} {text : List UInt8}

theorem length_stringImage (lawful : platform.Lawful) (text : List UInt8) :
    (platform.stringImage text).length = 4 + (text.length + 1) := by
  rw [Platform.stringImage, List.length_append, lawful.length_image32,
    List.length_append, List.length_singleton]

/-- Where the fields stand, and where they end. -/
theorem layout_packetFields (lawful : platform.Lawful) (mp : MeasurementPacket)
    (text : List UInt8) :
    Field.places 0 (packetFields platform mp text) =
      [(0, platform.schemeCdrLe), (2, platform.image16 0), (4, platform.image16 mp.pType),
        (8, platform.stringImage text),
        (idPosition (text.length + 1), platform.image32 mp.id),
        (idPosition (text.length + 1) + 4, platform.image32 mp.timestamp)] ∧
    Field.finish 0 (packetFields platform mp text) = frameSize text.length := by
  have string : 8 + (4 + (text.length + 1)) = 12 + (text.length + 1) := by omega
  simp only [packetFields, Field.places, Field.finish, lawful.length_schemeCdrLe,
    lawful.length_image16, length_stringImage lawful, lawful.length_image32,
    show alignUp 1 0 = 0 from rfl, show alignUp 2 (0 + 2) = 2 from rfl,
    show alignUp 2 (2 + 2) = 4 from rfl, show alignUp 4 (4 + 2) = 8 from rfl, string]
  rw [← idPosition, alignUp_idPosition_add_four]
  exact ⟨rfl, rfl⟩

theorem finish_packetFields (lawful : platform.Lawful) (mp : MeasurementPacket)
    (text : List UInt8) :
    Field.finish 0 (packetFields platform mp text) = frameSize text.length :=
  (layout_packetFields lawful mp text).2

/-- The computed size leaves exactly the room the fields take. -/
theorem sizeOfTopic_eq (lawful : platform.Lawful)
    (terminated : cString mp.pTextmessage.bytes = some text) :
    mp.sizeOfTopic platform 0 = some (idPosition (text.length + 1) + 4) := by
  simp only [MeasurementPacket.sizeOfTopic, strlen, terminated, Option.map_some,
    Option.bind_eq_bind, Option.bind_some, Option.pure_def, Option.some.injEq,
    lawful.alignment _ 2 (.inl rfl), lawful.alignment _ 4 (.inr rfl), idPosition, alignUp,
    padding]
  omega

/-- Framing stores the fields and ends at the end of the buffer. -/
theorem frame_eq (lawful : platform.Lawful) (fresh : Nat → UInt8)
    (terminated : cString mp.pTextmessage.bytes = some text) :
    frame platform fresh mp =
      some ⟨Field.store ((List.range (frameSize text.length)).map fresh) 0
        (packetFields platform mp text), frameSize text.length, false⟩ := by
  have size := finish_packetFields lawful mp text
  have room : Field.finish 0 (packetFields platform mp text) ≤
      ((List.range (frameSize text.length)).map fresh).length := by
    rw [size, List.length_map, List.length_range]
  obtain ⟨_, _, scheme, stored₁, ended₁, room⟩ :=
    (lawful.writesArrayUint8 platform.schemeCdrLe).store room
  obtain ⟨_, _, options, stored₂, ended₂, room⟩ := (lawful.writesUint16 0).store room
  obtain ⟨_, _, pType, stored₃, ended₃, room⟩ :=
    (lawful.writesUint16 mp.pType).store room
  obtain ⟨_, _, string, stored₄, ended₄, room⟩ :=
    (lawful.writesString _ _ terminated).store room
  obtain ⟨_, _, id, stored₅, ended₅, room⟩ := (lawful.writesUint32 mp.id).store room
  obtain ⟨_, _, timestamp, stored₆, ended₆, _⟩ :=
    (lawful.writesInt32 mp.timestamp.toInt32).store room
  have stored := stored₁.trans (stored₂.trans (stored₃.trans (stored₄.trans
    (stored₅.trans stored₆))))
  have ended := ended₁.trans (ended₂.trans (ended₃.trans (ended₄.trans
    (ended₅.trans ended₆))))
  have mpsize : idPosition (text.length + 1) + 4 + 4 = frameSize text.length := rfl
  simp only [frame, sizeOfTopic_eq lawful terminated, Option.bind_eq_bind,
    Option.bind_some, Option.pure_def, mpsize, lawful.initBuffer,
    MeasurementPacket.serializeTopic, scheme, options, pType, string, id, timestamp,
    Option.some.injEq]
  exact congrArg₂ (fun memory iterator => UcdrBuffer.mk memory iterator false)
    stored.symm (ended.symm.trans size)

/-! ## Memories that carry a packet -/

/-- The fields of a packet stand at their places in a memory. -/
def Carries (platform : Platform) (memory : List UInt8) (mp : MeasurementPacket)
    (text : List UInt8) : Prop :=
  ∀ place bytes, (place, bytes) ∈ Field.places 0 (packetFields platform mp text) →
    window memory place bytes.length = bytes

theorem frame_carries (lawful : platform.Lawful) {fresh : Nat → UInt8}
    {writer : UcdrBuffer} (terminated : cString mp.pTextmessage.bytes = some text)
    (framed : frame platform fresh mp = some writer) :
    writer.error = false ∧ writer.iterator = frameSize text.length ∧
      writer.memory.length = frameSize text.length ∧
      Carries platform writer.memory mp text := by
  rw [frame_eq lawful fresh terminated] at framed
  cases framed
  have room : Field.finish 0 (packetFields platform mp text) ≤
      ((List.range (frameSize text.length)).map fresh).length := by
    rw [finish_packetFields lawful, List.length_map, List.length_range]
  refine ⟨rfl, rfl, ?_, ?_⟩
  · rw [Field.length_store room, List.length_map, List.length_range]
  · intro place bytes member
    exact Field.window_store_of_mem room member

/-- A packet is carried over into the buffer it is copied to. -/
theorem Carries.write (lawful : platform.Lawful) {change : List UInt8} {size : Nat}
    (carries : Carries platform change mp text)
    (whole : frameSize text.length ≤ change.length) (short : change.length ≤ size)
    (buffer : FixedBytes size) :
    Carries platform (buffer.write change).bytes mp text := by
  intro place bytes member
  have inside := Field.place_le member
  rw [finish_packetFields lawful] at inside
  rw [FixedBytes.bytes_write short, window_append_of_le (Nat.le_trans inside whole)]
  exact carries place bytes member

section Decoded

variable {memory : List UInt8}

theorem Carries.lengthAt_eq (lawful : platform.Lawful)
    (carries : Carries platform memory mp text) (short : text.length ≤ 254) :
    platform.lengthAt memory 8 = text.length + 1 := by
  have string := carries 8 (platform.stringImage text)
    (by simp [(layout_packetFields lawful mp text).1])
  have announced : window memory 8 4 = platform.image32 (.ofNat (text.length + 1)) := by
    rw [← take_window (show 4 ≤ (platform.stringImage text).length by
      rw [length_stringImage lawful]; omega), string, Platform.stringImage]
    exact List.take_left' (lawful.length_image32 _)
  rw [Platform.lengthAt, announced, lawful.value32_image32, UInt32.toNat_ofNat']
  exact Nat.mod_eq_of_lt (by omega)

theorem Carries.text_eq (lawful : platform.Lawful)
    (carries : Carries platform memory mp text) :
    window memory 12 (text.length + 1) = text ++ [0] := by
  have string := carries 8 (platform.stringImage text)
    (by simp [(layout_packetFields lawful mp text).1])
  rw [length_stringImage lawful] at string
  rw [show 12 = 8 + 4 from rfl, ← drop_window, string, Platform.stringImage]
  exact List.drop_left' (lawful.length_image32 _)

/-- The packet that is decoded. -/
theorem Carries.packetAt_eq (lawful : platform.Lawful)
    (carries : Carries platform memory mp text) (short : text.length ≤ 254)
    (topic : MeasurementPacket) :
    packetAt platform memory topic =
      { mp with pTextmessage := topic.pTextmessage.write (text ++ [0]) } := by
  have pType := carries 4 (platform.image16 mp.pType)
    (by simp [(layout_packetFields lawful mp text).1])
  have id := carries (idPosition (text.length + 1)) (platform.image32 mp.id)
    (by simp [(layout_packetFields lawful mp text).1])
  have timestamp := carries (idPosition (text.length + 1) + 4)
    (platform.image32 mp.timestamp) (by simp [(layout_packetFields lawful mp text).1])
  rw [lawful.length_image16] at pType
  rw [lawful.length_image32] at id timestamp
  simp only [packetAt]
  rw [carries.lengthAt_eq lawful short, pType, carries.text_eq lawful, id, timestamp,
    lawful.value16_image16, lawful.value32_image32, lawful.value32_image32]

theorem Carries.packetFits (lawful : platform.Lawful)
    (carries : Carries platform memory mp text) (short : text.length ≤ 254)
    (whole : frameSize text.length ≤ memory.length) : PacketFits platform memory := by
  rw [PacketFits, carries.lengthAt_eq lawful short]
  exact ⟨by omega, whole⟩

end Decoded

/-! ## Padding -/

/-- The bytes of a frame that belong to no field. -/
def IsPadding (length index : Nat) : Prop :=
  6 ≤ index ∧ index < 8 ∨ 13 + length ≤ index ∧ index < idPosition (length + 1)

/-- All other bytes are determined by the packet. -/
theorem Carries.getElem?_eq (lawful : platform.Lawful) {first second : List UInt8}
    (carries : Carries platform first mp text)
    (carries' : Carries platform second mp text) {index : Nat}
    (inside : index < frameSize text.length) (field : ¬ IsPadding text.length index) :
    first[index]? = second[index]? := by
  have position := idPosition_le (text.length + 1)
  have same : ∀ place bytes,
      (place, bytes) ∈ Field.places 0 (packetFields platform mp text) →
      place ≤ index → index < place + bytes.length → first[index]? = second[index]? := by
    intro place bytes member
    have agree := (carries place bytes member).trans (carries' place bytes member).symm
    exact getElem?_eq_of_window agree
  simp only [(layout_packetFields lawful mp text).1, List.mem_cons,
    List.not_mem_nil, or_false, Prod.mk.injEq] at same
  simp only [IsPadding, frameSize] at field inside
  by_cases scheme : index < 2
  · exact same 0 platform.schemeCdrLe (by simp) (by omega)
      (by rw [lawful.length_schemeCdrLe]; omega)
  by_cases options : index < 4
  · exact same 2 (platform.image16 0) (by simp) (by omega)
      (by rw [lawful.length_image16]; omega)
  by_cases pType : index < 6
  · exact same 4 (platform.image16 mp.pType) (by simp) (by omega)
      (by rw [lawful.length_image16]; omega)
  by_cases string : index < 13 + text.length
  · exact same 8 (platform.stringImage text) (by simp) (by omega)
      (by rw [length_stringImage lawful]; omega)
  by_cases id : index < idPosition (text.length + 1) + 4
  · exact same (idPosition (text.length + 1)) (platform.image32 mp.id) (by simp)
      (by omega) (by rw [lawful.length_image32]; omega)
  · exact same (idPosition (text.length + 1) + 4) (platform.image32 mp.timestamp)
      (by simp) (by omega) (by rw [lawful.length_image32]; omega)

/-! ## The echo -/

/-- A text fits into the array with its terminator. -/
theorem length_of_cString {array : FixedBytes 255}
    (terminated : cString array.bytes = some text) : text.length ≤ 254 := by
  have leading := (cString_eq_some.mp terminated).2.length_le
  rw [List.length_append, List.length_singleton, array.length_eq] at leading
  omega

/-- A text written with its terminator is the string of its array. -/
theorem cString_write_of_not_mem (array : FixedBytes 255) (short : text.length ≤ 254)
    (free : (0 : UInt8) ∉ text) : cString (array.write (text ++ [0])).bytes = some text := by
  have fits : (text ++ [0]).length ≤ 255 := by
    rw [List.length_append, List.length_singleton]
    omega
  rw [FixedBytes.bytes_write fits]
  exact cString_eq_some.mpr ⟨free, List.prefix_append _ _⟩

/-- A text read into an array is terminated as it was. -/
theorem cString_write {array : FixedBytes 255}
    (terminated : cString array.bytes = some text) (other : FixedBytes 255) :
    cString (other.write (text ++ [0])).bytes = some text :=
  cString_write_of_not_mem other (length_of_cString terminated)
    (cString_eq_some.mp terminated).1

/-- A frame fits into the receiver's buffer up to a text of 235 bytes. -/
theorem frameSize_le (length : Nat) : frameSize length ≤ sizeSamples ↔ length ≤ 235 := by
  rw [frameSize, idPosition_add_le]
  omega

/-- What a callback finds in its buffer after a framed packet that fits. -/
theorem Carries.received (lawful : platform.Lawful) {change : List UInt8}
    (carries : Carries platform change mp text)
    (size : change.length = frameSize text.length) (short : text.length ≤ 235)
    (buffer : FixedBytes sizeSamples) (topic : MeasurementPacket) :
    change.length ≤ sizeSamples ∧ PacketFits platform (buffer.write change).bytes ∧
      packetAt platform (buffer.write change).bytes topic =
        { mp with pTextmessage := topic.pTextmessage.write (text ++ [0]) } := by
  have bounded : text.length ≤ 254 := Nat.le_trans short (by decide)
  have room := (frameSize_le text.length).mpr short
  have fits : change.length ≤ sizeSamples := by rwa [size]
  have copied := carries.write lawful (Nat.le_of_eq size.symm) fits buffer
  refine ⟨fits, copied.packetFits lawful bounded ?_, copied.packetAt_eq lawful bounded topic⟩
  rwa [FixedBytes.length_eq]

/-- The response to a packet with this text. -/
def responsePacket (multicast : Bool) (mp : MeasurementPacket) (text : List UInt8)
    (array : FixedBytes 255) : MeasurementPacket where
  pType := responseType multicast mp.pType
  pTextmessage := array.write (text ++ [0])
  id := mp.id
  timestamp := mp.timestamp

/-- What the receiver answers to a framed packet that fits. -/
theorem multicastReceiver_answers (lawful : platform.Lawful) {change : List UInt8}
    (terminated : cString mp.pTextmessage.bytes = some text)
    (carries : Carries platform change mp text)
    (size : change.length = frameSize text.length) (short : text.length ≤ 235)
    (multicast : Bool) (buffer : FixedBytes sizeSamples) (locals : Locals) :
    ∃ writer,
      frame platform locals.buffer
        (responsePacket multicast mp text locals.mp.pTextmessage) = some writer ∧
      (MulticastReceiver.responderCallback platform multicast buffer locals change).2 =
        .accepted ⟨responsePacket multicast mp text locals.mp.pTextmessage,
          writer.memory⟩ := by
  obtain ⟨fits, whole, decoded⟩ := carries.received lawful size short buffer locals.mp
  have framed : frame platform locals.buffer
      (responsePacket multicast mp text locals.mp.pTextmessage) = some _ :=
    frame_eq lawful locals.buffer (cString_write terminated locals.mp.pTextmessage)
  refine ⟨_, framed, ?_⟩
  rw [responsePacket] at framed ⊢
  rw [multicastReceiver_reaction lawful fits, if_pos whole, decoded]
  simp only [sendResponse, framed, Option.bind_eq_bind, Option.bind_some,
    Option.pure_def, Reaction.ofOption]

/-- What the sender decodes from a framed packet that fits. -/
theorem multicastSender_decodes (lawful : platform.Lawful) {change : List UInt8}
    (carries : Carries platform change mp text)
    (size : change.length = frameSize text.length) (short : text.length ≤ 235)
    (buffer : FixedBytes sizeSamples) (topic : MeasurementPacket) :
    (MulticastSender.responderCallback platform buffer topic change).2 =
      .accepted { mp with pTextmessage := topic.pTextmessage.write (text ++ [0]) } := by
  obtain ⟨fits, whole, decoded⟩ := carries.received lawful size short buffer topic
  rw [multicastSender_reaction lawful fits, if_pos whole, decoded]

/-! ## The packets of the sender -/

/-- The modulus of `getRandomString` is the number of letters. -/
theorem rands_terminated : rands.length = 127 ∧ (0 : UInt8) ∉ rands := by
  decide +kernel

theorem zero_not_mem_getRandomString (length : Nat) (offset : UInt8) :
    (0 : UInt8) ∉ getRandomString length offset := by
  intro member
  obtain ⟨index, _, letter⟩ := List.mem_map.mp member
  have inside : (offset.toNat + index) % 127 < rands.length := by
    rw [rands_terminated.1]
    omega
  rw [List.getD_eq_getElem?_getD, List.getElem?_eq_getElem inside,
    Option.getD_some] at letter
  exact rands_terminated.2 (letter ▸ List.getElem_mem inside)

theorem length_getRandomString (offset : UInt8) :
    (getRandomString stringLength offset).length = 235 := by
  rw [getRandomString, List.length_map, List.length_range]
  rfl

/-- Every receiver answers a packet whose text is short enough. -/
theorem frame_answered (lawful : platform.Lawful) (fresh : Nat → UInt8)
    (terminated : cString mp.pTextmessage.bytes = some text)
    (short : text.length ≤ 235) :
    ∃ writer, frame platform fresh mp = some writer ∧ writer.error = false ∧
      writer.memory.length = frameSize text.length ∧
      ∀ mode buffer locals, ∃ response,
        (MulticastReceiver.responderCallback platform mode buffer locals
          writer.memory).2 = .accepted response := by
  obtain ⟨writer, framed⟩ : ∃ writer, frame platform fresh mp = some writer :=
    ⟨_, frame_eq lawful fresh terminated⟩
  obtain ⟨noError, _, size, carries⟩ := frame_carries lawful terminated framed
  refine ⟨writer, framed, noError, size, ?_⟩
  intro mode buffer locals
  obtain ⟨_, _, accepted⟩ := multicastReceiver_answers lawful terminated carries size
    short mode buffer locals
  exact ⟨_, accepted⟩

/-- The measurement packets of the sender take exactly the buffer of the receiver, and
every receiver answers them. -/
theorem buildAndSendPacket_answered (lawful : platform.Lawful) (multicast : Bool)
    (time index : UInt32) (sending : Locals) :
    ∃ writer,
      (buildAndSendPacket platform multicast time sending index).2 = some writer ∧
      writer.error = false ∧ writer.memory.length = sizeSamples ∧
      ∀ mode buffer locals, ∃ response,
        (MulticastReceiver.responderCallback platform mode buffer locals
          writer.memory).2 = .accepted response := by
  let text := getRandomString stringLength (index * 2).toUInt8
  let packet := (buildAndSendPacket platform multicast time sending index).1
  have length : text.length = 235 := length_getRandomString (index * 2).toUInt8
  have terminated : cString packet.pTextmessage.bytes = some text :=
    cString_write_of_not_mem sending.mp.pTextmessage
      (Nat.le_trans (Nat.le_of_eq length) (by decide))
      (zero_not_mem_getRandomString stringLength (index * 2).toUInt8)
  obtain ⟨writer, framed, noError, size, answered⟩ :=
    frame_answered lawful sending.buffer terminated (Nat.le_of_eq length)
  refine ⟨writer, framed, noError, ?_, answered⟩
  rw [size, length]
  decide

/-- The INIT packet takes 32 bytes, and every receiver answers it. -/
theorem sendInitPacket_answered (lawful : platform.Lawful) (sending : Locals) :
    ∃ writer, (sendInitPacket platform sending).2 = some writer ∧
      writer.error = false ∧ writer.memory.length = 32 ∧
      ∀ mode buffer locals, ∃ response,
        (MulticastReceiver.responderCallback platform mode buffer locals
          writer.memory).2 = .accepted response := by
  have terminated : cString (sendInitPacket platform sending).1.pTextmessage.bytes =
      some [73, 110, 105, 116, 80, 104, 97, 115, 101, 49] :=
    cString_write_of_not_mem sending.mp.pTextmessage (by decide) (by decide)
  exact frame_answered lawful sending.buffer terminated (by decide)

/-! ## The whole exchange -/

/-- The frame of a packet is filled to its end, without an error, and outside the
padding nothing is left as it was. -/
def FilledExactly (platform : Platform) (mp : MeasurementPacket) (text : List UInt8)
    (writer : UcdrBuffer) : Prop :=
  writer.error = false ∧ writer.iterator = writer.memory.length ∧
    (mp.sizeOfTopic platform 0).map (· + 4) = some writer.memory.length ∧
    ∀ fresh other, frame platform fresh mp = some other →
      ∀ index, ¬ IsPadding text.length index →
        other.memory[index]? = writer.memory[index]?

/-- A decoded packet is the response to a packet with this text. -/
def EchoOf (multicast : Bool) (mp : MeasurementPacket) (text : List UInt8)
    (decoded : MeasurementPacket) : Prop :=
  decoded.id = mp.id ∧ cString decoded.pTextmessage.bytes = some text ∧
    decoded.timestamp = mp.timestamp ∧
    (mp.pType = MeasurementPacketType.init.code → decoded.pType = mp.pType) ∧
    (mp.pType ≠ MeasurementPacketType.init.code →
      decoded.pType =
        if multicast then
          MeasurementPacketType.responseMulticast.code
        else
          MeasurementPacketType.responseUnicast.code)

theorem filledExactly_of_frame (lawful : platform.Lawful) {fresh : Nat → UInt8}
    {writer : UcdrBuffer} (terminated : cString mp.pTextmessage.bytes = some text)
    (framed : frame platform fresh mp = some writer) :
    FilledExactly platform mp text writer := by
  obtain ⟨noError, iterator, size, carries⟩ := frame_carries lawful terminated framed
  refine ⟨noError, iterator.trans size.symm, ?_, ?_⟩
  · rw [sizeOfTopic_eq lawful terminated, size]
    rfl
  · intro fresh' other framed' index field
    obtain ⟨_, _, size', carries'⟩ := frame_carries lawful terminated framed'
    by_cases inside : index < frameSize text.length
    · exact carries'.getElem?_eq lawful carries inside field
    · rw [List.getElem?_eq_none (by omega), List.getElem?_eq_none (by omega)]

theorem EchoOf.of_responsePacket {multicast : Bool} (array other : FixedBytes 255)
    (terminated : cString other.bytes = some text) :
    EchoOf multicast mp text
      { responsePacket multicast mp text array with pTextmessage := other } := by
  refine ⟨rfl, terminated, rfl, ?_, ?_⟩
  · intro init
    exact if_neg (not_not.mpr init)
  · intro other
    exact if_pos other

/-- A request that fits is answered, and the answer decoded. -/
theorem exists_echo (lawful : platform.Lawful) {fresh : Nat → UInt8}
    {writer : UcdrBuffer} (terminated : cString mp.pTextmessage.bytes = some text)
    (framed : frame platform fresh mp = some writer) (short : text.length ≤ 235)
    (multicast : Bool) (buffer : FixedBytes sizeSamples) (locals : Locals) :
    ∃ response,
      (MulticastReceiver.responderCallback platform multicast buffer locals
        writer.memory).2 = .accepted response ∧
      response.payload.length = writer.memory.length ∧
      ∀ senderBuffer topic, ∃ decoded,
        (MulticastSender.responderCallback platform senderBuffer topic
          response.payload).2 = .accepted decoded ∧
        EchoOf multicast mp text decoded := by
  obtain ⟨_, _, size, carries⟩ := frame_carries lawful terminated framed
  obtain ⟨answer, framed', accepted⟩ :=
    multicastReceiver_answers lawful terminated carries size short multicast buffer locals
  have terminated' := cString_write terminated locals.mp.pTextmessage
  obtain ⟨_, _, size', carries'⟩ := frame_carries lawful terminated' framed'
  refine ⟨_, accepted, size'.trans size.symm, ?_⟩
  intro senderBuffer topic
  refine ⟨_, multicastSender_decodes lawful carries' size' short senderBuffer topic, ?_⟩
  exact .of_responsePacket _ _ (cString_write terminated topic.pTextmessage)

end Frames

/-- A packet with a terminated text is framed exactly.  A receiver answers it if and
only if the text has at most 235 bytes, and rejects it otherwise.  The answer has the
length of the request, and the sender decodes from it the id, the text and the
timestamp of the request and the packet type of a response. -/
theorem echo_round_trip {platform : Platform} (lawful : platform.Lawful)
    {mp : MeasurementPacket} {text : List UInt8}
    (terminated : cString mp.pTextmessage.bytes = some text) (fresh : Nat → UInt8) :
    ∃ writer, frame platform fresh mp = some writer ∧
      FilledExactly platform mp text writer ∧
      ∀ multicast buffer locals,
        ((∃ response,
          (MulticastReceiver.responderCallback platform multicast buffer locals
            writer.memory).2 = .accepted response) ↔ text.length ≤ 235) ∧
        (235 < text.length →
          (MulticastReceiver.responderCallback platform multicast buffer locals
            writer.memory).2 = .rejected) ∧
        ∀ response,
          (MulticastReceiver.responderCallback platform multicast buffer locals
            writer.memory).2 = .accepted response →
          response.payload.length = writer.memory.length ∧
          ∀ senderBuffer topic, ∃ decoded,
            (MulticastSender.responderCallback platform senderBuffer topic
              response.payload).2 = .accepted decoded ∧
            EchoOf multicast mp text decoded := by
  obtain ⟨writer, framed⟩ : ∃ writer, frame platform fresh mp = some writer :=
    ⟨_, frame_eq lawful fresh terminated⟩
  obtain ⟨_, _, size, _⟩ := frame_carries lawful terminated framed
  refine ⟨writer, framed, filledExactly_of_frame lawful terminated framed, ?_⟩
  intro multicast buffer locals
  have rejects : 235 < text.length →
      (MulticastReceiver.responderCallback platform multicast buffer locals
        writer.memory).2 = .rejected := by
    intro long
    have oversized := mt (frameSize_le text.length).mp (Nat.not_le.mpr long)
    rw [← size] at oversized
    rw [MulticastReceiver.responderCallback,
      callback_of_lt lawful (Nat.not_le.mp oversized)]
  have short : ∀ response,
      (MulticastReceiver.responderCallback platform multicast buffer locals
        writer.memory).2 = .accepted response → text.length ≤ 235 := by
    intro response accepted
    by_contra long
    rw [rejects (Nat.not_le.mp long)] at accepted
    cases accepted
  refine ⟨⟨?_, ?_⟩, rejects, ?_⟩
  · rintro ⟨response, accepted⟩
    exact short response accepted
  · intro fits
    obtain ⟨response, accepted, _⟩ :=
      exists_echo lawful terminated framed fits multicast buffer locals
    exact ⟨response, accepted⟩
  · intro response accepted
    obtain ⟨response', accepted', echoed⟩ := exists_echo lawful terminated framed
      (short response accepted) multicast buffer locals
    cases accepted.symm.trans accepted'
    exact echoed

/-- A request with the text "A". -/
def shortRequest : MeasurementPacket where
  pType := MeasurementPacketType.sendMulticast.code
  pTextmessage := (FixedBytes.fill 255 1).write [65, 0]
  id := 7
  timestamp := 9

/-- It is answered and its answer decoded. -/
theorem echo_round_trip_short :
    cString shortRequest.pTextmessage.bytes = some [65] ∧
      ∃ writer response decoded,
        frame littleEndian (fun _ => 0) shortRequest = some writer ∧
        (MulticastReceiver.responderCallback littleEndian true (.fill sizeSamples 0)
          ⟨shortRequest, fun _ => 0⟩ writer.memory).2 = .accepted response ∧
        (MulticastSender.responderCallback littleEndian (.fill sizeSamples 0)
          shortRequest response.payload).2 = .accepted decoded ∧
        EchoOf true shortRequest [65] decoded := by
  have terminated : cString shortRequest.pTextmessage.bytes = some [65] := by
    decide +kernel
  obtain ⟨writer, framed, _, echoes⟩ :=
    echo_round_trip littleEndian_lawful terminated fun _ => 0
  obtain ⟨answers, _, decodes⟩ := echoes true (.fill sizeSamples 0)
    ⟨shortRequest, fun _ => 0⟩
  obtain ⟨response, accepted⟩ := answers.mpr (by decide)
  obtain ⟨decoded, received, echo⟩ :=
    (decodes response accepted).2 (.fill sizeSamples 0) shortRequest
  exact ⟨terminated, writer, response, decoded, framed, accepted, received, echo⟩

end EmbeddedRtps.Packet
