import EmbeddedRtps.Multicast.Basic
import EmbeddedRtps.Packet.Platform

/-!
# The packets of the benchmarks and the callbacks that decode them

`MeasurementPacket.c` and `HelloWorld.c` are generated from an IDL file; the three
callbacks that decode these topics have one shape.  `m_buffer` outlives the callback;
the packet they decode into and the buffer they answer from are uninitialised locals,
and the contents these happen to have are arguments here.

`strlen` is partial, so that a scan which would leave the text array shows as an
undefined reaction.
-/

namespace EmbeddedRtps.Packet

open Foundation Multicast

/-! ## Topics -/

/-- `MeasurementPacket`. -/
structure MeasurementPacket where
  pType : UInt16
  pTextmessage : FixedBytes 255
  id : UInt32
  timestamp : UInt32
  deriving DecidableEq

namespace MeasurementPacket

variable (platform : Platform)

/-- `MeasurementPacket_serialize_topic`, with the writer it leaves. -/
def serializeTopic (writer : UcdrBuffer) (topic : MeasurementPacket) :
    Bool × UcdrBuffer :=
  let writer := platform.serializeUint16 writer topic.pType
  let writer := platform.serializeString writer topic.pTextmessage.bytes
  let writer := platform.serializeUint32 writer topic.id
  let writer := platform.serializeInt32 writer topic.timestamp.toInt32
  (!writer.error, writer)

/-- `MeasurementPacket_deserialize_topic`, with the packet it fills. -/
def deserializeTopic (reader : UcdrBuffer) (topic : MeasurementPacket) :
    Bool × MeasurementPacket :=
  let (pType, reader) := platform.deserializeUint16 reader
  let (pTextmessage, reader) :=
    platform.deserializeString reader topic.pTextmessage 255
  let (id, reader) := platform.deserializeUint32 reader
  let (timestamp, reader) := platform.deserializeInt32 reader
  (!reader.error, ⟨pType, pTextmessage, id, timestamp.toUInt32⟩)

/-- `MeasurementPacket_size_of_topic`. -/
def sizeOfTopic (topic : MeasurementPacket) (size : Nat) : Option Nat := do
  let previousSize := size
  let size := size + (platform.alignment size 2 + 2)
  let length ← strlen topic.pTextmessage.bytes
  let size := size + (platform.alignment size 4 + 4 + length + 1)
  let size := size + (platform.alignment size 4 + 4)
  let size := size + (platform.alignment size 4 + 4)
  return size - previousSize

end MeasurementPacket

/-- `HelloWorld`. -/
structure HelloWorld where
  index : UInt32
  message : FixedBytes 255
  deriving DecidableEq

/-- `HelloWorld_deserialize_topic`. -/
def HelloWorld.deserializeTopic (platform : Platform) (reader : UcdrBuffer)
    (topic : HelloWorld) : Bool × HelloWorld :=
  let (index, reader) := platform.deserializeUint32 reader
  let (message, reader) := platform.deserializeString reader topic.message 255
  (!reader.error, ⟨index, message⟩)

/-! ## Receiving -/

/-- What a receiver does with a message. -/
inductive Reaction (Output : Type) where
  | rejected
  | undefined
  | accepted (output : Output)
  deriving DecidableEq

/-- A reaction that is undefined where its output is. -/
def Reaction.ofOption {Output : Type} : Option Output → Reaction Output
  | none => .undefined
  | some output => .accepted output

/-- Skip the scheme and the options in front of a topic. -/
def skipHeader (platform : Platform) (memory : List UInt8) : UcdrBuffer :=
  let reader := platform.initBuffer memory
  let (_, reader) :=
    platform.deserializeArrayUint8 reader platform.schemeCdrLe.length
  let (_, reader) := platform.deserializeUint16 reader
  reader

/-- The shape of the three callbacks: copy the change into `m_buffer`, decode the
whole of the buffer into an uninitialised local, and go on with `respond` if both
succeed. -/
def callback (platform : Platform) {Topic Output : Type} {size : Nat}
    (deserializeTopic : UcdrBuffer → Topic → Bool × Topic)
    (respond : Topic → Reaction Output) (buffer : FixedBytes size) (topic : Topic)
    (change : List UInt8) : FixedBytes size × Reaction Output :=
  let (success, buffer) := platform.copyInto change buffer
  let (success2, topic) := deserializeTopic (skipHeader platform buffer.bytes) topic
  (buffer, if success && success2 then respond topic else .rejected)

/-- `m_buffer` after a sequence of calls of a callback, each with its own
uninitialised locals. -/
def serve {Locals Output : Type} {size : Nat}
    (callback : FixedBytes size → Locals → List UInt8 →
      FixedBytes size × Reaction Output)
    (buffer : FixedBytes size) (history : List (Locals × List UInt8)) :
    FixedBytes size :=
  history.foldl (fun buffer call => (callback buffer call.1 call.2).1) buffer

/-! ## Sending -/

/-- The writer after a packet was framed, as `buildAndSendPacket`, `sendInitPacket`
and `sendResponse` all do: scheme, options and topic in a buffer of the size of the
topic and four.  The uninitialised buffer has the bytes `fresh`. -/
def frame (platform : Platform) (fresh : Nat → UInt8) (mp : MeasurementPacket) :
    Option UcdrBuffer := do
  let size ← mp.sizeOfTopic platform 0
  let mpsize := size + 4
  let buffer := (List.range mpsize).map fresh
  let ubuff := platform.initBuffer buffer
  let zeroOptions := 0
  let ubuff := platform.serializeArrayUint8 ubuff platform.schemeCdrLe
  let ubuff := platform.serializeUint16 ubuff zeroOptions
  return (mp.serializeTopic platform ubuff).2

/-- What the uninitialised locals of a function that sends a packet hold: the packet
and the buffer it is framed in. -/
structure Locals where
  mp : MeasurementPacket
  buffer : Nat → UInt8

/-- `rands`, without its terminator. -/
def rands : List UInt8 :=
  ("GfemHjbEIYnhUaROYqbNFKxBEGYXdvOYXxoSvBfktOwSmRROTDAnJjahmyDLgaw" ++
    "TmDUsaQzIoaLZQmBoJHfIkZgnvvFdmyzKJpwKkFfhpyIvDdcFCUIPLIDNJZZQiVb").toList.map
      fun letter => .ofNat letter.toNat

/-- `getRandomString`, without its terminator. -/
def getRandomString (length : Nat) (offset : UInt8) : List UInt8 :=
  (List.range (length - 1)).map fun i => rands.getD ((offset.toNat + i) % 127) 0

/-- The packet of `MulticastSender::buildAndSendPacket`, with the writer that is
handed to `newChange`.  `time` is `m_time.time_since_epoch().count()`. -/
def buildAndSendPacket (platform : Platform) (multicast : Bool) (time : UInt32)
    (locals : Locals) (index : UInt32) : MeasurementPacket × Option UcdrBuffer :=
  let mp : MeasurementPacket :=
    { pType :=
        if multicast then
          MeasurementPacketType.sendMulticast.code
        else
          MeasurementPacketType.sendUnicast.code
      pTextmessage := locals.mp.pTextmessage.write
        (getRandomString stringLength (index * 2).toUInt8 ++ [0])
      id := index
      timestamp := time }
  (mp, frame platform locals.buffer mp)

/-- The packet of `MulticastSender::sendInitPacket`, with its writer. -/
def sendInitPacket (platform : Platform) (locals : Locals) :
    MeasurementPacket × Option UcdrBuffer :=
  let mp : MeasurementPacket :=
    { pType := MeasurementPacketType.init.code
      pTextmessage := locals.mp.pTextmessage.write
        ("InitPhase1".toList.map (fun letter => .ofNat letter.toNat) ++ [0])
      id := 0
      timestamp := 0 }
  (mp, frame platform locals.buffer mp)

/-- A response: the packet that was serialized and the bytes given to `newChange`. -/
structure Response where
  packet : MeasurementPacket
  payload : List UInt8
  deriving DecidableEq

/-- `MulticastReceiver::sendResponse`; nothing where it runs into undefined
behaviour. -/
def sendResponse (platform : Platform) (multicast : Bool) (fresh : Nat → UInt8)
    (mp : MeasurementPacket) : Option Response := do
  let mp := { mp with pType := responseType multicast mp.pType }
  let ubuff ← frame platform fresh mp
  return ⟨mp, ubuff.memory⟩

/-! ## The callbacks -/

/-- `MulticastReceiver::responderCallback`. -/
def MulticastReceiver.responderCallback (platform : Platform) (multicast : Bool)
    (buffer : FixedBytes sizeSamples) (locals : Locals) (change : List UInt8) :
    FixedBytes sizeSamples × Reaction Response :=
  callback platform (MeasurementPacket.deserializeTopic platform)
    (fun mp => .ofOption (sendResponse platform multicast locals.buffer mp))
    buffer locals.mp change

/-- `MulticastSender::responderCallback` up to its branching, which is over the
decoded packet. -/
def MulticastSender.responderCallback (platform : Platform)
    (buffer : FixedBytes sizeSamples) (mp : MeasurementPacket) (change : List UInt8) :
    FixedBytes sizeSamples × Reaction MeasurementPacket :=
  callback platform (MeasurementPacket.deserializeTopic platform) .accepted buffer mp
    change

/-- The branches of `MulticastSender::responderCallback`. -/
inductive Branch where
  /-- A partner is counted. -/
  | partner
  /-- A response is counted. -/
  | response
  /-- A response has the wrong id. -/
  | ignored
  /-- The packet is of another type. -/
  | other
  deriving DecidableEq, Repr

/-- The branch taken for a decoded packet, in a sender with the given mode and
`currentId`. -/
def MeasurementPacket.branch (multicast : Bool) (currentId : UInt32)
    (mp : MeasurementPacket) : Branch :=
  if isInitAnswer mp.pType mp.id.toNat then
    .partner
  else if isResponse multicast mp.pType then
    if mp.id = currentId then .response else .ignored
  else
    .other

/-- `Receiver::responderCallback`, with the message and the index it prints. -/
def Receiver.responderCallback (platform : Platform) (maxMsgSizeInBytes : Nat)
    (buffer : FixedBytes maxMsgSizeInBytes) (hw : HelloWorld) (change : List UInt8) :
    FixedBytes maxMsgSizeInBytes × Reaction (List UInt8 × UInt32) :=
  callback platform (HelloWorld.deserializeTopic platform)
    (fun hw => .ofOption ((cString hw.message.bytes).map fun text => (text, hw.index)))
    buffer hw change

end EmbeddedRtps.Packet
