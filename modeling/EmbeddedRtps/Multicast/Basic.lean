import Mathlib.Logic.Basic

/-!
# Options and packet types of the multicast benchmark

The compile-time options of `McastOptions.h`, the enumeration of `McastUtils.h`
and the rule by which a responder picks the type of its answer.  The rule is
shared by the byte-level model of the receiver and by the protocol model, in
which a response is known by the packet it answers.
-/

namespace EmbeddedRtps.Multicast

/-- `NUM_SAMPLES`. -/
def numSamples : Nat := 100

/-- `NUM_ROUNDS`. -/
def numRounds : Nat := 20

/-- `SIZE_SAMPLES`. -/
def sizeSamples : Nat := 256

/-- `STRING_LENGTH`. -/
def stringLength : Nat := sizeSamples - 20

/-- `measure::MeasurementPacketType`. -/
inductive MeasurementPacketType where
  | invalid
  | sendMulticast
  | sendUnicast
  | responseMulticast
  | responseUnicast
  | init
  deriving DecidableEq, Repr

/-- The enumerator as it stands in the 16-bit field of a packet. -/
def MeasurementPacketType.code : MeasurementPacketType → UInt16
  | .invalid => 0
  | .sendMulticast => 1
  | .sendUnicast => 2
  | .responseMulticast => 3
  | .responseUnicast => 4
  | .init => 5

/-- The type `MulticastReceiver::sendResponse` gives to the answer of a packet of
type `pType`: an INIT packet is echoed, everything else becomes a response in the
mode of the responder. -/
def responseType (multicast : Bool) (pType : UInt16) : UInt16 :=
  if pType ≠ MeasurementPacketType.init.code then
    if multicast then
      MeasurementPacketType.responseMulticast.code
    else
      MeasurementPacketType.responseUnicast.code
  else
    pType

/-- The test by which `MulticastSender::responderCallback` recognises an answer to
its INIT packet. -/
def isInitAnswer (pType : UInt16) (id : Nat) : Prop :=
  pType = MeasurementPacketType.init.code ∧ id = 0

/-- The test by which it recognises a response in its own mode. -/
def isResponse (multicast : Bool) (pType : UInt16) : Prop :=
  (pType = MeasurementPacketType.responseMulticast.code ∧ multicast = true) ∨
    (pType = MeasurementPacketType.responseUnicast.code ∧ multicast = false)

instance (pType : UInt16) (id : Nat) : Decidable (isInitAnswer pType id) :=
  inferInstanceAs (Decidable (_ ∧ _))

instance (multicast : Bool) (pType : UInt16) :
    Decidable (isResponse multicast pType) :=
  inferInstanceAs (Decidable (_ ∨ _))

/-- A responder in the sender's mode answers a measurement packet by a response
the sender waits for, one in the other mode by a packet the sender ignores. -/
theorem isResponse_responseType (sender responder : Bool) {pType : UInt16}
    (request : pType ≠ MeasurementPacketType.init.code) :
    isResponse sender (responseType responder pType) ↔ responder = sender := by
  rw [responseType, if_pos request]
  cases sender <;> cases responder <;>
    simp [isResponse, MeasurementPacketType.code]

end EmbeddedRtps.Multicast
