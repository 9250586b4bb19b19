import EmbeddedRtps.Packet.History

/-!
# The text an answer is made from

The decoder copies as many text bytes as the message announces and adds no terminator.
`sendResponse` then looks for one with `strlen`.  That search ends within the bytes of
the message exactly when the message has a terminator among the text bytes it
announces; otherwise it goes on into bytes of earlier messages or of the uninitialised
array, and possibly out of it.
-/

namespace EmbeddedRtps.Packet

open Foundation Multicast

/-- The packet for which `MulticastReceiver::responderCallback` calls
`sendResponse`. -/
def answeredPacket (platform : Platform) (buffer : FixedBytes sizeSamples)
    (topic : MeasurementPacket) (change : List UInt8) : Reaction MeasurementPacket :=
  (callback platform (MeasurementPacket.deserializeTopic platform) .accepted buffer topic
    change).2

/-- The terminator is found, and every byte up to it was written by the decoder, which
wrote `length` bytes, and came from the message. -/
def ReadsOwnText (change : List UInt8) (length : Nat) (mp : MeasurementPacket) : Prop :=
  ∃ string, cString mp.pTextmessage.bytes = some string ∧
    string ++ [0] <+: window change 12 length

section Answers

variable {platform : Platform} {buffer : FixedBytes sizeSamples} {locals : Locals}
variable {change : List UInt8} {mp : MeasurementPacket}

/-- The callback is `sendResponse` on that packet. -/
theorem responderCallback_of_answered (multicast : Bool)
    (answered : answeredPacket platform buffer locals.mp change = .accepted mp) :
    (MulticastReceiver.responderCallback platform multicast buffer locals change).2 =
      .ofOption (sendResponse platform multicast locals.buffer mp) := by
  simp only [answeredPacket, callback] at answered
  simp only [MulticastReceiver.responderCallback, callback]
  split at answered
  next decoded =>
    rw [if_pos decoded]
    cases answered
    rfl
  next => cases answered

theorem answeredPacket_eq (lawful : platform.Lawful)
    (short : change.length ≤ sizeSamples) (buffer : FixedBytes sizeSamples)
    (topic : MeasurementPacket) :
    answeredPacket platform buffer topic change =
      if PacketFits platform (buffer.write change).bytes then
        .accepted (packetAt platform (buffer.write change).bytes topic)
      else
        .rejected :=
  packetCallback_eq lawful short topic

/-- What is known of an answered packet. -/
theorem fits_of_answered (lawful : platform.Lawful)
    (answered : answeredPacket platform buffer locals.mp change = .accepted mp) :
    change.length ≤ sizeSamples ∧ PacketFits platform (buffer.write change).bytes ∧
      mp = packetAt platform (buffer.write change).bytes locals.mp := by
  by_cases long : sizeSamples < change.length
  · rw [answeredPacket, callback_of_lt lawful long] at answered
    cases answered
  · have short := Nat.not_lt.mp long
    rw [answeredPacket_eq lawful short] at answered
    split at answered
    next fits =>
      cases answered
      exact ⟨short, fits, rfl⟩
    next => cases answered

theorem readsOwnText_packetAt (short : change.length ≤ sizeSamples)
    (fits : PacketFits platform (buffer.write change).bytes) (topic : MeasurementPacket)
    (terminated : (0 : UInt8) ∈ window change 12
      (platform.lengthAt (buffer.write change).bytes 8)) :
    ReadsOwnText change (platform.lengthAt (buffer.write change).bytes 8)
      (packetAt platform (buffer.write change).bytes topic) := by
  have own := window_prefix_write buffer 12
    (platform.lengthAt (buffer.write change).bytes 8) short
  obtain ⟨suffix, completed⟩ := own
  have text : cString (packetAt platform (buffer.write change).bytes
      topic).pTextmessage.bytes =
        cString (window change 12 (platform.lengthAt (buffer.write change).bytes 8)) := by
    rw [cString_packetAt topic fits.1 (completed ▸ List.mem_append_left _ terminated),
      ← completed]
    exact cString_append terminated suffix
  cases found : cString (window change 12
      (platform.lengthAt (buffer.write change).bytes 8)) with
  | none => exact absurd terminated (cString_eq_none.mp found)
  | some string =>
      exact ⟨string, text.trans found, (cString_eq_some.mp found).2⟩

end Answers

/-- Whatever a message is and whatever the receiver got before it: if it is answered,
the text of the answer is read from the message exactly when the message itself has a
terminator among the text bytes it announces. -/
theorem answered_readsOwnText_iff {platform : Platform} (lawful : platform.Lawful)
    {buffer : FixedBytes sizeSamples} {locals : Locals} {change : List UInt8}
    {mp : MeasurementPacket}
    (answered : answeredPacket platform buffer locals.mp change = .accepted mp)
    (multicast : Bool) :
    (MulticastReceiver.responderCallback platform multicast buffer locals change).2 =
        .ofOption (sendResponse platform multicast locals.buffer mp) ∧
      (ReadsOwnText change (platform.lengthAt (buffer.write change).bytes 8) mp ↔
        (0 : UInt8) ∈ window change 12 (platform.lengthAt change 8)) := by
  obtain ⟨short, fits, rfl⟩ := fits_of_answered lawful answered
  refine ⟨responderCallback_of_answered multicast answered, ?_⟩
  constructor
  · rintro ⟨string, _, leading⟩
    have member := leading.subset (List.mem_append_right string (List.mem_singleton_self 0))
    rwa [lengthAt_write platform buffer short (long_of_mem_window member)] at member
  · intro terminated
    apply readsOwnText_packetAt short fits
    rwa [lengthAt_write platform buffer short (long_of_mem_window terminated)]

/-- A whole packet is answered from its own text. -/
theorem answered_wholePacket :
    ∃ mp, answeredPacket littleEndian (.fill sizeSamples 0) zeroLocals.mp wholePacket =
        .accepted mp ∧
      ReadsOwnText wholePacket (littleEndian.lengthAt
        ((FixedBytes.fill sizeSamples 0).write wholePacket).bytes 8) mp := by
  have fits : PacketFits littleEndian
      ((FixedBytes.fill sizeSamples 0).write wholePacket).bytes := by
    decide +kernel
  have answered := answeredPacket_eq littleEndian_lawful
    (show wholePacket.length ≤ sizeSamples by decide) (.fill sizeSamples 0) zeroLocals.mp
  rw [if_pos fits] at answered
  exact ⟨_, answered,
    (answered_readsOwnText_iff littleEndian_lawful answered true).2.mpr (by decide)⟩

/-- A message that announces one text byte, which is no terminator. -/
def unterminatedPacket : List UInt8 :=
  [0, 1, 0, 0, 1, 0, 0, 0, 1, 0, 0, 0, 65, 0, 0, 0, 7, 0, 0, 0, 9, 0, 0, 0]

/-- Locals that happen to have no zero byte. -/
def oneLocals : Locals where
  mp := ⟨1, .fill 255 1, 1, 1⟩
  buffer _ := 1

/-- It is answered, and the search for the terminator leaves the array. -/
theorem unterminatedPacket_answered :
    ∃ mp, answeredPacket littleEndian (.fill sizeSamples 0) oneLocals.mp
        unterminatedPacket = .accepted mp ∧
      ¬ ReadsOwnText unterminatedPacket (littleEndian.lengthAt
        ((FixedBytes.fill sizeSamples 0).write unterminatedPacket).bytes 8) mp ∧
      (MulticastReceiver.responderCallback littleEndian true (.fill sizeSamples 0)
        oneLocals unterminatedPacket).2 = .undefined := by
  have fits : PacketFits littleEndian
      ((FixedBytes.fill sizeSamples 0).write unterminatedPacket).bytes := by
    decide +kernel
  have answered := answeredPacket_eq littleEndian_lawful
    (show unterminatedPacket.length ≤ sizeSamples by decide) (.fill sizeSamples 0)
    oneLocals.mp
  rw [if_pos fits] at answered
  refine ⟨_, answered, ?_, by decide +kernel⟩
  rintro ⟨string, found, _⟩
  have none : cString (packetAt littleEndian
      ((FixedBytes.fill sizeSamples 0).write unterminatedPacket).bytes
      oneLocals.mp).pTextmessage.bytes = none := by
    decide +kernel
  cases none.symm.trans found

end EmbeddedRtps.Packet
