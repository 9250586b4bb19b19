import EmbeddedRtps.Matcher.Walk
import Mathlib.Data.FinEnum

/-!
# Whether the walks end

The position grows by the announced length of a submessage, in 16-bit arithmetic.  A DATA
submessage has to be in the packet, so its end does not wrap.  The length of any other
submessage is taken as it stands: it can take the position back to where the walk has
been.  There are finitely many positions, so this is the only way not to end.
-/

namespace EmbeddedRtps.Matcher

open Foundation Port StateTransition

/-- A submessage other than DATA takes the walk back, and the walk leads from there to the
same submessage again. -/
def Deserializer.Circular (deserializer : Deserializer) (bytes : List UInt8) : Prop :=
  ∃ position next, deserializer.Visits bytes position ∧
    deserializer.submessageAt bytes position = .other next ∧
      next ≤ position ∧ Reaches (deserializer.next? bytes) next position

section

variable {deserializer : Deserializer} {buffer : Pbuf} {bytes : List UInt8}
variable {position next : UInt16}

/-- Where the announced end fits into 16 bits, the walk makes progress. -/
theorem not_ofNat_announcedEnd_le
    (fits : deserializer.announcedEnd bytes position < 2 ^ 16) :
    ¬ .ofNat (deserializer.announcedEnd bytes position) ≤ position := by
  rw [UInt16.le_iff_toNat_le, UInt16.toNat_ofNat', Nat.mod_eq_of_lt fits,
    Deserializer.announcedEnd]
  omega

/-- Only a submessage other than DATA takes the walk back. -/
theorem submessageAt_eq_other_of_le
    (step : deserializer.next? buffer.bytes position = some next)
    (back : next ≤ position) :
    deserializer.submessageAt buffer.bytes position = .other next := by
  rcases Deserializer.next?_eq_some_iff.mp step with ⟨writerSN, found⟩ | found
  · obtain ⟨whole, rfl⟩ := Deserializer.eq_of_submessageAt_eq_data found
    exact absurd back (not_ofNat_announcedEnd_le
      (Nat.lt_of_le_of_lt whole buffer.length_bytes_lt))
  · exact found

/-- The walk ends unless it is circular. -/
theorem dom_eval_next?_iff (deserializer : Deserializer) (buffer : Pbuf) :
    (eval (deserializer.next? buffer.bytes) Header.getRawSize).Dom ↔
      ¬ deserializer.Circular buffer.bytes := by
  rw [dom_eval_iff_acyclic]
  constructor
  · rintro acyclic ⟨position, next, visits, found, _, returns⟩
    have step := Deserializer.next?_eq_some_iff.mpr (Or.inr found)
    exact acyclic position visits (.head' step returns)
  · intro acircular start visits cycle
    obtain ⟨position, next, reaches, step, back, returns⟩ :=
      exists_no_progress UInt16.toNat cycle
    exact acircular ⟨position, next, visits.trans reaches,
      submessageAt_eq_other_of_le step back, back, returns⟩

/-- The first loop also ends where it accepts. -/
theorem ends_hasDataWithSequenceNumber_iff (expected : SequenceNumber) :
    Ends (hasDataWithSequenceNumber deserializer expected buffer) ↔
      (eval (deserializer.next? buffer.bytes) Header.getRawSize).Dom ∨
        deserializer.Carries buffer.bytes expected := by
  rw [← hasDataWithSequenceNumber_returns_true_iff, Part.dom_iff_mem]
  constructor
  · rintro ⟨result, returned⟩
    cases result with
    | true => exact Or.inr returned
    | false =>
        obtain ⟨last, reaches, finished⟩ := returns_loop_iff.mp returned
        have stops :=
          (hasDataWithSequenceNumberTurn_eq_done_false_iff expected).mp finished
        exact Or.inl ⟨last, mem_eval.mpr ⟨visits_of_reaches reaches, stops⟩⟩
  · rintro (⟨last, final⟩ | accepted)
    · obtain ⟨visits, stops⟩ := mem_eval.mp final
      have finished :=
        (hasDataWithSequenceNumberTurn_eq_done_false_iff expected).mpr stops
      obtain ⟨result, _, returned⟩ := exists_returns_of_reaches (fun _ => True)
        (fun _ _ step => (hasDataWithSequenceNumberTurn_follows step).imp_right
          fun early => ⟨true, trivial, early⟩)
        visits ⟨false, trivial, finished⟩
      exact ⟨result, returned⟩
    · exact ⟨true, accepted⟩

end

/-- `HasDataSubmessage` ends exactly on the packets that are not circular, and
`HasDataWithSequenceNumber` on those and the ones it accepts. -/
theorem walks_end_iff (deserializer : Deserializer) (buffer : Pbuf) :
    (Ends (hasDataSubmessage deserializer buffer) ↔
      ¬ deserializer.Circular buffer.bytes) ∧
    ∀ expected, Ends (hasDataWithSequenceNumber deserializer expected buffer) ↔
      ¬ deserializer.Circular buffer.bytes ∨
        deserializer.Carries buffer.bytes expected := by
  constructor
  · rw [ends_hasDataSubmessage_iff, dom_eval_next?_iff]
  · intro expected
    rw [ends_hasDataWithSequenceNumber_iff, dom_eval_next?_iff]

/-- A submessage of kind HEARTBEAT that announces 65532 octets, which with its header make
`2 ^ 16`. -/
def circularPacket : Pbuf where
  payloads := [rtpsHeader ++ [0x07, 0x01, 0xFC, 0xFF]]
  small := by decide

/-- Both loops stay at the first submessage for ever. -/
theorem walks_run_forever :
    ¬ Ends (hasDataSubmessage littleEndian circularPacket) ∧
      ¬ Ends (hasDataWithSequenceNumber littleEndian ⟨0, 1⟩ circularPacket) := by
  constructor
  · rw [hasDataSubmessage, ends_loop_iff]
    exact not_dom_of_cycle .refl (.single (by decide))
  · rw [hasDataWithSequenceNumber, ends_loop_iff]
    exact not_dom_of_cycle .refl (.single (by decide))

/-- Lengths that are right, or only too large for the packet, do no harm. -/
theorem not_circular_of_fits {deserializer : Deserializer} {bytes : List UInt8}
    (fits : ∀ position, deserializer.Visits bytes position →
      deserializer.announcedEnd bytes position < 2 ^ 16) :
    ¬ deserializer.Circular bytes := by
  rintro ⟨position, next, visits, found, back, _⟩
  rw [Deserializer.eq_of_submessageAt_eq_other found] at back
  exact not_ofNat_announcedEnd_le (fits position visits) back

end EmbeddedRtps.Matcher
