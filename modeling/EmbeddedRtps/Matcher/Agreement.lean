import EmbeddedRtps.Matcher.Walk

/-!
# Whether the two matchers agree

The writer tests expect no call of `sendPacket` that `HasDataSubmessage` accepts, apart
from those a `HasDataWithSequenceNumber` allows.  That makes sense if the first accepts
all the second does.  It does not: it goes on after a DATA submessage, and when the rest
of the packet is cut off within a submessage it forgets what it has found.
-/

namespace EmbeddedRtps.Matcher

open Foundation Port StateTransition

/-- The walk comes to a submessage that is cut off. -/
def Deserializer.Truncated (deserializer : Deserializer) (bytes : List UInt8) : Prop :=
  ∃ position, deserializer.Visits bytes position ∧
    deserializer.submessageAt bytes position = .truncated

section

variable {deserializer : Deserializer} {buffer : Pbuf} {position last : UInt16}

/-- The second loop comes to all positions of the walk, and does not forget on the way. -/
theorem exists_hasDataSubmessage_reaches
    (reaches : Reaches (deserializer.next? buffer.bytes) position last) (found : Bool) :
    ∃ result, (found = true → result = true) ∧
      Reaches (fun state => (hasDataSubmessageTurn deserializer buffer state).next?)
        (position, found) (last, result) := by
  induction reaches with
  | refl => exact ⟨found, id, .refl⟩
  | @tail middle last _ step ih =>
      obtain ⟨result, kept, reached⟩ := ih
      refine ⟨result || (deserializer.submessageAt buffer.bytes middle).isData, ?_, ?_⟩
      · intro foundBefore
        rw [kept foundBefore, Bool.true_or]
      · refine reached.tail ?_
        simp only [hasDataSubmessageTurn_next?, Option.mem_def.mp step, Option.map_some,
          Option.mem_def]

/-- A submessage that is cut off makes the second matcher reject. -/
theorem hasDataSubmessage_returns_false (truncated : deserializer.Truncated buffer.bytes) :
    Returns (hasDataSubmessage deserializer buffer) false := by
  obtain ⟨position, visits, cutOff⟩ := truncated
  obtain ⟨result, _, reached⟩ := exists_hasDataSubmessage_reaches visits false
  refine returns_loop_iff.mpr ⟨(position, result), reached, ?_⟩
  rw [hasDataSubmessageTurn_eq, cutOff]

/-- A walk that comes to the end of the packet after a DATA submessage makes it accept. -/
theorem hasDataSubmessage_returns_true {expected : SequenceNumber}
    (visits : deserializer.Visits buffer.bytes last)
    (outside : deserializer.submessageAt buffer.bytes last = .outside)
    (carries : deserializer.Carries buffer.bytes expected) :
    Returns (hasDataSubmessage deserializer buffer) true := by
  obtain ⟨position, next, visitsData, isData⟩ := carries
  have step : deserializer.next? buffer.bytes position = some next :=
    Deserializer.next?_eq_some_iff.mpr (Or.inl ⟨expected, isData⟩)
  have final : last ∈ eval (deserializer.next? buffer.bytes) position := by
    rw [← reaches_eval visitsData]
    exact mem_eval.mpr ⟨visits, Deserializer.next?_eq_none_iff.mpr (Or.inl outside)⟩
  rw [reaches_eval (Relation.ReflTransGen.single step)] at final
  obtain ⟨before, _, toData⟩ := exists_hasDataSubmessage_reaches visitsData false
  obtain ⟨result, kept, toEnd⟩ :=
    exists_hasDataSubmessage_reaches (mem_eval.mp final).1 true
  have turn : (hasDataSubmessageTurn deserializer buffer (position, before)).next? =
      some (next, true) := by
    rw [hasDataSubmessageTurn_next?, step, isData]
    simp [Submessage.isData]
  refine returns_loop_iff.mpr ⟨(last, result), (toData.tail turn).trans toEnd, ?_⟩
  rw [hasDataSubmessageTurn_eq, outside, kept rfl]

/-- A walk that ends comes to the end of the packet, unless it is cut off. -/
theorem exists_visits_outside (ends : Ends (hasDataSubmessage deserializer buffer))
    (whole : ¬ deserializer.Truncated buffer.bytes) :
    ∃ last, deserializer.Visits buffer.bytes last ∧
      deserializer.submessageAt buffer.bytes last = .outside := by
  obtain ⟨last, final⟩ := Part.dom_iff_mem.mp (ends_hasDataSubmessage_iff.mp ends)
  obtain ⟨visits, stops⟩ := mem_eval.mp final
  rcases Deserializer.next?_eq_none_iff.mp stops with outside | truncated
  · exact ⟨last, visits, outside⟩
  · exact absurd ⟨last, visits, truncated⟩ whole

end

/-- On a packet on which the walk ends, `HasDataSubmessage` accepts if
`HasDataWithSequenceNumber` does, exactly if no submessage of it is cut off, or none is a
whole DATA submessage with the sequence number. -/
theorem matchers_agree_iff (deserializer : Deserializer) (buffer : Pbuf)
    (expected : SequenceNumber) (ends : Ends (hasDataSubmessage deserializer buffer)) :
    (Returns (hasDataWithSequenceNumber deserializer expected buffer) true →
      Returns (hasDataSubmessage deserializer buffer) true) ↔
        ¬ deserializer.Truncated buffer.bytes ∨
          ¬ deserializer.Carries buffer.bytes expected := by
  rw [hasDataWithSequenceNumber_returns_true_iff]
  constructor
  · intro agree
    by_cases truncated : deserializer.Truncated buffer.bytes
    · refine Or.inr fun carries => ?_
      have rejected := hasDataSubmessage_returns_false truncated
      cases returns_loop_unique (agree carries) rejected
    · exact Or.inl truncated
  · intro condition carries
    have whole := condition.resolve_right (not_not_intro carries)
    obtain ⟨last, visits, outside⟩ := exists_visits_outside ends whole
    exact hasDataSubmessage_returns_true visits outside carries

/-- One DATA submessage, in two `pbuf`s. -/
def wholeData : Pbuf where
  payloads := [rtpsHeader, dataSubmessage 1]
  small := by decide

/-- Both matchers accept a packet with one whole DATA submessage. -/
theorem matchers_agree_on_wholeData :
    Returns (hasDataWithSequenceNumber littleEndian ⟨0, 1⟩ wholeData) true ∧
      Returns (hasDataSubmessage littleEndian wholeData) true ∧
        ¬ littleEndian.Truncated wholeData.bytes := by
  have accepted : Returns (hasDataWithSequenceNumber littleEndian ⟨0, 1⟩ wholeData) true :=
    ⟨1, by decide⟩
  have accepted' : Returns (hasDataSubmessage littleEndian wholeData) true :=
    ⟨2, by decide⟩
  refine ⟨accepted, accepted', ?_⟩
  have either := (matchers_agree_iff littleEndian wholeData ⟨0, 1⟩ ⟨true, accepted'⟩).mp
    fun _ => accepted'
  exact either.resolve_right
    (not_not_intro ((hasDataWithSequenceNumber_returns_true_iff _).mp accepted))

/-- The same with one more byte. -/
def dataWithTail : Pbuf where
  payloads := [rtpsHeader, dataSubmessage 1, [0]]
  small := by decide

/-- A byte after the last submessage makes `HasDataSubmessage` reject what
`HasDataWithSequenceNumber` accepts. -/
theorem matchers_disagree_on_dataWithTail :
    Returns (hasDataWithSequenceNumber littleEndian ⟨0, 1⟩ dataWithTail) true ∧
      Returns (hasDataSubmessage littleEndian dataWithTail) false ∧
        ¬ Returns (hasDataSubmessage littleEndian dataWithTail) true := by
  have rejected : Returns (hasDataSubmessage littleEndian dataWithTail) false :=
    ⟨2, by decide⟩
  refine ⟨⟨1, by decide⟩, rejected, ?_⟩
  intro accepted
  cases returns_loop_unique accepted rejected

end EmbeddedRtps.Matcher
