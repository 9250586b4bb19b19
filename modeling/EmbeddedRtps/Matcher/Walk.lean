import EmbeddedRtps.Foundation.Loop
import EmbeddedRtps.Packet.LittleEndian
import EmbeddedRtps.Port.Pbuf
import Mathlib.Tactic.SplitIfs

/-!
# The submessage walks of the packet matchers

`CustomMatcher.h` has two matchers for the packets a writer sends: one looks for a DATA
submessage with a given sequence number, the other for any DATA submessage.  Each walks
over the submessages of a packet with a loop of its own.  The position is 16 bits wide,
and so is the sum that advances it.

The RTPS library that deserializes the submessages is not part of the repository.  All
that is said here holds for whatever it reads out of the bytes it is given.

Both loops are turned into one description of what stands at a position of the packet.
They differ in the DATA submessages only: the first loop ends at the one it looks for,
the second remembers that there was one and goes on.
-/

namespace EmbeddedRtps.Matcher

open Foundation Port StateTransition

/-- `SequenceNumber_t`. -/
structure SequenceNumber where
  high : Int32
  low : UInt32
  deriving DecidableEq, Repr

structure SubmessageHeader where
  submessageId : UInt8
  octetsToNextHeader : UInt16
  deriving DecidableEq, Repr

structure SubmessageData where
  writerSN : SequenceNumber
  deriving DecidableEq, Repr

def Header.getRawSize : UInt16 := 20

def SubmessageHeader.getRawSize : UInt16 := 4

/-- `deserializeMessage` for the two types the matchers use, and the code of
`SubmessageKind::DATA`. -/
structure Deserializer where
  dataKind : UInt8
  submessageHeader : List UInt8 → SubmessageHeader
  submessageData : List UInt8 → SubmessageData

/-! ## The two loops -/

/-- The body that both loops have.  What follows at the end of the packet, after a copy
that is short, after a DATA submessage and after another one is up to the matcher; the
latter two are given the position of the next submessage. -/
def turnAt {Outcome : Type} (deserializer : Deserializer) (buffer : Pbuf)
    (position : UInt16) (ended short : Outcome) (data : SubmessageData → UInt16 → Outcome)
    (other : UInt16 → Outcome) : Outcome :=
  if position < buffer.totLen then
    match buffer.copyAll SubmessageHeader.getRawSize.toNat position with
    | none => short
    | some serializedSubMsg =>
        let subHeader := deserializer.submessageHeader serializedSubMsg
        let octets := subHeader.octetsToNextHeader
        let next := position + (octets + SubmessageHeader.getRawSize)
        if subHeader.submessageId = deserializer.dataKind then
          match buffer.copyAll (SubmessageHeader.getRawSize.toNat + octets.toNat) position with
          | none => short
          | some serializedDataSubMsg =>
              data (deserializer.submessageData serializedDataSubMsg) next
        else
          other next
  else
    ended

/-- One turn of the loop in `HasDataWithSequenceNumber`. -/
def hasDataWithSequenceNumberTurn (deserializer : Deserializer) (expected : SequenceNumber)
    (buffer : Pbuf) (position : UInt16) : Turn UInt16 Bool :=
  turnAt deserializer buffer position (.done false) (.done false)
    (fun dataSubMsg next =>
      if dataSubMsg.writerSN = expected then .done true else .again next)
    .again

/-- One turn of the loop in `HasDataSubmessage`.  It only prints the sequence number, and
forgets what it has found when a copy is short. -/
def hasDataSubmessageTurn (deserializer : Deserializer) (buffer : Pbuf) :
    UInt16 × Bool → Turn (UInt16 × Bool) Bool
  | (position, result) =>
      turnAt deserializer buffer position (.done result) (.done false)
        (fun _ next => .again (next, true))
        (fun next => .again (next, result))

/-- `HasDataWithSequenceNumber`, run for at most as many turns as its last argument
says. -/
def hasDataWithSequenceNumber (deserializer : Deserializer) (expected : SequenceNumber)
    (buffer : Pbuf) : Nat → Option Bool :=
  loop (hasDataWithSequenceNumberTurn deserializer expected buffer) Header.getRawSize

/-- `HasDataSubmessage`, likewise. -/
def hasDataSubmessage (deserializer : Deserializer) (buffer : Pbuf) : Nat → Option Bool :=
  loop (hasDataSubmessageTurn deserializer buffer) (Header.getRawSize, false)

/-! ## What stands at a position -/

/-- What a walk finds at a position, with the position of what comes next. -/
inductive Submessage where
  /-- The packet ends before. -/
  | outside
  /-- The packet ends within the header, or within a DATA submessage. -/
  | truncated
  | data (writerSN : SequenceNumber) (next : UInt16)
  | other (next : UInt16)
  deriving DecidableEq, Repr

def Submessage.next? : Submessage → Option UInt16
  | .outside | .truncated => none
  | .data _ next | .other next => some next

def Submessage.isData : Submessage → Bool
  | .data _ _ => true
  | .outside | .truncated | .other _ => false

namespace Deserializer

/-- The header whose bytes begin at this position. -/
def headerAt (deserializer : Deserializer) (bytes : List UInt8) (position : UInt16) :
    SubmessageHeader :=
  deserializer.submessageHeader (window bytes position.toNat 4)

/-- The end of the submessage at this position as its header announces it. -/
def announcedEnd (deserializer : Deserializer) (bytes : List UInt8) (position : UInt16) :
    Nat :=
  position.toNat + (4 + (deserializer.headerAt bytes position).octetsToNextHeader.toNat)

/-- The submessage at this position. -/
def submessageAt (deserializer : Deserializer) (bytes : List UInt8) (position : UInt16) :
    Submessage :=
  let header := deserializer.headerAt bytes position
  let finish := deserializer.announcedEnd bytes position
  if position.toNat < bytes.length then
    if position.toNat + 4 ≤ bytes.length then
      if header.submessageId = deserializer.dataKind then
        if finish ≤ bytes.length then
          .data (deserializer.submessageData
            (window bytes position.toNat (4 + header.octetsToNextHeader.toNat))).writerSN
            (.ofNat finish)
        else
          .truncated
      else
        .other (.ofNat finish)
    else
      .truncated
  else
    .outside

/-- The position of the submessage after this one. -/
def next? (deserializer : Deserializer) (bytes : List UInt8) (position : UInt16) :
    Option UInt16 :=
  (deserializer.submessageAt bytes position).next?

/-- The walk over the submessages comes to this position. -/
def Visits (deserializer : Deserializer) (bytes : List UInt8) (position : UInt16) : Prop :=
  Reaches (deserializer.next? bytes) Header.getRawSize position

/-- There is a whole DATA submessage with this sequence number. -/
def Carries (deserializer : Deserializer) (bytes : List UInt8) (writerSN : SequenceNumber) :
    Prop :=
  ∃ position next, deserializer.Visits bytes position ∧
    deserializer.submessageAt bytes position = .data writerSN next

variable {deserializer : Deserializer} {bytes : List UInt8} {position next : UInt16}

theorem next?_eq_some_iff :
    deserializer.next? bytes position = some next ↔
      (∃ writerSN, deserializer.submessageAt bytes position = .data writerSN next) ∨
        deserializer.submessageAt bytes position = .other next := by
  rw [next?]
  cases deserializer.submessageAt bytes position with
  | outside | truncated | data | other => simp [Submessage.next?]

theorem next?_eq_none_iff :
    deserializer.next? bytes position = none ↔
      deserializer.submessageAt bytes position = .outside ∨
        deserializer.submessageAt bytes position = .truncated := by
  rw [next?]
  cases deserializer.submessageAt bytes position with
  | outside | truncated | data | other => simp [Submessage.next?]

/-- A DATA submessage lies in the packet. -/
theorem eq_of_submessageAt_eq_data {writerSN : SequenceNumber}
    (found : deserializer.submessageAt bytes position = .data writerSN next) :
    deserializer.announcedEnd bytes position ≤ bytes.length ∧
      next = .ofNat (deserializer.announcedEnd bytes position) := by
  simp only [submessageAt] at found
  split_ifs at found with _ _ _ whole
  cases found
  exact ⟨whole, rfl⟩

/-- Of other submessages only the header has to. -/
theorem eq_of_submessageAt_eq_other
    (found : deserializer.submessageAt bytes position = .other next) :
    next = .ofNat (deserializer.announcedEnd bytes position) := by
  simp only [submessageAt] at found
  split_ifs at found
  cases found
  rfl

end Deserializer

/-! ## The loops in these terms -/

section Turns

variable {deserializer : Deserializer} {buffer : Pbuf} {position : UInt16}

/-- The 16-bit sum is the announced end modulo `2 ^ 16`. -/
theorem advance_eq_ofNat (deserializer : Deserializer) (bytes : List UInt8)
    (position : UInt16) :
    position + ((deserializer.headerAt bytes position).octetsToNextHeader +
      SubmessageHeader.getRawSize) = .ofNat (deserializer.announcedEnd bytes position) := by
  apply UInt16.toNat_inj.mp
  have size : SubmessageHeader.getRawSize.toNat = 4 := rfl
  simp only [UInt16.toNat_add, UInt16.toNat_ofNat', Deserializer.announcedEnd, size]
  omega

theorem submessageHeader_window (deserializer : Deserializer) (bytes : List UInt8)
    (position : UInt16) :
    deserializer.submessageHeader (window bytes position.toNat 4) =
      deserializer.headerAt bytes position :=
  rfl

theorem copyAll_header (buffer : Pbuf) (position : UInt16) :
    buffer.copyAll SubmessageHeader.getRawSize.toNat position =
      if position.toNat + 4 ≤ buffer.bytes.length then
        some (window buffer.bytes position.toNat 4)
      else
        none :=
  buffer.copyAll_eq position (by decide)

theorem copyAll_submessage (deserializer : Deserializer) (buffer : Pbuf)
    (position : UInt16) :
    buffer.copyAll (SubmessageHeader.getRawSize.toNat +
      (deserializer.headerAt buffer.bytes position).octetsToNextHeader.toNat) position =
      if deserializer.announcedEnd buffer.bytes position ≤ buffer.bytes.length then
        some (window buffer.bytes position.toNat
          (4 + (deserializer.headerAt buffer.bytes position).octetsToNextHeader.toNat))
      else
        none :=
  buffer.copyAll_eq position (Nat.lt_of_lt_of_le (by decide) (Nat.le_add_right _ _))

/-- A turn does what the submessage at its position asks for. -/
theorem turnAt_eq {Outcome : Type} (ended short : Outcome)
    (data : SubmessageData → UInt16 → Outcome) (other : UInt16 → Outcome) :
    turnAt deserializer buffer position ended short data other =
      match deserializer.submessageAt buffer.bytes position with
      | .outside => ended
      | .truncated => short
      | .data writerSN next => data ⟨writerSN⟩ next
      | .other next => other next := by
  simp only [turnAt, Deserializer.submessageAt, Pbuf.lt_totLen_iff, copyAll_header]
  by_cases inside : position.toNat < buffer.bytes.length
  · by_cases header : position.toNat + 4 ≤ buffer.bytes.length
    · simp only [if_pos inside, if_pos header, submessageHeader_window, advance_eq_ofNat,
        copyAll_submessage]
      by_cases isData :
          (deserializer.headerAt buffer.bytes position).submessageId = deserializer.dataKind
      · by_cases whole :
            deserializer.announcedEnd buffer.bytes position ≤ buffer.bytes.length
        · simp only [if_pos isData, if_pos whole]
        · simp only [if_pos isData, if_neg whole]
      · simp only [if_neg isData]
    · simp only [if_pos inside, if_neg header]
  · simp only [if_neg inside]

/-- The first loop follows the submessages, except that it ends at the one it looks
for. -/
theorem hasDataWithSequenceNumberTurn_eq (expected : SequenceNumber) :
    hasDataWithSequenceNumberTurn deserializer expected buffer position =
      match deserializer.submessageAt buffer.bytes position with
      | .outside | .truncated => .done false
      | .data writerSN next => if writerSN = expected then .done true else .again next
      | .other next => .again next := by
  rw [hasDataWithSequenceNumberTurn, turnAt_eq]

/-- The second loop follows the submessages. -/
theorem hasDataSubmessageTurn_eq (result : Bool) :
    hasDataSubmessageTurn deserializer buffer (position, result) =
      match deserializer.submessageAt buffer.bytes position with
      | .outside => .done result
      | .truncated => .done false
      | .data _ next => .again (next, true)
      | .other next => .again (next, result) := by
  rw [hasDataSubmessageTurn, turnAt_eq]

/-- Where there is a next submessage, the first loop goes on or accepts. -/
theorem hasDataWithSequenceNumberTurn_follows {expected : SequenceNumber} {next : UInt16}
    (step : deserializer.next? buffer.bytes position = some next) :
    hasDataWithSequenceNumberTurn deserializer expected buffer position = .again next ∨
      hasDataWithSequenceNumberTurn deserializer expected buffer position = .done true := by
  rw [hasDataWithSequenceNumberTurn_eq]
  rcases Deserializer.next?_eq_some_iff.mp step with ⟨writerSN, found⟩ | found
  · rw [found]
    by_cases hit : writerSN = expected
    · exact Or.inr (if_pos hit)
    · exact Or.inl (if_neg hit)
  · rw [found]
    exact Or.inl rfl

theorem next?_of_again {expected : SequenceNumber} {next : UInt16}
    (turn : hasDataWithSequenceNumberTurn deserializer expected buffer position =
      .again next) : deserializer.next? buffer.bytes position = some next := by
  rw [hasDataWithSequenceNumberTurn_eq] at turn
  rw [Deserializer.next?_eq_some_iff]
  cases found : deserializer.submessageAt buffer.bytes position with
  | outside | truncated => simp [found] at turn
  | data writerSN position =>
      simp only [found] at turn
      split at turn
      next hit => cases turn
      next miss =>
        cases turn
        exact Or.inl ⟨writerSN, rfl⟩
  | other position =>
      simp only [found] at turn
      cases turn
      exact Or.inr rfl

/-- Where there is none, it rejects. -/
theorem hasDataWithSequenceNumberTurn_eq_done_false_iff (expected : SequenceNumber) :
    hasDataWithSequenceNumberTurn deserializer expected buffer position = .done false ↔
      deserializer.next? buffer.bytes position = none := by
  rw [hasDataWithSequenceNumberTurn_eq, Deserializer.next?]
  cases deserializer.submessageAt buffer.bytes position with
  | outside | truncated => simp [Submessage.next?]
  | data writerSN next =>
      simp only [Submessage.next?]
      split <;> simp
  | other next => simp [Submessage.next?]

/-- What the first loop visits is visited by the walk. -/
theorem visits_of_reaches {expected : SequenceNumber}
    (reaches : Reaches (fun position =>
      (hasDataWithSequenceNumberTurn deserializer expected buffer position).next?)
        Header.getRawSize position) : deserializer.Visits buffer.bytes position :=
  Relation.ReflTransGen.mono
    (fun _ _ taken => next?_of_again (Turn.next?_eq_some.mp taken)) _ _ reaches

/-- The first matcher accepts a packet exactly if it carries the sequence number. -/
theorem hasDataWithSequenceNumber_returns_true_iff (expected : SequenceNumber) :
    Returns (hasDataWithSequenceNumber deserializer expected buffer) true ↔
      deserializer.Carries buffer.bytes expected := by
  constructor
  · intro accepted
    obtain ⟨position, reaches, finished⟩ := returns_loop_iff.mp accepted
    rw [hasDataWithSequenceNumberTurn_eq] at finished
    cases found : deserializer.submessageAt buffer.bytes position with
    | outside | truncated | other => simp [found] at finished
    | data writerSN next =>
        simp only [found] at finished
        split at finished
        next hit =>
          subst hit
          exact ⟨position, next, visits_of_reaches reaches, found⟩
        next => cases finished
  · rintro ⟨position, next, visits, found⟩
    have hit : hasDataWithSequenceNumberTurn deserializer expected buffer position =
        .done true := by
      rw [hasDataWithSequenceNumberTurn_eq, found]
      exact if_pos rfl
    obtain ⟨result, rfl, returned⟩ := exists_returns_of_reaches (· = true)
      (fun _ _ step => (hasDataWithSequenceNumberTurn_follows step).imp_right
        fun early => ⟨true, rfl, early⟩)
      visits ⟨true, rfl, hit⟩
    exact returned

/-- The second loop goes where the walk goes and remembers DATA submessages. -/
theorem hasDataSubmessageTurn_next? (deserializer : Deserializer) (buffer : Pbuf)
    (position : UInt16) (result : Bool) :
    (hasDataSubmessageTurn deserializer buffer (position, result)).next? =
      (deserializer.next? buffer.bytes position).map fun next =>
        (next, result || (deserializer.submessageAt buffer.bytes position).isData) := by
  rw [hasDataSubmessageTurn_eq, Deserializer.next?]
  cases deserializer.submessageAt buffer.bytes position with
  | outside | truncated => rfl
  | data => simp [Turn.next?, Submessage.next?, Submessage.isData]
  | other => simp [Turn.next?, Submessage.next?, Submessage.isData]

theorem hasDataSubmessage_respects (deserializer : Deserializer) (buffer : Pbuf) :
    Respects (fun state => (hasDataSubmessageTurn deserializer buffer state).next?)
      (deserializer.next? buffer.bytes) fun state position => state.1 = position := by
  rintro ⟨position, result⟩ _ rfl
  simp only [hasDataSubmessageTurn_next?]
  cases step : deserializer.next? buffer.bytes position with
  | none => rfl
  | some next => exact ⟨next, rfl, .single step⟩

theorem ends_hasDataSubmessage_iff :
    Ends (hasDataSubmessage deserializer buffer) ↔
      (eval (deserializer.next? buffer.bytes) Header.getRawSize).Dom := by
  rw [hasDataSubmessage, ends_loop_iff]
  exact (tr_eval_dom (hasDataSubmessage_respects deserializer buffer) rfl).symm

end Turns

/-! ## Packets -/

/-- Numbers with their low byte first, `writerSN` at its place in a DATA submessage. -/
def littleEndian : Deserializer where
  dataKind := 0x15
  submessageHeader bytes :=
    { submessageId := bytes.headD 0
      octetsToNextHeader := .ofNat (Packet.LittleEndian.value (window bytes 2 2)) }
  submessageData bytes :=
    { writerSN :=
        { high := .ofNat (Packet.LittleEndian.value (window bytes 16 4))
          low := .ofNat (Packet.LittleEndian.value (window bytes 20 4)) } }

/-- A header with zeros for its fields. -/
def rtpsHeader : List UInt8 :=
  List.replicate 20 0

/-- A DATA submessage without payload. -/
def dataSubmessage (low : UInt8) : List UInt8 :=
  [0x15, 0x01, 20, 0] ++ List.replicate 16 0 ++ [low, 0, 0, 0]

end EmbeddedRtps.Matcher
