import EmbeddedRtps.Multicast.Consistency

/-!
# How often a sample is completed

A response completes its sample when `++numberOfResponses == numberOfPartners`.
Both sides are 8-bit counters that change independently: an INIT answer moves the
right one at any time, and after 256 responses the left one has gone round.  So the
equality can come true again within one sample, and the sample is measured twice.

There is a second way to have too many entries.  A round clears `m_rtimes` before
its first reset, so a sample completed in between leaves its value in the list of
the next round.
-/

namespace EmbeddedRtps.Multicast

open Foundation Port

/-- `run` stands between the clear of a round and its first reset. -/
def RunPc.roundStarts : RunPc → Bool
  | .reset sample => sample.index == 0
  | _ => false

/-- In a sample that has been completed no INIT answer is counted and no 256 further
responses are, and no sample is completed while a round starts. -/
def CountsOnce (state : State) : Event → Prop
  | .countPartner _ => state.ghost.completions = []
  | .countResponse _ =>
      (∀ completion ∈ state.ghost.completions,
        state.ghost.counted.length + 1 < completion + 256) ∧
      (state.Completes → state.pc.roundStarts = false)
  | _ => True

instance (state : State) (event : Event) : Decidable (CountsOnce state event) :=
  match event with
  | .countPartner _ => inferInstanceAs (Decidable (_ = _))
  | .countResponse _ => inferInstanceAs (Decidable (_ ∧ _))
  | .run _ | .sendFails | .timeout | .answer _ | .loseRequest _ | .loseResponse _
  | .deliver _ _ | .dispatch _ | .signal _ => isTrue trivial

/-- At most one value is appended between two resets, and the list holds at most one
value for each sample of a round. -/
def AppendsOnce (state : State) : Prop :=
  state.ghost.completions.length ≤ 1 ∧ state.rtimes.length ≤ numSamples

instance (state : State) : Decidable (AppendsOnce state) :=
  inferInstanceAs (Decidable (_ ∧ _))

/-- Samples of the round that were over at the last reset. -/
def RunPc.samplesBefore : RunPc → Nat
  | .sendInit | .settle => 0
  | .reset sample => sample.index - 1
  | .startTime sample | .setId sample | .send sample | .wait sample
  | .blocked sample => sample.index
  | .clear _ | .evaluate _ | .finished => numSamples - 1

/-- The sample is completed at most once, by the response whose number is
`numberOfPartners`; the list has grown by at most one for each sample. -/
structure Tallied (state : State) : Prop where
  once : state.ghost.completions = [] ∨ ∃ completion,
    state.ghost.completions = [completion] ∧
      completion ≤ state.ghost.counted.length ∧
      completion % 256 = state.numberOfPartners
  filled : state.pc.roundStarts = false →
    state.rtimes.length ≤
      state.pc.samplesBefore + state.ghost.completions.length
  emptied : state.pc.roundStarts = true → state.rtimes = []

theorem Tallied.start (currentId : Nat) : Tallied (State.start currentId) where
  once := .inl rfl
  filled _ := Nat.le_refl 0
  emptied _ := rfl

theorem Tallied.completions_le {state : State} (tallied : Tallied state) :
    state.ghost.completions.length ≤ 1 := by
  rcases tallied.once with none | ⟨completion, one, _⟩
  · simp [none]
  · simp [one]

/-- A step of `run` that neither touches the list nor resets the counter. -/
theorem Tallied.move {state : State} (tallied : Tallied state)
    (inside : state.pc.roundStarts = false) (pc : RunPc)
    (stays : pc.roundStarts = false)
    (grows : state.pc.samplesBefore ≤ pc.samplesBefore) :
    Tallied { state with pc := pc } :=
  { tallied with
    filled := fun _ =>
      Nat.le_trans (tallied.filled inside) (Nat.add_le_add_right grows _)
    emptied := fun starts => by cases stays.symm.trans starts }

@[simp] theorem Sample.next_roundStarts (sample : Sample) :
    sample.next.roundStarts = false := by
  simp only [Sample.next]
  split <;> rfl

theorem Sample.le_next_samplesBefore {sample : Sample}
    (inRange : sample.index < numSamples) :
    sample.index ≤ sample.next.samplesBefore := by
  simp only [Sample.next]
  split
  · exact Nat.le_refl _
  · exact Nat.le_sub_one_of_lt inRange

@[simp] theorem nextRound_roundStarts (round : Nat) :
    (nextRound round).roundStarts = false := by
  simp only [nextRound]
  split <;> rfl

@[simp] theorem nextRound_samplesBefore (round : Nat) :
    (nextRound round).samplesBefore = numSamples - 1 := by
  simp only [nextRound]
  split <;> rfl

/-- The reset starts a new tally; one value at most was added to the old one. -/
theorem Tallied.reset {cfg : Config} {state : State} {now : Nat} {sample : Sample}
    (tallied : Tallied state) (here : state.pc = .reset sample) :
    Tallied (state.run cfg now) := by
  have one := tallied.completions_le
  have filled := tallied.filled
  have emptied := tallied.emptied
  rw [here] at filled emptied
  simp only [State.run, here]
  refine ⟨.inl rfl, ?_, fun starts => by cases starts⟩
  intro _
  cases first : sample.index with
  | zero =>
      have empty := emptied (by simp [RunPc.roundStarts, first])
      simp [empty]
  | succ index =>
      have bound := filled (by simp [RunPc.roundStarts, first])
      simp only [RunPc.samplesBefore, first, List.length_nil] at bound ⊢
      omega

theorem Tallied.run {cfg : Config} {state : State} {now : Nat}
    (tallied : Tallied state) (consistent : Consistent state) :
    Tallied (state.run cfg now) := by
  have inRange := consistent.inRange
  cases pcEq : state.pc with
  | sendInit | settle | startTime sample | setId sample | send sample =>
      simp only [State.run, pcEq]
      exact { tallied.move (by rw [pcEq]; rfl) _ rfl
        (by simp [pcEq, RunPc.samplesBefore]) with }
  | clear round =>
      simp only [State.run, pcEq]
      exact { tallied with
        filled := fun starts => by cases starts
        emptied := fun _ => rfl }
  | reset sample => exact tallied.reset pcEq
  | wait sample | blocked sample =>
      rw [pcEq] at inRange
      have ends := Sample.le_next_samplesBefore (inRange sample rfl)
      simp only [State.run, pcEq, State.semWait]
      split
      next =>
        exact tallied.move (by rw [pcEq]; rfl) _ rfl
          (by simp [pcEq, RunPc.samplesBefore])
      next =>
        exact { tallied.move (by rw [pcEq]; rfl) sample.next (by simp)
          (by rw [pcEq]; exact ends) with }
  | evaluate round =>
      have moved := tallied.move (by rw [pcEq]; rfl) (nextRound round) (by simp)
        (by rw [pcEq, nextRound_samplesBefore]; exact Nat.le_refl _)
      simp only [State.run, pcEq]
      exact { moved with
        filled := fun starts => by
          simpa only [List.length_insertionSort] using moved.filled starts
        emptied := fun starts => by simp at starts }
  | finished =>
      simp only [State.run, pcEq]
      exact tallied

/-- A completed sample is not completed again: the counter would have to come back
to a value it left less than 256 responses ago. -/
theorem Tallied.not_completes {state : State} (tallied : Tallied state)
    (consistent : Consistent state) (completes : state.Completes)
    (near : ∀ completion ∈ state.ghost.completions,
      state.ghost.counted.length + 1 < completion + 256) :
    state.ghost.completions = [] := by
  rcases tallied.once with none | ⟨completion, one, before, number⟩
  · exact none
  · have bound := near completion (by simp [one])
    have counter := consistent.counter
    simp only [State.Completes] at completes
    omega

theorem Tallied.countResponse {state : State} {delivery : Delivery}
    (tallied : Tallied state) (consistent : Consistent state)
    (admitted : CountsOnce state (.countResponse delivery)) :
    Tallied (state.countResponse delivery) := by
  simp only [State.countResponse]
  split
  next completes =>
    have fresh := tallied.not_completes consistent completes admitted.1
    have inside := admitted.2 completes
    have counter := consistent.counter
    refine ⟨.inr ⟨state.ghost.counted.length + 1, ?_, ?_, ?_⟩, ?_, ?_⟩
    · simp [fresh]
    · simp
    · change (state.ghost.counted.length + 1) % 256 = state.numberOfPartners
      simp only [State.Completes] at completes
      omega
    · intro starts
      have filled := tallied.filled inside
      simp only [List.length_append, List.length_singleton]
      omega
    · intro starts
      cases inside.symm.trans starts
  next =>
    refine { tallied with once := ?_ }
    rcases tallied.once with none | ⟨completion, one, before, number⟩
    · exact .inl none
    · refine .inr ⟨completion, one, ?_, number⟩
      simp only [List.length_append, List.length_singleton]
      omega

theorem Tallied.apply {cfg : Config} {state : State} {event : Event}
    (tallied : Tallied state) (consistent : Consistent state)
    (admitted : CountsOnce state event) : Tallied (state.apply cfg event) := by
  cases event with
  | run now => exact tallied.run consistent
  | sendFails =>
      simp only [State.apply, State.sendFails]
      split
      next pcEq =>
        exact tallied.move (by rw [pcEq]; rfl) .settle rfl
          (by rw [pcEq]; exact Nat.le_refl _)
      next sample pcEq =>
        exact tallied.move (by rw [pcEq]; rfl) (.wait sample) rfl
          (by rw [pcEq]; exact Nat.le_refl _)
      next => exact tallied
  | timeout =>
      simp only [State.apply, State.timeout]
      split
      next sample pcEq =>
        have inRange := consistent.inRange sample (by rw [pcEq]; rfl)
        exact tallied.move (by rw [pcEq]; rfl) sample.next (by simp)
          (by rw [pcEq]; exact Sample.le_next_samplesBefore inRange)
      next => exact tallied
  | answer exchange | loseRequest exchange | loseResponse exchange
  | deliver exchange now | signal sample => exact { tallied with }
  | dispatch delivery =>
      obtain ⟨_, _, _, dispatched⟩ := state.exists_dispatch_eq cfg delivery
      rw [State.apply, dispatched]
      exact { tallied with }
  | countPartner delivery =>
      exact { tallied with once := .inl admitted }
  | countResponse delivery => exact tallied.countResponse consistent admitted

theorem Consistent.samplesBefore_lt {state : State} (consistent : Consistent state) :
    state.pc.samplesBefore < numSamples := by
  have inRange := consistent.inRange
  have positive : 0 < numSamples := by decide
  cases pcEq : state.pc with
  | sendInit | settle => exact positive
  | clear round | evaluate round | finished =>
      exact Nat.sub_one_lt (Nat.pos_iff_ne_zero.mp positive)
  | reset sample =>
      rw [pcEq] at inRange
      exact Nat.lt_of_le_of_lt (Nat.sub_le _ _) (inRange sample rfl)
  | startTime sample | setId sample | send sample | wait sample | blocked sample =>
      rw [pcEq] at inRange
      exact inRange sample rfl

/-- In every run that counts no INIT answer and no 256 further responses in a
completed sample, and completes none between the clear of a round and its first
reset, each sample appends at most one value and the list never outgrows a round. -/
theorem appendsOnce_of_countsOnce {cfg : Config} {currentId : Nat} {state : State}
    (reached : (machine cfg).Reaches CountsOnce (State.start currentId) state) :
    AppendsOnce state := by
  have tallied : Tallied state :=
    reached.invariant (Tallied.start currentId)
      fun _ _ before tallied _ admitted =>
        tallied.apply (Consistent.of_reaches before) admitted
  have before := (Consistent.of_reaches reached).samplesBefore_lt
  have one := tallied.completions_le
  refine ⟨one, ?_⟩
  cases starts : state.pc.roundStarts with
  | true => simp [tallied.emptied starts]
  | false =>
      have filled := tallied.filled starts
      omega

/-- Both responders are counted as partners, both answer the first sample and the
second answer completes it. -/
theorem appendsOnce_first_sample :
    ∃ state, (machine twoResponders).Reaches CountsOnce (State.start 0) state ∧
      state.rtimes ≠ [] ∧ AppendsOnce state := by
  obtain ⟨state, reached, measured⟩ :
      ∃ state, (machine twoResponders).Reaches CountsOnce (State.start 0) state ∧
        state.rtimes ≠ [] :=
    Machine.exists_reaches_of_exec (greetings twoResponders ++ [.run 0, .run 0] ++
      opening 1000 ++ response ⟨⟨0, true⟩, .sample ⟨0, 0⟩⟩ 5000 ++
      response ⟨⟨1, true⟩, .sample ⟨0, 0⟩⟩ 6000) (by decide)
  exact ⟨state, reached, measured, appendsOnce_of_countsOnce reached⟩

/-- Only the first responder is counted before the measurement.  Its response
completes the first sample; then the INIT answer of the second responder is
counted, and its response completes the same sample again. -/
theorem late_partner_appends_twice :
    ∃ state, (machine twoResponders).Reaches Machine.AnyStep (State.start 0) state ∧
      ¬ AppendsOnce state :=
  Machine.exists_reaches_of_exec ([.run 0] ++ arrival ⟨⟨0, true⟩, .init⟩ 0 ++
    [.countPartner ⟨⟨⟨0, true⟩, .init⟩, 0⟩, .run 0, .run 0] ++ opening 1000 ++
    response ⟨⟨0, true⟩, .sample ⟨0, 0⟩⟩ 5000 ++ arrival ⟨⟨1, true⟩, .init⟩ 6000 ++
    [.countPartner ⟨⟨⟨1, true⟩, .init⟩, 6000⟩] ++
    response ⟨⟨1, true⟩, .sample ⟨0, 0⟩⟩ 7000) (by decide)

end EmbeddedRtps.Multicast
