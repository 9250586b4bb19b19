import EmbeddedRtps.Multicast.Sender

/-!
# What holds in every run

Facts about the sender that need no assumption on the network or the schedule.
They tie the program counter to the ghost state: which sample is open, what
`currentId` is for it, what `numberOfResponses` counts and when the semaphore
holds a signal.
-/

namespace EmbeddedRtps.Multicast

open Foundation Port

/-- The sample whose reset has been made and whose wait has not returned. -/
def RunPc.opened : RunPc → Option Sample
  | .startTime sample | .setId sample | .send sample | .wait sample
  | .blocked sample => some sample
  | _ => none

/-- `run` stands between the reset of a sample and the change of `currentId`. -/
def RunPc.idPending : RunPc → Bool
  | .startTime _ | .setId _ => true
  | _ => false

/-- The sample `run` is at, from just before its reset to the return of its
wait. -/
def RunPc.place : RunPc → Option Sample
  | .reset sample => some sample
  | pc => pc.opened

/-- The general invariant of the sender. -/
structure Consistent (state : State) : Prop where
  located : ∀ sample, state.pc.opened = some sample →
    state.ghost.sample = some sample
  inRange : ∀ sample, state.pc.place = some sample → sample.index < numSamples
  currentId : state.pc.idPending = false → ∀ sample,
    state.ghost.sample = some sample → state.currentId = sample.index
  counter : state.numberOfResponses = state.ghost.counted.length % 256
  semaphore : (state.sem.c = 0 ∧ state.ghost.raisedBy = []) ∨
    (state.sem.c = 1 ∧ state.ghost.raisedBy ≠ [])

@[simp] theorem Sample.next_opened (sample : Sample) :
    sample.next.opened = none := by
  simp only [Sample.next]
  split <;> rfl

theorem Sample.next_place {sample after : Sample}
    (next : sample.next.place = some after) :
    after = ⟨sample.round, sample.index + 1⟩ ∧ after.index < numSamples := by
  simp only [Sample.next] at next
  split at next
  next inside =>
    cases next
    exact ⟨rfl, inside⟩
  next => cases next

@[simp] theorem nextRound_opened (round : Nat) :
    (nextRound round).opened = none := by
  simp only [nextRound]
  split <;> rfl

@[simp] theorem nextRound_place (round : Nat) :
    (nextRound round).place = none := by
  simp only [nextRound]
  split <;> rfl

theorem Consistent.start (currentId : Nat) : Consistent (State.start currentId) where
  located _ opened := by cases opened
  inRange _ place := by cases place
  currentId _ _ located := by cases located
  counter := rfl
  semaphore := .inl ⟨rfl, rfl⟩

/-- Taking the signal leaves the semaphore empty. -/
theorem Consistent.take {state : State} (consistent : Consistent state)
    {taken : SysSem} (take : state.sem.take? = some taken) :
    state.sem.c = 1 ∧ taken.c = 0 ∧ state.ghost.raisedBy ≠ [] := by
  have count := SysSem.take?_eq_some.mp take
  rcases consistent.semaphore with ⟨empty, _⟩ | ⟨signalled, raised⟩
  · omega
  · exact ⟨signalled, by omega, raised⟩

/-- A step within a sample that leaves the counters alone. -/
theorem Consistent.advance {state : State} (consistent : Consistent state) (pc : RunPc)
    (opened : pc.opened = state.pc.opened) (place : pc.place = state.pc.place)
    (settled : pc.idPending = false → state.pc.idPending = false) :
    Consistent { state with pc := pc } :=
  { consistent with
    located := fun sample here => consistent.located sample (opened.symm.trans here)
    inRange := fun sample there => consistent.inRange sample (place.symm.trans there)
    currentId := fun pending => consistent.currentId (settled pending) }

theorem Consistent.semWait {state : State} (consistent : Consistent state)
    {sample : Sample} (here : state.pc.opened = some sample)
    (there : state.pc.place = some sample) (settled : state.pc.idPending = false) :
    Consistent (state.semWait sample) := by
  simp only [State.semWait]
  split
  next =>
    exact consistent.advance (.blocked sample) here.symm there.symm fun _ => settled
  next taken take =>
    exact {
      consistent with
      located := fun _ opened => by simp at opened
      inRange := fun _ place => (Sample.next_place place).2
      currentId := fun _ => consistent.currentId settled
      semaphore := .inl ⟨(consistent.take take).2.1, rfl⟩ }

/-- A step that opens no sample and leaves the counters alone. -/
theorem Consistent.leave {state : State} (consistent : Consistent state)
    (settled : state.pc.idPending = false) (pc : RunPc)
    (opened : pc.opened = none)
    (inRange : ∀ sample, pc.place = some sample → sample.index < numSamples) :
    Consistent { state with pc := pc } :=
  { consistent with
    located := fun _ here => by rw [opened] at here; cases here
    inRange := inRange
    currentId := fun _ => consistent.currentId settled }

theorem Consistent.run {state : State} (consistent : Consistent state)
    (cfg : Config) (now : Nat) : Consistent (state.run cfg now) := by
  have inRange := consistent.inRange
  have located := consistent.located
  cases pcEq : state.pc with
  | sendInit | settle =>
      simp only [State.run, pcEq]
      exact { consistent.leave (by rw [pcEq]; rfl) _ rfl
        (fun _ place => by cases place) with }
  | clear round =>
      simp only [State.run, pcEq]
      have first : 0 < numSamples := by decide
      exact { consistent.leave (by rw [pcEq]; rfl) (.reset ⟨round, 0⟩) rfl
        (fun _ place => by cases place; exact first) with }
  | reset sample =>
      simp only [State.run, pcEq]
      rw [pcEq] at inRange
      exact {
        located := fun _ opened => opened
        inRange := fun _ place => inRange _ place
        currentId := fun pending => by cases pending
        counter := rfl
        semaphore := consistent.semaphore }
  | startTime sample =>
      simp only [State.run, pcEq]
      exact { consistent.advance (.setId sample) (by rw [pcEq]; rfl) (by rw [pcEq]; rfl)
        (fun pending => by cases pending) with }
  | setId sample =>
      simp only [State.run, pcEq]
      rw [pcEq] at inRange located
      exact { consistent with
        located := fun _ opened => located _ opened
        inRange := fun _ place => inRange _ place
        currentId := fun _ _ here => by
          cases (located sample rfl).symm.trans here
          rfl }
  | send sample =>
      simp only [State.run, pcEq]
      exact { consistent.advance (.wait sample) (by rw [pcEq]; rfl) (by rw [pcEq]; rfl)
        (fun _ => by rw [pcEq]; rfl) with }
  | wait sample | blocked sample =>
      simp only [State.run, pcEq]
      exact consistent.semWait (by rw [pcEq]; rfl) (by rw [pcEq]; rfl)
        (by rw [pcEq]; rfl)
  | evaluate round =>
      simp only [State.run, pcEq]
      exact { consistent.leave (by rw [pcEq]; rfl) (nextRound round) (by simp)
        (fun _ place => by simp at place) with }
  | finished =>
      simp only [State.run, pcEq]
      exact consistent

theorem Consistent.countResponse {state : State} (consistent : Consistent state)
    (delivery : Delivery) : Consistent (state.countResponse delivery) := by
  have counter : (state.numberOfResponses + 1) % 256 =
      (state.ghost.counted ++ [delivery.exchange]).length % 256 := by
    rw [consistent.counter, List.length_append, List.length_singleton]
    omega
  simp only [State.countResponse]
  split
  · exact { consistent with counter := counter }
  · exact { consistent with counter := counter }

theorem Consistent.apply {state : State} (consistent : Consistent state)
    (cfg : Config) (event : Event) : Consistent (state.apply cfg event) := by
  cases event with
  | run now => exact consistent.run cfg now
  | sendFails =>
      simp only [State.apply, State.sendFails]
      split
      next pcEq =>
        exact consistent.leave (by rw [pcEq]; rfl) _ rfl (fun _ place => by cases place)
      next sample pcEq =>
        exact consistent.advance (.wait sample) (by rw [pcEq]; rfl) (by rw [pcEq]; rfl)
          fun _ => by rw [pcEq]; rfl
      next => exact consistent
  | timeout =>
      simp only [State.apply, State.timeout]
      split
      next sample pcEq =>
        exact consistent.leave (by rw [pcEq]; rfl) _ (by simp)
          (fun _ place => (Sample.next_place place).2)
      next => exact consistent
  | answer exchange | loseRequest exchange | loseResponse exchange
  | deliver exchange now | countPartner delivery => exact { consistent with }
  | dispatch delivery =>
      obtain ⟨_, _, _, dispatched⟩ := state.exists_dispatch_eq cfg delivery
      rw [State.apply, dispatched]
      exact { consistent with }
  | countResponse delivery => exact consistent.countResponse delivery
  | signal sample =>
      exact { consistent with
        semaphore := .inr ⟨state.sem.signal_c, by simp [State.apply, State.signal]⟩ }

/-- Every reachable state is consistent, whatever the runs are restricted to. -/
theorem Consistent.of_reaches {cfg : Config} {condition : State → Event → Prop}
    {currentId : Nat} {state : State}
    (reached : (machine cfg).Reaches condition (State.start currentId) state) :
    Consistent state :=
  reached.invariant (Consistent.start currentId)
    fun _ event _ consistent _ _ => consistent.apply cfg event

end EmbeddedRtps.Multicast
