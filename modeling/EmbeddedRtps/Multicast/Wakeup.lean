import EmbeddedRtps.Multicast.Consistency

/-!
# Whose signal ends a wait

A callback that completes a sample raises the signal after it has released the
lock, and nothing empties the semaphore between two samples.  A signal therefore
outlives its sample when the wait has already timed out, when it times out between
the append and the signal, or when it times out although the signal is there: the
port does not look at the counter again after a timeout.

Runs without these three orders have the semaphore empty at every reset.
-/

namespace EmbeddedRtps.Multicast

open Foundation Port

/-- `run` is in `sys_arch_sem_wait`. -/
def RunPc.waits : RunPc → Bool
  | .wait _ | .blocked _ => true
  | _ => false

/-- A sample is completed only while it is open, and its wait does not return while
a signal is still to be raised or, on a timeout, still to be taken. -/
def SignalsInTime (state : State) : Event → Prop
  | .countResponse _ => state.Completes → state.pc.opened.isSome = true
  | .timeout => state.sem.c = 0 ∧ state.finishing = []
  | .run _ => state.pc.waits = true → state.sem.c ≠ 0 → state.finishing = []
  | _ => True

instance (state : State) (event : Event) : Decidable (SignalsInTime state event) :=
  match event with
  | .countResponse _ => inferInstanceAs (Decidable (_ → _))
  | .timeout => inferInstanceAs (Decidable (_ ∧ _))
  | .run _ => inferInstanceAs (Decidable (_ → _ → _))
  | .sendFails | .answer _ | .loseRequest _ | .loseResponse _ | .deliver _ _
  | .dispatch _ | .countPartner _ | .signal _ => isTrue trivial

/-- A signal was raised, and only by callbacks that completed `sample`. -/
def RaisedIn (sample : Sample) (raisedBy : List (Option Sample)) : Prop :=
  raisedBy ≠ [] ∧ ∀ raiser ∈ raisedBy, raiser = some sample

instance (sample : Sample) (raisedBy : List (Option Sample)) :
    Decidable (RaisedIn sample raisedBy) :=
  inferInstanceAs (Decidable (_ ∧ _))

/-- Every wait that did not time out was ended by its own sample. -/
def WokenInSample (state : State) : Prop :=
  ∀ wakeup ∈ state.ghost.wakeups, RaisedIn wakeup.sample wakeup.raisedBy

instance (state : State) : Decidable (WokenInSample state) :=
  inferInstanceAs (Decidable (∀ wakeup ∈ state.ghost.wakeups, _))

/-- No signal of an earlier sample is around while a sample is open, and none at all
while no sample is. -/
structure Punctual (state : State) : Prop where
  ofOpen : ∀ sample, state.pc.opened = some sample →
    (∀ raiser ∈ state.finishing, raiser = some sample) ∧
      ∀ raiser ∈ state.ghost.raisedBy, raiser = some sample
  ofClosed : state.pc.opened = none →
    state.finishing = [] ∧ state.ghost.raisedBy = []
  woken : WokenInSample state

theorem Punctual.start (currentId : Nat) : Punctual (State.start currentId) where
  ofOpen _ opened := by cases opened
  ofClosed _ := ⟨rfl, rfl⟩
  woken _ member := by cases member

/-- A step of `run` between two samples, or from one statement of a sample to the
next. -/
theorem Punctual.move {state : State} (punctual : Punctual state) (pc : RunPc)
    (same : pc.opened = state.pc.opened) : Punctual { state with pc := pc } :=
  { punctual with
    ofOpen := fun sample opened => punctual.ofOpen sample (same ▸ opened)
    ofClosed := fun closed => punctual.ofClosed (same ▸ closed) }

/-- The reset opens a sample when no signal is around. -/
theorem Punctual.reset {state : State} (punctual : Punctual state)
    (closed : state.pc.opened = none) (pc : RunPc) :
    Punctual { state with pc := pc } := by
  obtain ⟨finishing, raised⟩ := punctual.ofClosed closed
  refine { punctual with ofOpen := ?_, ofClosed := fun _ => ⟨finishing, raised⟩ }
  intro sample _
  constructor
  · intro raiser member
    simp only [finishing] at member
    cases member
  · intro raiser member
    simp only [raised] at member
    cases member

theorem Punctual.semWait {state : State} (punctual : Punctual state)
    (consistent : Consistent state) {sample : Sample}
    (here : state.pc.opened = some sample)
    (ready : state.sem.c ≠ 0 → state.finishing = []) :
    Punctual (state.semWait sample) := by
  simp only [State.semWait]
  split
  next => exact punctual.move (.blocked sample) here.symm
  next taken take =>
    have count := consistent.take take
    refine {
      ofOpen := fun _ opened => by simp at opened
      ofClosed := fun _ => ⟨ready (by omega), rfl⟩
      woken := ?_ }
    intro wakeup member
    rcases List.mem_append.mp member with earlier | latest
    · exact punctual.woken wakeup earlier
    · rcases List.mem_singleton.mp latest
      exact ⟨count.2.2, (punctual.ofOpen sample here).2⟩

theorem Punctual.run {cfg : Config} {state : State} {now : Nat}
    (punctual : Punctual state) (consistent : Consistent state)
    (inTime : SignalsInTime state (.run now)) : Punctual (state.run cfg now) := by
  cases pcEq : state.pc with
  | sendInit | settle | clear round | startTime sample | setId sample
  | send sample =>
      simp only [State.run, pcEq]
      exact { punctual.move _ (by rw [pcEq]; rfl) with }
  | reset sample =>
      simp only [State.run, pcEq]
      exact { punctual.reset (by rw [pcEq]; rfl) (.startTime sample) with }
  | wait sample | blocked sample =>
      simp only [State.run, pcEq]
      exact punctual.semWait consistent (by rw [pcEq]; rfl)
        (inTime (by rw [pcEq]; rfl))
  | evaluate round =>
      simp only [State.run, pcEq]
      exact { punctual.move (nextRound round)
        (by rw [pcEq]; exact nextRound_opened round) with }
  | finished =>
      simp only [State.run, pcEq]
      exact punctual

/-- A completed sample is the open one, so its callback will raise the right
signal. -/
theorem Punctual.countResponse {state : State} {delivery : Delivery}
    (punctual : Punctual state) (consistent : Consistent state)
    (inTime : SignalsInTime state (.countResponse delivery)) :
    Punctual (state.countResponse delivery) := by
  simp only [State.countResponse]
  split
  next completes =>
    obtain ⟨place, opened⟩ := Option.isSome_iff_exists.mp (inTime completes)
    refine { punctual with ofOpen := ?_, ofClosed := ?_ }
    · intro sample here
      refine ⟨?_, (punctual.ofOpen sample here).2⟩
      intro raiser member
      rcases List.mem_append.mp member with earlier | latest
      · exact (punctual.ofOpen sample here).1 raiser earlier
      · exact (List.mem_singleton.mp latest).trans (consistent.located sample here)
    · intro closed
      cases opened.symm.trans closed
  next => exact { punctual with }

theorem Punctual.signal {state : State} {raiser : Option Sample}
    (punctual : Punctual state) (finishing : raiser ∈ state.finishing) :
    Punctual (state.signal raiser) where
  ofOpen sample here := by
    obtain ⟨pending, raised⟩ := punctual.ofOpen sample here
    constructor
    · intro other member
      exact pending other (List.mem_of_mem_erase member)
    · intro other member
      rcases List.mem_append.mp member with earlier | latest
      · exact raised other earlier
      · rcases List.mem_singleton.mp latest
        exact pending raiser finishing
  ofClosed closed := by
    rw [(punctual.ofClosed closed).1] at finishing
    cases finishing
  woken := punctual.woken

theorem Punctual.apply {cfg : Config} {state : State} {event : Event}
    (punctual : Punctual state) (consistent : Consistent state)
    (enabled : Enabled state event) (inTime : SignalsInTime state event) :
    Punctual (state.apply cfg event) := by
  cases event with
  | run now => exact punctual.run consistent inTime
  | sendFails =>
      simp only [State.apply, State.sendFails]
      split
      next pcEq => exact punctual.move .settle (by rw [pcEq]; rfl)
      next sample pcEq => exact punctual.move (.wait sample) (by rw [pcEq]; rfl)
      next => exact punctual
  | timeout =>
      simp only [State.apply, State.timeout]
      split
      next sample _ =>
        have raised : state.ghost.raisedBy = [] := by
          rcases consistent.semaphore with ⟨_, raised⟩ | ⟨signalled, _⟩
          · exact raised
          · cases inTime.1.symm.trans signalled
        exact { punctual with
          ofOpen := fun _ opened => by simp at opened
          ofClosed := fun _ => ⟨inTime.2, raised⟩ }
      next => exact punctual
  | answer exchange | loseRequest exchange | loseResponse exchange
  | deliver exchange now | countPartner delivery => exact { punctual with }
  | dispatch delivery =>
      obtain ⟨_, _, _, dispatched⟩ := state.exists_dispatch_eq cfg delivery
      rw [State.apply, dispatched]
      exact { punctual with }
  | countResponse delivery => exact punctual.countResponse consistent inTime
  | signal raiser => exact punctual.signal enabled

/-- In every run that completes samples and takes their signals in time, a wait that
does not time out is ended by a callback that appended a value in its own sample,
and a sample that starts to wait finds no signal of an earlier one. -/
theorem wokenInSample_of_signalsInTime {cfg : Config} {currentId : Nat}
    {state : State}
    (reached : (machine cfg).Reaches SignalsInTime (State.start currentId) state) :
    WokenInSample state ∧
      ∀ sample, state.pc = .wait sample →
        ∀ raiser ∈ state.ghost.raisedBy, raiser = some sample := by
  have punctual : Punctual state :=
    reached.invariant (Punctual.start currentId)
      fun _ _ before punctual enabled inTime =>
        punctual.apply (Consistent.of_reaches before) enabled inTime
  refine ⟨punctual.woken, ?_⟩
  intro sample waiting
  exact (punctual.ofOpen sample (by rw [waiting]; rfl)).2

/-- The first sample is completed while it waits, the second one times out with a response
missing, and the third one is completed again. -/
theorem wokenInSample_third_sample :
    ∃ state, (machine twoResponders).Reaches SignalsInTime (State.start 0) state ∧
      state.ghost.wakeups.map Wakeup.sample = [⟨0, 0⟩, ⟨0, 2⟩] ∧ WokenInSample state := by
  obtain ⟨state, reached, woken⟩ :
      ∃ state, (machine twoResponders).Reaches SignalsInTime (State.start 0) state ∧
        state.ghost.wakeups.map Wakeup.sample = [⟨0, 0⟩, ⟨0, 2⟩] :=
    Machine.exists_reaches_of_exec (greetings twoResponders ++ [.run 0, .run 0] ++
      answered ⟨0, true⟩ ⟨1, true⟩ ⟨0, 0⟩ 1000 ++ opening 10000 ++
      response ⟨⟨1, true⟩, .sample ⟨0, 1⟩⟩ 11000 ++ [.timeout] ++
      answered ⟨1, true⟩ ⟨0, true⟩ ⟨0, 2⟩ 20000) (by decide +kernel)
  exact ⟨state, reached, woken, (wokenInSample_of_signalsInTime reached).1⟩

/-- The wait of the first sample times out, then its response arrives and completes
it.  The second sample finds the signal and does not wait for its own response. -/
theorem leftover_signal_wakes :
    ∃ state, (machine oneResponder).Reaches Machine.AnyStep (State.start 0) state ∧
      ¬ WokenInSample state :=
  Machine.exists_reaches_of_exec (greetings oneResponder ++ [.run 0, .run 0] ++
    opening 1000 ++ [.timeout] ++ response (oneExchange 0) 5000 ++
    [.signal (some ⟨0, 0⟩)] ++ opening 6000) (by decide)

end EmbeddedRtps.Multicast
