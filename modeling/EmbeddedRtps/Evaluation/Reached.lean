import EmbeddedRtps.Evaluation.Report
import EmbeddedRtps.Latency.Unit
import EmbeddedRtps.Multicast.Sender

/-!
# What `evaluate` is called with

The list of times is cleared at the start of each round or message size and grows only
in callbacks.  Timeouts and failing sends all lead on to `evaluate`, so a round in which
no response is recorded ends in a call with an empty list.
-/

namespace EmbeddedRtps

open Foundation Evaluation

/-! ## The multicast sender -/

namespace Multicast

/-- The list is cleared by a round and grows when a response completes a sample. -/
def logAction (state : State) : Event → LogAction
  | .run _ =>
      match state.pc with
      | .clear _ => .clear
      | _ => .keep
  | .countResponse _ => if state.Completes then .append else .keep
  | _ => .keep

@[simp] theorem State.rtimes_semWait (sample : Sample) (state : State) :
    (state.semWait sample).rtimes = state.rtimes := by
  simp only [State.semWait]
  split <;> rfl

@[simp] theorem State.rtimes_sendFails (state : State) :
    state.sendFails.rtimes = state.rtimes := by
  simp only [State.sendFails]
  split <;> rfl

@[simp] theorem State.rtimes_timeout (state : State) :
    state.timeout.rtimes = state.rtimes := by
  simp only [State.timeout]
  split <;> rfl

@[simp] theorem State.rtimes_dispatch (cfg : Config) (delivery : Delivery)
    (state : State) : (state.dispatch cfg delivery).rtimes = state.rtimes := by
  obtain ⟨_, _, _, dispatched⟩ := state.exists_dispatch_eq cfg delivery
  rw [dispatched]

theorem logAction_describes (cfg : Config) (state : State) (event : Event) :
    (logAction state event).Describes state.rtimes (state.apply cfg event).rtimes := by
  cases event with
  | run now =>
      cases pcEq : state.pc with
      | evaluate round =>
          simp only [logAction, pcEq, LogAction.Describes, State.apply, State.run]
          exact List.perm_insertionSort _ _
      | _ => simp [logAction, pcEq, LogAction.Describes, State.apply, State.run]
  | countResponse delivery =>
      simp only [logAction, State.apply, State.countResponse]
      split_ifs
      · exact ⟨_, rfl⟩
      · exact List.Perm.refl _
  | sendFails | timeout | dispatch delivery =>
      simp [logAction, LogAction.Describes, State.apply]
  | _ => exact List.Perm.refl _

/-- A run leads to the state, and `completed` says whether a response has completed a
sample in it since the list was cleared. -/
def Observed (cfg : Config) (currentId : Nat) (state : State) (completed : Bool) : Prop :=
  ((machine cfg).monitored (LogAction.appended logAction)).Reaches Machine.AnyStep
    (State.start currentId, false) (state, completed)

/-- The list is empty exactly if no sample has been completed. -/
theorem Observed.rtimes_ne_nil_iff {cfg : Config} {currentId : Nat} {state : State}
    {completed : Bool} (observed : Observed cfg currentId state completed) :
    state.rtimes ≠ [] ↔ completed = true :=
  LogAction.ne_nil_iff_appended (logAction_describes cfg) rfl observed

/-- What `evaluate` reads. -/
def State.durations (state : State) : List ℚ :=
  state.rtimes.map Recorded.duration

/-- `run` is about to call `evaluate`. -/
def RunPc.evaluates : RunPc → Bool
  | .evaluate _ => true
  | _ => false

/-- A sender that nobody answers. -/
def noResponder : Config where
  multicast := true
  responders := []

/-- A sample whose wait times out. -/
def silence : List Event :=
  opening 0 ++ [.timeout]

end Multicast

/-! ## The latency units -/

namespace Latency

/-- The list is cleared for a message size and grows in every callback. -/
def logAction (cfg : Config) (state : State) : Event → LogAction
  | .run _ =>
      match state.pc with
      | .prepare size =>
          if size < cfg.messageSizesInBytes.length then .clear else .keep
      | _ => .keep
  | .push _ => .append
  | _ => .keep

@[simp] theorem State.times_iterate (cfg : Config) (request : Request) (state : State) :
    (state.iterate cfg request).times = state.times := by
  simp only [State.iterate]
  split
  next => split <;> rfl
  next => rfl

@[simp] theorem State.times_endWait (cfg : Config) (request : Request) (state : State) :
    (state.endWait cfg request).times = state.times := by
  simp only [State.endWait]
  split <;> rfl

@[simp] theorem State.times_allocFails (state : State) :
    state.allocFails.times = state.times := by
  simp only [State.allocFails]
  split <;> rfl

@[simp] theorem State.times_sendFails (cfg : Config) (state : State) :
    (state.sendFails cfg).times = state.times := by
  simp only [State.sendFails]
  split
  next => split <;> rfl
  next => rfl

@[simp] theorem State.times_timeout (cfg : Config) (state : State) :
    (state.timeout cfg).times = state.times := by
  simp only [State.timeout]
  split
  next => exact State.times_endWait _ _ _
  next => rfl

theorem logAction_describes (cfg : Config) (state : State) (event : Event) :
    (logAction cfg state event).Describes state.times (state.apply cfg event).times := by
  cases event with
  | run now =>
      cases pcEq : state.pc with
      | prepare size =>
          simp only [logAction, pcEq, State.apply, State.run, State.prepare]
          split_ifs with inside
          · rw [List.getElem?_eq_getElem inside]
            exact rfl
          · rw [List.getElem?_eq_none (Nat.le_of_not_lt inside)]
            exact List.Perm.refl _
      | evaluate size =>
          simp only [logAction, pcEq, LogAction.Describes, State.apply, State.run]
          exact List.perm_insertionSort _ _
      | _ => simp [logAction, pcEq, LogAction.Describes, State.apply, State.run]
  | push delivery => exact ⟨_, rfl⟩
  | allocFails | sendFails | timeout =>
      simp [logAction, LogAction.Describes, State.apply]
  | _ => exact List.Perm.refl _

/-- A run leads to the state, and `answered` says whether a response has reached the
callback in it since the list was cleared. -/
def Observed (cfg : Config) (state : State) (answered : Bool) : Prop :=
  ((machine cfg).monitored (LogAction.appended (logAction cfg))).Reaches Machine.AnyStep
    (State.init, false) (state, answered)

/-- The list is empty exactly if no response has reached the callback. -/
theorem Observed.times_ne_nil_iff {cfg : Config} {state : State} {answered : Bool}
    (observed : Observed cfg state answered) : state.times ≠ [] ↔ answered = true :=
  LogAction.ne_nil_iff_appended (logAction_describes cfg) rfl observed

/-- What `evaluate` reads. -/
def State.durations (state : State) : List ℚ :=
  state.times.map Entry.duration

end Latency

/-! ## Whole runs -/

namespace Evaluation

/-- In every run, with any responders, losses, delays and failing sends, a call of
`evaluate` is defined exactly if since the list was last cleared a response completed a
sample, for the multicast sender, or reached the callback, for the latency units. -/
theorem evaluate_isSome_iff_observed (sender : Multicast.Config) (currentId : Nat)
    (unit : Latency.Config) :
    (∀ state, (Multicast.machine sender).Reaches Machine.AnyStep
        (Multicast.State.start currentId) state →
      (∃ completed, Multicast.Observed sender currentId state completed) ∧
      ∀ completed, Multicast.Observed sender currentId state completed →
        state.pc.evaluates = true →
        ((MulticastSender.evaluate state.durations).isSome = true ↔
          completed = true)) ∧
    ∀ state, (Latency.machine unit).Reaches Machine.AnyStep Latency.State.init state →
      (∃ answered, Latency.Observed unit state answered) ∧
      ∀ answered, Latency.Observed unit state answered →
        state.pc.evaluates = true →
        ((unit.variant.evaluate state.durations).isSome = true ↔ answered = true) := by
  constructor
  · intro state reached
    refine ⟨reached.monitored _ false, ?_⟩
    intro completed observed _
    rw [MulticastSender.evaluate, isSome_evaluateWith, Multicast.State.durations, ne_eq,
      List.map_eq_nil_iff]
    exact observed.rtimes_ne_nil_iff
  · intro state reached
    refine ⟨reached.monitored _ false, ?_⟩
    intro answered observed _
    rw [Latency.Variant.isSome_evaluate, Latency.State.durations, ne_eq,
      List.map_eq_nil_iff]
    exact observed.times_ne_nil_iff

/-- The first sample of the multicast sender is answered and the others time out. -/
theorem exists_completed_observed :
    ∃ state, Multicast.Observed Multicast.oneResponder 0 state true ∧
      state.pc.evaluates = true := by
  obtain ⟨⟨state, _⟩, observed, evaluates, rfl⟩ :
      ∃ pair : Multicast.State × Bool,
        ((Multicast.machine Multicast.oneResponder).monitored
          (LogAction.appended Multicast.logAction)).Reaches Machine.AnyStep
            (Multicast.State.start 0, false) pair ∧
        pair.1.pc.evaluates = true ∧ pair.2 = true :=
    Machine.exists_reaches_of_exec
      (Multicast.greetings Multicast.oneResponder ++ [.run 0, .run 0] ++
        Multicast.opening 0 ++ Multicast.response (Multicast.oneExchange 0) 5000 ++
        [.signal (some ⟨0, 0⟩), .run 0] ++
        (List.replicate 99 Multicast.silence).flatten)
      (by decide +kernel)
  exact ⟨state, observed, evaluates⟩

/-- In either latency unit the first request is answered and the second times out. -/
theorem exists_answered_observed (variant : Latency.Variant) :
    ∃ state, Latency.Observed (Latency.twoSizes variant) state true ∧
      state.pc.evaluates = true := by
  obtain ⟨⟨state, _⟩, observed, evaluates, rfl⟩ :
      ∃ pair : Latency.State × Bool,
        ((Latency.machine (Latency.twoSizes variant)).monitored
          (LogAction.appended (Latency.logAction (Latency.twoSizes variant)))).Reaches
            Machine.AnyStep (Latency.State.init, false) pair ∧
        pair.1.pc.evaluates = true ∧ pair.2 = true :=
    Machine.exists_reaches_of_exec
      ([.run 0] ++ Latency.opening variant 1000 ++ Latency.response ⟨0, 0⟩ 5000 ++
        [.run 0] ++ Latency.opening variant 6000 ++ [.timeout, .run 0])
      (by cases variant <;> decide +kernel)
  exact ⟨state, observed, evaluates⟩

/-- All three programs have runs in which `evaluate` is called and defined. -/
theorem evaluate_isSome_after_response :
    (∃ state, Multicast.Observed Multicast.oneResponder 0 state true ∧
      state.pc.evaluates = true ∧
      (MulticastSender.evaluate state.durations).isSome = true) ∧
    (∃ state, Latency.Observed (Latency.twoSizes .rtps) state true ∧
      state.pc.evaluates = true ∧
      (MeasurementUnit.evaluate state.durations).isSome = true) ∧
    ∃ state, Latency.Observed (Latency.twoSizes .lwip) state true ∧
      state.pc.evaluates = true ∧
      (LwipMeasurementUnit.evaluate state.durations).isSome = true := by
  obtain ⟨state, observed, evaluates⟩ := exists_completed_observed
  obtain ⟨state', observed', evaluates'⟩ := exists_answered_observed .rtps
  obtain ⟨state'', observed'', evaluates''⟩ := exists_answered_observed .lwip
  obtain ⟨multicast, rtps⟩ :=
    evaluate_isSome_iff_observed Multicast.oneResponder 0 (Latency.twoSizes .rtps)
  obtain ⟨_, lwip⟩ :=
    evaluate_isSome_iff_observed Multicast.oneResponder 0 (Latency.twoSizes .lwip)
  refine ⟨⟨state, observed, evaluates, ?_⟩, ⟨state', observed', evaluates', ?_⟩,
    ⟨state'', observed'', evaluates'', ?_⟩⟩
  · have reached := Machine.Reaches.unmonitored observed
    exact ((multicast state reached).2 true observed evaluates).mpr rfl
  · have reached := Machine.Reaches.unmonitored observed'
    exact ((rtps state' reached).2 true observed' evaluates').mpr rfl
  · have reached := Machine.Reaches.unmonitored observed''
    exact ((lwip state'' reached).2 true observed'' evaluates'').mpr rfl

/-- With no responder, with a first `newChange` that fails, and with two timeouts, the
three programs call `evaluate` on an empty list. -/
theorem evaluate_called_on_empty :
    (∃ state, (Multicast.machine Multicast.noResponder).Reaches Machine.AnyStep
        (Multicast.State.start 0) state ∧
      state.pc.evaluates = true ∧ MulticastSender.evaluate state.durations = none) ∧
    (∃ state, (Latency.machine (Latency.twoSizes .rtps)).Reaches Machine.AnyStep
        Latency.State.init state ∧
      state.pc.evaluates = true ∧ MeasurementUnit.evaluate state.durations = none) ∧
    ∃ state, (Latency.machine (Latency.twoSizes .lwip)).Reaches Machine.AnyStep
        Latency.State.init state ∧
      state.pc.evaluates = true ∧ LwipMeasurementUnit.evaluate state.durations = none :=
  ⟨Machine.exists_reaches_of_exec
      (List.replicate 3 (.run 0) ++ (List.replicate 100 Multicast.silence).flatten)
      (by decide +kernel),
    Machine.exists_reaches_of_exec (List.replicate 4 (.run 0) ++ [.sendFails])
      (by decide +kernel),
    Machine.exists_reaches_of_exec
      ([.run 0] ++ Latency.opening .lwip 1000 ++ [.timeout] ++
        Latency.opening .lwip 9000 ++ [.timeout, .run 0])
      (by decide +kernel)⟩

end Evaluation

end EmbeddedRtps
