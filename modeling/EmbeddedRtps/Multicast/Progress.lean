import EmbeddedRtps.Multicast.Nominal

/-!
# Nominal runs come to their end, and what they measure

A nominal run can always be continued until `run` has finished: while a packet or a callback
is under way it can move on, and otherwise the thread can.  The rank that decreases is the
number of steps `run` has left, and then the work that is pending.

What a round measures is compared with a stopwatch that stands outside the sender.  It reads
the clock when a sample starts and at each response, and notes the difference when the wait
returns.
-/

namespace EmbeddedRtps.Multicast

open Foundation Port

/-! ## Progress -/

/-- The steps of the rounds after this one. -/
def stepsAfter (round : Nat) : Nat :=
  (numRounds - (round + 1)) * (7 * numSamples + 2)

/-- The steps from the reset of a sample on. -/
def stepsFrom (sample : Sample) : Nat :=
  stepsAfter sample.round + 7 * (numSamples - sample.index) + 1

/-- At most so many steps of `run` are left. -/
def RunPc.stepsLeft : RunPc → Nat
  | .sendInit => stepsFrom ⟨0, 0⟩ + 3
  | .settle => stepsFrom ⟨0, 0⟩ + 2
  | .clear round => stepsFrom ⟨round, 0⟩ + 1
  | .reset sample => stepsFrom sample
  | .startTime sample => stepsFrom sample - 1
  | .setId sample => stepsFrom sample - 2
  | .send sample => stepsFrom sample - 3
  | .wait sample => stepsFrom sample - 4
  | .blocked sample => stepsFrom sample - 5
  | .evaluate round => stepsAfter round + 1
  | .finished => 0

/-- Each message counts for the steps it still has to take. -/
def State.pending (state : State) : Nat :=
  5 * state.requests.length + 4 * state.responses.length + 3 * state.received.length +
    2 * (state.greeting.length + state.matched.length) + state.finishing.length

def State.rank (state : State) : Nat × Nat :=
  (state.pc.stepsLeft, state.pending)

theorem Sample.next_stepsLeft {sample : Sample} (inside : sample.index < numSamples) :
    sample.next.stepsLeft + 7 = stepsFrom sample := by
  rw [Sample.next]
  split
  next =>
    simp only [RunPc.stepsLeft, stepsFrom]
    omega
  next last =>
    simp only [RunPc.stepsLeft, stepsFrom]
    omega

theorem nextRound_stepsLeft (round : Nat) :
    (nextRound round).stepsLeft < stepsAfter round + 1 := by
  rw [nextRound]
  split
  next =>
    simp only [RunPc.stepsLeft, stepsFrom, stepsAfter, numSamples, numRounds] at *
    omega
  next => exact Nat.succ_pos _

/-- A message or a callback that moves on has less to do. -/
theorem pending_apply_lt (cfg : Config) {state : State} {event : Event}
    (enabled : Enabled state event) (callback : event.isCallback) :
    (state.apply cfg event).pc = state.pc ∧
      (state.apply cfg event).pending < state.pending := by
  cases event with
  | run now | sendFails | timeout => exact callback.elim
  | answer exchange | loseRequest exchange =>
      have member : exchange ∈ state.requests := enabled
      have fewer := List.length_erase_add_one member
      refine ⟨rfl, ?_⟩
      simp only [State.pending, State.apply, List.length_append, List.length_singleton]
      omega
  | deliver exchange now | loseResponse exchange =>
      have member : exchange ∈ state.responses := enabled
      have fewer := List.length_erase_add_one member
      refine ⟨rfl, ?_⟩
      simp only [State.pending, State.apply, List.length_append, List.length_singleton]
      omega
  | dispatch delivery =>
      have member : delivery ∈ state.received := enabled
      have fewer := List.length_erase_add_one member
      simp only [State.apply, State.dispatch]
      split_ifs
      all_goals
        refine ⟨rfl, ?_⟩
        simp only [State.pending, List.length_append, List.length_singleton]
        omega
  | countPartner delivery =>
      have member : delivery ∈ state.greeting := enabled
      have fewer := List.length_erase_add_one member
      refine ⟨rfl, ?_⟩
      simp only [State.pending, State.apply, State.countPartner]
      omega
  | countResponse delivery =>
      have member : delivery ∈ state.matched := enabled
      have fewer := List.length_erase_add_one member
      simp only [State.apply, State.countResponse]
      split_ifs
      all_goals
        refine ⟨rfl, ?_⟩
        simp only [State.pending, List.length_append, List.length_singleton]
        omega
  | signal sample =>
      have member : sample ∈ state.finishing := enabled
      have fewer := List.length_erase_add_one member
      refine ⟨rfl, ?_⟩
      simp only [State.pending, State.apply, State.signal]
      omega

/-- Unless the system is silent, a message or a callback can move on. -/
theorem exists_callback {state : State} (busy : ¬ Silent state) :
    ∃ event : Event, event.isCallback ∧ Enabled state event ∧ Nominal state event := by
  by_cases received : state.received = []
  case neg =>
    obtain ⟨delivery, member⟩ := List.exists_mem_of_ne_nil _ received
    exact ⟨.dispatch delivery, trivial, member, trivial⟩
  by_cases greeting : state.greeting = []
  case neg =>
    obtain ⟨delivery, member⟩ := List.exists_mem_of_ne_nil _ greeting
    exact ⟨.countPartner delivery, trivial, member, trivial⟩
  by_cases matched : state.matched = []
  case neg =>
    obtain ⟨delivery, member⟩ := List.exists_mem_of_ne_nil _ matched
    exact ⟨.countResponse delivery, trivial, member, trivial⟩
  by_cases finishing : state.finishing = []
  case neg =>
    obtain ⟨sample, member⟩ := List.exists_mem_of_ne_nil _ finishing
    exact ⟨.signal sample, trivial, member, trivial⟩
  -- no callback is running, so the next response may be delivered
  have idle : NoCallback state := ⟨received, greeting, matched, finishing⟩
  by_cases responses : state.responses = []
  case neg =>
    obtain ⟨exchange, member⟩ := List.exists_mem_of_ne_nil _ responses
    exact ⟨.deliver exchange 0, trivial, member, idle⟩
  have requests : state.requests ≠ [] := fun none => busy ⟨none, responses, idle⟩
  obtain ⟨exchange, member⟩ := List.exists_mem_of_ne_nil _ requests
  exact ⟨.answer exchange, trivial, member, trivial⟩

/-- A sample whose wait has nothing to wait for has been signalled. -/
theorem Waiting.sem_of_silent {cfg : Config} {sample : Sample} {state : State}
    (waiting : Waiting cfg sample state) (silent : Silent state) : state.sem.c = 1 := by
  obtain ⟨requests, responses, received, -, matched, finishing⟩ := silent
  cases waiting.stage with
  | collecting _ counted missing =>
      have length := waiting.length_le
      rw [requests, responses, ← counted, List.length_nil] at length
      omega
  | branching _ running => simp [received] at running
  | locking _ _ _ running => simp [matched] at running
  | signalling _ _ _ running => simp [finishing] at running
  | signalled _ _ sem => exact sem

/-- In a silent system `run` comes closer to its end. -/
theorem Phase.stepsLeft_run_lt {cfg : Config} {state : State} (now : Nat)
    (consistent : Consistent state) (phase : Phase cfg state) (silent : Silent state)
    (unfinished : state.pc ≠ .finished) :
    (state.run cfg now).pc.stepsLeft < state.pc.stepsLeft := by
  have place := consistent.inRange
  cases here : state.pc with
  | sendInit | settle | clear round =>
      simp only [State.run, here, RunPc.stepsLeft]
      omega
  | reset sample | startTime sample | setId sample | send sample =>
      have inside := place sample (by rw [here]; rfl)
      simp only [State.run, here, RunPc.stepsLeft, stepsFrom]
      omega
  | wait sample =>
      have inside := place sample (by rw [here]; rfl)
      have next := Sample.next_stepsLeft inside
      simp only [State.run, here, State.semWait]
      split
      next =>
        simp only [RunPc.stepsLeft, stepsFrom]
        omega
      next =>
        show sample.next.stepsLeft < stepsFrom sample - 4
        omega
  | blocked sample =>
      have inside := place sample (by rw [here]; rfl)
      have next := Sample.next_stepsLeft inside
      simp only [Phase, here] at phase
      have taken : state.sem.take? = some ⟨0⟩ :=
        SysSem.take?_eq_some.mpr (phase.sem_of_silent silent)
      simp only [State.run, here, State.semWait, taken]
      show sample.next.stepsLeft < stepsFrom sample - 5
      omega
  | evaluate round =>
      simp only [State.run, here]
      exact nextRound_stepsLeft round
  | finished => exact absurd here unfinished

/-- Every nominal run can be continued, without leaving it, until `run` has finished. -/
theorem nominal_run_finishes {cfg : Config} {currentId : Nat} {state : State}
    (nominal : NominalConfig cfg)
    (reached : (machine cfg).Reaches Nominal (State.start currentId) state) :
    ∃ final, (machine cfg).Reaches Nominal state final ∧ final.pc = .finished := by
  refine reached.exists_goal (Prod.lex ⟨_, Nat.lt_wfRel.wf⟩ ⟨_, Nat.lt_wfRel.wf⟩).wf
    State.rank fun state reached unfinished => ?_
  by_cases silent : Silent state
  · refine ⟨.run 0, unfinished, fun _ => silent, .left _ _ ?_⟩
    exact (Regular.of_reaches nominal reached).1.stepsLeft_run_lt 0
      (Consistent.of_reaches reached) silent unfinished
  · obtain ⟨event, callback, enabled, admitted⟩ := exists_callback silent
    obtain ⟨same, less⟩ := pending_apply_lt cfg enabled callback
    refine ⟨event, enabled, admitted, ?_⟩
    have rank : State.rank ((machine cfg).apply state event) =
        (state.pc.stepsLeft, (state.apply cfg event).pending) :=
      congrArg (fun pc : RunPc => (pc.stepsLeft, _)) same
    rw [rank]
    exact .right _ less

/-! ## Durations -/

/-- A stopwatch beside the sender. -/
structure Stopwatch where
  /-- The clock when the sample started. -/
  started : Nat
  /-- The clock when the last response was delivered. -/
  arrived : Nat
  durations : List ℚ
  deriving DecidableEq

/-- The time between the two in microseconds, from the last full one before the start. -/
def Stopwatch.elapsed (watch : Stopwatch) : ℚ :=
  ((watch.arrived : ℚ) - (watch.started / 1000 * 1000 : Nat)) / 1000

/-- What the stopwatch does at an event. -/
def Stopwatch.observe (state : State) (event : Event) (watch : Stopwatch) : Stopwatch :=
  match event with
  | .run now =>
      match state.pc with
      | .clear _ => { watch with durations := [] }
      | .startTime _ => { watch with started := now }
      | .wait _ | .blocked _ =>
          if state.sem.c = 0 then watch
          else { watch with durations := watch.durations ++ [watch.elapsed] }
      | _ => watch
  | .deliver _ now => { watch with arrived := now }
  | _ => watch

/-- The entries of the round are those of the stopwatch, with one more when the sample is
complete and the wait has not returned. -/
def Noted (state : State) (watch : Stopwatch) : Prop :=
  match state.pc with
  | .sendInit | .settle | .clear _ | .finished => True
  | .reset _ | .startTime _ | .evaluate _ =>
      state.rtimes.map Recorded.duration = watch.durations
  | .setId _ | .send _ => state.time = watch.started / 1000 * 1000 ∧
      state.rtimes.map Recorded.duration = watch.durations
  | .wait sample | .blocked sample => state.time = watch.started / 1000 * 1000 ∧
      state.rtimes.map Recorded.duration = watch.durations ++
        if state.rtimes.length = sample.index then [] else [watch.elapsed]

/-- The stopwatch agrees with the sender. -/
structure Timed (state : State) (watch : Stopwatch) : Prop where
  received : ∀ delivery ∈ state.received, delivery.endTime = watch.arrived
  matched : ∀ delivery ∈ state.matched, delivery.endTime = watch.arrived
  noted : Noted state watch

/-- A sample that is not complete has no entry yet. -/
theorem Waiting.length_rtimes {cfg : Config} {sample : Sample} {state : State}
    (waiting : Waiting cfg sample state)
    (incomplete : state.responses ≠ [] ∨ state.matched ≠ []) :
    state.rtimes.length = sample.index := by
  cases waiting.stage with
  | collecting _ _ _ _ measured | branching _ _ _ _ _ _ _ measured
  | locking _ _ _ _ _ _ _ measured => exact measured.1
  | signalling _ _ matched _ complete =>
      exact (incomplete.elim (· (waiting.complete complete).2.1) (· matched)).elim
  | signalled idle complete =>
      exact (incomplete.elim (· (waiting.complete complete).2.1) (· idle.2.2.1)).elim

/-- Responses are counted only while a sample waits. -/
theorem Phase.waiting_of_matched {cfg : Config} {state : State} (phase : Phase cfg state)
    (running : state.matched ≠ []) :
    ∃ sample, (state.pc = .wait sample ∨ state.pc = .blocked sample) ∧
      Waiting cfg sample state := by
  have gather (gathering : Gathering cfg state) : False := running gathering.matched
  have quiet (silent : Silent state) : False := running silent.2.2.2.2.1
  cases here : state.pc with
  | sendInit =>
      simp only [Phase, here] at phase
      exact (quiet phase.1).elim
  | settle =>
      simp only [Phase, here] at phase
      exact (gather phase).elim
  | clear round =>
      simp only [Phase, here] at phase
      exact (phase.elim (fun first => gather first.2) fun ready => quiet ready.silent).elim
  | reset sample =>
      simp only [Phase, here] at phase
      exact (phase.elim (fun first => gather first.2) fun ready => quiet ready.1.silent).elim
  | startTime sample | setId sample | send sample | evaluate round =>
      simp only [Phase, here] at phase
      exact (quiet phase.1.silent).elim
  | wait sample =>
      simp only [Phase, here] at phase
      exact ⟨sample, .inl rfl, phase⟩
  | blocked sample =>
      simp only [Phase, here] at phase
      exact ⟨sample, .inr rfl, phase⟩
  | finished =>
      simp only [Phase, here] at phase
      exact (quiet phase.silent).elim

/-- The stopwatch is read when the wait returns. -/
theorem Noted.semWait {cfg : Config} {sample : Sample} {state : State} {watch : Stopwatch}
    (waiting : Waiting cfg sample state)
    (noted : state.time = watch.started / 1000 * 1000 ∧
      state.rtimes.map Recorded.duration = watch.durations ++
        if state.rtimes.length = sample.index then [] else [watch.elapsed]) :
    Noted (state.semWait sample)
      (if state.sem.c = 0 then watch
        else { watch with durations := watch.durations ++ [watch.elapsed] }) := by
  by_cases empty : state.sem.c = 0
  · have none : state.sem.take? = none := by rw [SysSem.take?, if_pos (Nat.le_of_eq empty)]
    rw [if_pos empty, State.semWait, none]
    exact noted
  · have some : state.sem.take? = some ⟨state.sem.c - 1⟩ := by
      rw [SysSem.take?, if_neg (Nat.not_le.mpr (Nat.pos_of_ne_zero empty))]
    have complete : state.rtimes.length = sample.index + 1 := by
      cases waiting.stage with
      | collecting _ _ _ sem | branching _ _ _ _ _ _ sem | locking _ _ _ _ _ _ sem
      | signalling _ _ _ _ _ sem => exact absurd sem empty
      | signalled _ _ _ measured => exact measured.1
    have durations := noted.2
    rw [if_neg (by omega)] at durations
    rw [if_neg empty, State.semWait, some]
    simp only [Noted, Sample.next]
    split <;> rename_i next <;> split at next <;> cases next
    all_goals exact durations

theorem Noted.run {cfg : Config} {state : State} {watch : Stopwatch} (now : Nat)
    (phase : Phase cfg state) (noted : Noted state watch) :
    Noted (state.run cfg now) (watch.observe state (.run now)) := by
  cases here : state.pc with
  | sendInit | settle | finished => simp only [State.run, here, Noted]
  | clear round => simp only [State.run, Stopwatch.observe, here, Noted, List.map_nil]
  | reset sample | setId sample =>
      simp only [Noted, here] at noted
      simp only [State.run, Stopwatch.observe, here, Noted]
      exact noted
  | startTime sample =>
      simp only [Noted, here] at noted
      simp only [State.run, Stopwatch.observe, here, Noted]
      exact ⟨trivial, noted⟩
  | send sample =>
      simp only [Noted, here] at noted
      simp only [Phase, here] at phase
      simp only [State.run, Stopwatch.observe, here, Noted]
      rw [if_pos phase.2.2.2.1, List.append_nil]
      exact noted
  | wait sample | blocked sample =>
      simp only [Noted, here] at noted
      simp only [Phase, here] at phase
      simp only [State.run, Stopwatch.observe, here]
      exact Noted.semWait phase noted
  | evaluate round =>
      simp only [State.run, Stopwatch.observe, here, Noted, nextRound]
      split <;> rename_i next
      all_goals split at next <;> cases next
      all_goals trivial

/-- A step of `run` does not touch the callbacks, or what the stopwatch knows of them. -/
theorem run_callbacks (cfg : Config) (now : Nat) (state : State) (watch : Stopwatch) :
    (state.run cfg now).received = state.received ∧
      (state.run cfg now).matched = state.matched ∧
      (watch.observe state (.run now)).arrived = watch.arrived := by
  cases here : state.pc with
  | wait sample | blocked sample =>
      simp only [State.run, here, State.semWait, Stopwatch.observe]
      split <;> split <;> exact ⟨rfl, rfl, rfl⟩
  | _ => simp only [State.run, here, Stopwatch.observe, and_self]

theorem Timed.deliver {cfg : Config} {state : State} {watch : Stopwatch}
    {exchange : Exchange} {now : Nat} (phase : Phase cfg state) (timed : Timed state watch)
    (enabled : exchange ∈ state.responses) (idle : NoCallback state) :
    Timed (state.apply cfg (.deliver exchange now))
      (watch.observe state (.deliver exchange now)) := by
  have noted := timed.noted
  refine ⟨?_, ?_, ?_⟩
  · simp [State.apply, Stopwatch.observe, idle.1]
  · simp [State.apply, idle.2.2.1]
  · cases here : state.pc with
    | wait sample | blocked sample =>
        simp only [Noted, here] at noted
        simp only [Phase, here] at phase
        have none := phase.length_rtimes (.inl (List.ne_nil_of_mem enabled))
        simp only [Noted, State.apply, here, Stopwatch.observe]
        rw [if_pos none] at noted ⊢
        exact noted
    | reset sample | startTime sample | setId sample | send sample | evaluate round =>
        simp only [Noted, here] at noted
        simp only [Noted, State.apply, here, Stopwatch.observe]
        exact noted
    | sendInit | settle | clear round | finished => simp only [Noted, State.apply, here]

theorem Timed.countResponse {cfg : Config} {state : State} {watch : Stopwatch}
    {delivery : Delivery} (phase : Phase cfg state) (timed : Timed state watch)
    (enabled : delivery ∈ state.matched) : Timed (state.countResponse delivery) watch := by
  obtain ⟨sample, here, waiting⟩ := phase.waiting_of_matched (List.ne_nil_of_mem enabled)
  have none := waiting.length_rtimes (.inr (List.ne_nil_of_mem enabled))
  have noted : state.time = watch.started / 1000 * 1000 ∧
      state.rtimes.map Recorded.duration = watch.durations := by
    have noted := timed.noted
    rcases here with here | here
    all_goals
      simp only [Noted, here] at noted
      rwa [if_pos none, List.append_nil] at noted
  have rest : ∀ other ∈ state.matched.erase delivery, other.endTime = watch.arrived :=
    fun other member => timed.matched other (List.mem_of_mem_erase member)
  simp only [State.countResponse]
  split
  next =>
    refine ⟨timed.received, rest, ?_⟩
    have latest : (state.record delivery).duration = watch.elapsed := by
      rw [State.record, Stopwatch.elapsed, timed.matched delivery enabled, noted.1]
    have durations : (state.rtimes ++ [state.record delivery]).map Recorded.duration =
        watch.durations ++ if (state.rtimes ++ [state.record delivery]).length = sample.index
          then [] else [watch.elapsed] := by
      rw [if_neg (by rw [List.length_append, none]; exact Nat.succ_ne_self _),
        List.map_append, noted.2, List.map_singleton, latest]
    rcases here with here | here
    all_goals
      simp only [Noted, here]
      exact ⟨noted.1, durations⟩
  next => exact ⟨timed.received, rest, timed.noted⟩

theorem Timed.dispatch {cfg : Config} {state : State} {watch : Stopwatch}
    {delivery : Delivery} (timed : Timed state watch) (enabled : delivery ∈ state.received) :
    Timed (state.dispatch cfg delivery) watch := by
  have rest : ∀ other ∈ state.received.erase delivery, other.endTime = watch.arrived :=
    fun other member => timed.received other (List.mem_of_mem_erase member)
  have more : ∀ other ∈ state.matched ++ [delivery], other.endTime = watch.arrived :=
    List.forall_mem_append.mpr
      ⟨timed.matched, List.forall_mem_singleton.mpr (timed.received delivery enabled)⟩
  simp only [State.dispatch]
  split_ifs
  · exact ⟨rest, timed.matched, timed.noted⟩
  · exact ⟨rest, more, timed.noted⟩
  · exact ⟨rest, timed.matched, timed.noted⟩
  · exact ⟨rest, timed.matched, timed.noted⟩

theorem Timed.apply {cfg : Config} {state : State} {watch : Stopwatch} {event : Event}
    (phase : Phase cfg state) (timed : Timed state watch) (enabled : Enabled state event)
    (admitted : Nominal state event) :
    Timed (state.apply cfg event) (watch.observe state event) := by
  cases event with
  | run now =>
      obtain ⟨received, matched, arrived⟩ := run_callbacks cfg now state watch
      refine ⟨?_, ?_, timed.noted.run now phase⟩
      · rw [State.apply, received, arrived]
        exact timed.received
      · rw [State.apply, matched, arrived]
        exact timed.matched
  | sendFails | timeout | loseRequest exchange | loseResponse exchange => exact admitted.elim
  | answer exchange => exact ⟨timed.received, timed.matched, timed.noted⟩
  | deliver exchange now => exact timed.deliver phase enabled admitted
  | dispatch delivery => exact timed.dispatch enabled
  | countPartner delivery => exact ⟨timed.received, timed.matched, timed.noted⟩
  | countResponse delivery => exact timed.countResponse phase enabled
  | signal sample => exact ⟨timed.received, timed.matched, timed.noted⟩

/-- At each call of `evaluate` in a nominal run the entries are what the stopwatch has
noted: for each sample of the round the time from its start to the delivery of its last
response. -/
theorem nominal_run_durations {cfg : Config} {currentId : Nat} {observed : State × Stopwatch}
    (nominal : NominalConfig cfg)
    (reached : ((machine cfg).monitored Stopwatch.observe).Reaches
      (fun observed event => Nominal observed.1 event)
      (State.start currentId, ⟨0, 0, []⟩) observed) :
    ∀ round, observed.1.pc = .evaluate round →
      observed.1.rtimes.map Recorded.duration = observed.2.durations := by
  suffices kept : Consistent observed.1 ∧ Regular cfg observed.1 ∧
      Timed observed.1 observed.2 by
    intro round here
    have noted := kept.2.2.noted
    simp only [Noted, here] at noted
    exact noted
  induction reached with
  | refl =>
      exact ⟨.start currentId, .start cfg currentId, List.forall_mem_nil _,
        List.forall_mem_nil _, trivial⟩
  | step _ enabled admitted ih =>
      obtain ⟨consistent, regular, timed⟩ := ih
      exact ⟨consistent.apply cfg _, regular.apply nominal consistent enabled admitted,
        timed.apply regular.1 enabled admitted⟩

end EmbeddedRtps.Multicast
