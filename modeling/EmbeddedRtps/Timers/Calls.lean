import EmbeddedRtps.Timers.Wraparound

/-!
# Calls of the handlers

An observer with a clock that does not wrap around watches the timers and writes down
which handlers are called, when they were due and when they were called.  It finds that
the code keeps to the real time: handlers are called in the order in which they are due,
no sooner, `sys_check_timeouts` leaves nothing behind that was due when it was called, and
`sys_timeouts_sleeptime` is the time until the next timeout is due.
-/

namespace EmbeddedRtps.Timers

open Foundation

universe v

variable {Task : Type v} [DecidableEq Task]

/-! ## The observer -/

/-- The call of a handler, in real time. -/
structure Call (Task : Type v) where
  task : Task
  due : Nat
  called : Nat
  deriving DecidableEq, Repr

/-- What the observer knows: the timers as they are with the real time, and the calls so
far. -/
structure Observer (Task : Type v) where
  truth : State Nat Task
  calls : List (Call Task)
  deriving DecidableEq, Repr

/-- The task is what the code calls; the time is the time it was really due. -/
def Observer.observe (pool : Nat) (interval : Task → Option Nat) (state : State Nat Task)
    (event : Event Task) (observer : Observer Task) : Observer Task where
  truth := observer.truth.apply realClock pool interval event
  calls :=
    match event, state.nextTimeout, observer.truth.nextTimeout with
    | .fire, entry :: _, timed :: _ =>
        observer.calls ++ [⟨entry.task, timed.time, observer.truth.passed⟩]
    | _, _, _ => observer.calls

/-- The code, with its 32 bits, under observation. -/
def observed (pool : Nat) (interval : Task → Option Nat) :
    Machine (State Nat Task × Observer Task) (Event Task) :=
  (machine u32Clock pool interval).monitored (Observer.observe pool interval)

instance (pool : Nat) (interval : Task → Option Nat) (pair : State Nat Task × Observer Task)
    (event : Event Task) : Decidable ((observed pool interval).Enabled pair event) :=
  inferInstanceAs (Decidable (Enabled u32Clock pool interval pair.1 event))

/-- After `sys_timeouts_init`. -/
def start (pool : Nat) (interval : Task → Option Nat) (passed : Nat) (timers : List Task) :
    State Nat Task × Observer Task :=
  (State.started u32Clock pool (fun task => (interval task).getD 0) passed timers,
    ⟨State.started realClock pool (fun task => (interval task).getD 0) passed timers, []⟩)

/-- The timers are looked after in time. -/
def OnTime (pair : State Nat Task × Observer Task) (event : Event Task) : Prop :=
  Punctual pair.2.truth event

instance (pair : State Nat Task × Observer Task) (event : Event Task) :
    Decidable (OnTime pair event) :=
  inferInstanceAs (Decidable (Punctual pair.2.truth event))

/-- The code has what 32 bits keep of the truth. -/
structure Faithful (pair : State Nat Task × Observer Task) : Prop where
  wrapped : pair.1 = pair.2.truth.wrap
  timely : Timely pair.2.truth

section Runs

variable {pool : Nat} {interval : Task → Option Nat} {passed : Nat} {timers : List Task}
variable {pair : State Nat Task × Observer Task}
variable {condition : State Nat Task × Observer Task → Event Task → Prop}

omit [DecidableEq Task] in
theorem getD_short
    (short : ∀ task msecs, interval task = some msecs → msecs ≤ 0xffffffff / 4)
    (task : Task) : (interval task).getD 0 ≤ 0xffffffff / 4 := by
  cases cyclic : interval task with
  | none => exact Nat.zero_le _
  | some msecs => exact short task msecs cyclic

omit [DecidableEq Task] in
theorem faithful_start
    (short : ∀ task msecs, interval task = some msecs → msecs ≤ 0xffffffff / 4)
    (room : timers.length ≤ pool) : Faithful (start pool interval passed timers) := by
  obtain ⟨truth, returned, returned', timely⟩ :=
    timely_sysTimeoutsInit passed (fun task _ => getD_short short task) room
  simp only [start, State.started, returned, returned', Option.getD_some]
  exact ⟨rfl, timely⟩

theorem Faithful.apply {event : Event Task} (faithful : Faithful pair)
    (short : ∀ task msecs, interval task = some msecs → msecs ≤ 0xffffffff / 4)
    (enabled : (observed pool interval).Enabled pair event) (onTime : OnTime pair event) :
    Enabled realClock pool interval pair.2.truth event ∧
      Faithful ((observed pool interval).apply pair event) := by
  obtain ⟨state, observer⟩ := pair
  have timely : Timely observer.truth := faithful.timely
  have wrapped : state = observer.truth.wrap := faithful.wrapped
  subst wrapped
  have enabled' := timely.enabled_iff.mp enabled
  obtain ⟨timely', wrapped⟩ := timely.apply short enabled' onTime
  exact ⟨enabled', wrapped, timely'⟩

theorem faithful_of_reaches
    (short : ∀ task msecs, interval task = some msecs → msecs ≤ 0xffffffff / 4)
    (room : timers.length ≤ pool)
    (onTime : ∀ pair event, condition pair event → OnTime pair event)
    (reached : (observed pool interval).Reaches condition (start pool interval passed timers) pair) :
    Faithful pair :=
  reached.invariant (faithful_start short room)
    fun _ _ _ faithful enabled admitted =>
      (faithful.apply short enabled (onTime _ _ admitted)).2

/-- What the observer finds may be proved with the real time alone. -/
theorem observer_invariant (property : Observer Task → Prop)
    (short : ∀ task msecs, interval task = some msecs → msecs ≤ 0xffffffff / 4)
    (room : timers.length ≤ pool)
    (onTime : ∀ pair event, condition pair event → OnTime pair event)
    (initially : property (start pool interval passed timers).2)
    (preserved : ∀ observer event, Timely observer.truth → property observer →
      Enabled realClock pool interval observer.truth event →
      condition (observer.truth.wrap, observer) event →
      property (observer.observe pool interval observer.truth.wrap event))
    (reached : (observed pool interval).Reaches condition (start pool interval passed timers) pair) :
    property pair.2 := by
  induction reached with
  | refl => exact initially
  | @step pair event before enabled admitted ih =>
      have faithful := faithful_of_reaches short room onTime before
      obtain ⟨enabled', -⟩ := faithful.apply short enabled (onTime _ _ admitted)
      obtain ⟨state, observer⟩ := pair
      have wrapped : state = observer.truth.wrap := faithful.wrapped
      subst wrapped
      exact preserved observer event faithful.timely ih enabled' admitted

variable {observer : Observer Task} {event : Event Task}

theorem Observer.observe_fire {first : SysTimeo Nat Task} {rest : List (SysTimeo Nat Task)}
    (list : observer.truth.nextTimeout = first :: rest) :
    observer.observe pool interval observer.truth.wrap .fire =
      { truth := { observer.truth with
          nextTimeout := rest
          currentTimeoutDueTime := first.time
          cyclic := if (interval first.task).isSome then some first.task else none }
        calls := observer.calls ++ [⟨first.task, first.time, observer.truth.passed⟩] } := by
  simp only [observe, State.apply, State.call, State.fire, State.wrap, list, List.map_cons]
  rfl

theorem Observer.observe_timeout {msecs : Nat} {task : Task}
    (enabled : Enabled realClock pool interval observer.truth (.timeout msecs task)) :
    observer.observe pool interval observer.truth.wrap (.timeout msecs task) =
      { observer with
        truth := observer.truth.register realClock (observer.truth.passed + msecs) task } := by
  obtain ⟨_, _, applied⟩ := apply_timeout enabled
  simp only [observe, applied, realClock_now, realClock_later]

theorem Observer.observe_reschedule
    (enabled : Enabled realClock pool interval observer.truth .reschedule) :
    ∃ task, observer.truth.cyclic = some task ∧
      observer.observe pool interval observer.truth.wrap .reschedule =
        { observer with
          truth := { observer.truth.register realClock
            (observer.truth.dueAgain realClock ((interval task).getD 0)) task with
            cyclic := none } } := by
  obtain ⟨task, running, _, applied⟩ := apply_reschedule enabled
  exact ⟨task, running, by simp only [observe, applied]⟩

/-! ## In order -/

/-- What is pending is not due before what has been called. -/
structure InOrder (observer : Observer Task) : Prop where
  past : observer.truth.currentTimeoutDueTime ≤ observer.truth.passed
  pending : ∀ entry ∈ observer.truth.nextTimeout,
    observer.truth.currentTimeoutDueTime ≤ entry.time
  calls : ∀ call ∈ observer.calls, call.due ≤ observer.truth.currentTimeoutDueTime
  sorted : observer.calls.Pairwise fun call later => call.due ≤ later.due
  late : ∀ call ∈ observer.calls, call.due ≤ call.called

omit [DecidableEq Task] in
/-- Nothing but a call changes what has been called last. -/
theorem InOrder.keep {truth : State Nat Task} (inOrder : InOrder observer)
    (same : truth.currentTimeoutDueTime = observer.truth.currentTimeoutDueTime)
    (later : observer.truth.passed ≤ truth.passed)
    (added : ∀ entry ∈ truth.nextTimeout, entry ∈ observer.truth.nextTimeout ∨
      observer.truth.currentTimeoutDueTime ≤ entry.time) :
    InOrder { observer with truth := truth } where
  past := same ▸ inOrder.past.trans later
  pending entry member :=
    same ▸ (added entry member).elim (inOrder.pending entry) id
  calls call member := same ▸ inOrder.calls call member
  sorted := inOrder.sorted
  late := inOrder.late

omit [DecidableEq Task] in
theorem le_dueAgain {truth : State Nat Task} {msecs : Nat}
    (past : truth.currentTimeoutDueTime ≤ truth.passed) :
    truth.currentTimeoutDueTime ≤ truth.dueAgain realClock msecs := by
  rw [State.dueAgain]
  split
  · exact past.trans (Nat.le_add_right _ _)
  · exact Nat.le_add_right _ _

theorem InOrder.observe (inOrder : InOrder observer) (timely : Timely observer.truth)
    (enabled : Enabled realClock pool interval observer.truth event) :
    InOrder (observer.observe pool interval observer.truth.wrap event) := by
  have past := inOrder.past
  cases event with
  | tick elapsed => exact inOrder.keep rfl (Nat.le_add_right _ _) fun _ => Or.inl
  | timeout msecs task =>
      rw [Observer.observe_timeout enabled]
      refine inOrder.keep rfl (Nat.le_refl _) fun entry member => ?_
      rcases mem_enqueue.mp member with rfl | member
      · exact .inr (past.trans (Nat.le_add_right _ _))
      · exact .inl member
  | untimeout task =>
      exact inOrder.keep rfl (Nat.le_refl _) fun _ member =>
        .inl (List.mem_of_mem_eraseP member)
  | restart slept =>
      let awake : State Nat Task :=
        { observer.truth with passed := observer.truth.passed + slept }
      have later : observer.truth.passed ≤ awake.passed := Nat.le_add_right _ _
      change InOrder { observer with truth := awake.sysRestartTimeouts realClock }
      refine inOrder.keep (currentTimeoutDueTime_sysRestartTimeouts awake) ?_
        fun entry member => .inr ?_
      · rwa [passed_sysRestartTimeouts]
      · exact (past.trans later).trans (passed_le_of_mem member)
  | beginCheck => exact inOrder.keep rfl (Nat.le_refl _) fun _ => Or.inl
  | fire =>
      obtain ⟨first, rest, now, list, running, due, past⟩ := timely.due enabled.1
      have sorted := timely.sorted
      rw [list] at sorted
      have before : ∀ call ∈ observer.calls, call.due ≤ first.time := fun call member =>
        (inOrder.calls call member).trans
          (inOrder.pending first (list ▸ List.mem_cons_self))
      rw [Observer.observe_fire list]
      constructor
      · exact due.trans past
      · exact (List.pairwise_cons.mp sorted).1
      · exact List.forall_mem_append.mpr
          ⟨before, List.forall_mem_singleton.mpr (Nat.le_refl _)⟩
      · refine List.pairwise_append.mpr
          ⟨inOrder.sorted, List.pairwise_singleton _ _, fun call member last same => ?_⟩
        rw [List.mem_singleton.mp same]
        exact before call member
      · exact List.forall_mem_append.mpr
          ⟨inOrder.late, List.forall_mem_singleton.mpr (due.trans past)⟩
  | reschedule =>
      obtain ⟨task, _, equal⟩ := Observer.observe_reschedule enabled
      rw [equal]
      refine inOrder.keep rfl (Nat.le_refl _) fun entry member => ?_
      rcases mem_enqueue.mp member with rfl | member
      · exact .inr (le_dueAgain past)
      · exact .inl member
  | endCheck => exact inOrder.keep rfl (Nat.le_refl _) fun _ => Or.inl

/-- Timer 0 is called every 100 milliseconds. -/
def everyTenth (task : Nat) : Option Nat := if task = 0 then some 100 else none

theorem everyTenth_short (task msecs : Nat) (cyclic : everyTenth task = some msecs) :
    msecs ≤ 0xffffffff / 4 := by
  rw [everyTenth] at cyclic
  split at cyclic
  · cases cyclic
    decide
  · cases cyclic

/-- Two handlers are called, one before and one after the 32 bits are used up. -/
def wrapAround : List (Event Nat) :=
  [.timeout 20 1, .tick 30, .beginCheck, .fire, .endCheck, .tick 75, .beginCheck, .fire,
    .reschedule]

/-- When `sys_check_timeouts` returns, what is still pending was not due at the time of
the call. -/
theorem pending_after_check
    (short : ∀ task msecs, interval task = some msecs → msecs ≤ 0xffffffff / 4)
    (room : timers.length ≤ pool)
    (reached : (observed pool interval).Reaches OnTime (start pool interval passed timers) pair)
    (returns : (observed pool interval).Enabled pair .endCheck) :
    ∃ now, pair.2.truth.checking = some now ∧
      ∀ entry ∈ pair.2.truth.nextTimeout, now < entry.time := by
  obtain ⟨wrapped, timely⟩ := faithful_of_reaches short room (fun _ _ onTime => onTime) reached
  have returns' : Enabled u32Clock pool interval pair.1 .endCheck := returns
  rw [wrapped, timely.enabled_iff] at returns'
  obtain ⟨now, running, nothing⟩ := Option.any_eq_true _ _ |>.mp returns'.1.1
  refine ⟨now, running, ?_⟩
  rw [State.nothingDue] at nothing
  cases list : pair.2.truth.nextTimeout with
  | nil => exact List.forall_mem_nil _
  | cons first rest =>
      rw [list] at nothing
      have sorted := timely.sorted
      rw [list] at sorted
      have before : now < first.time := realClock_less.mp nothing
      exact List.forall_mem_cons.mpr ⟨before, fun entry member =>
        before.trans_le ((List.pairwise_cons.mp sorted).1 entry member)⟩

theorem pending_after_check_wrapAround :
    ∃ pair, (observed 8 everyTenth).Reaches OnTime (start 8 everyTenth (2 ^ 32 - 50) [0]) pair ∧
      (observed 8 everyTenth).Enabled pair .endCheck ∧
      pair.2.calls.length = 2 ∧
      ∃ now, pair.2.truth.checking = some now ∧
        ∀ entry ∈ pair.2.truth.nextTimeout, now < entry.time := by
  obtain ⟨pair, reached, returns, calls⟩ :
      ∃ pair, (observed 8 everyTenth).Reaches OnTime (start 8 everyTenth (2 ^ 32 - 50) [0]) pair ∧
        (observed 8 everyTenth).Enabled pair .endCheck ∧ pair.2.calls.length = 2 :=
    Machine.exists_reaches_of_exec wrapAround (by decide +kernel)
  exact ⟨pair, reached, returns, calls, pending_after_check everyTenth_short (by decide) reached returns⟩

/-- After as long as `sys_timeouts_sleeptime` says a timeout is due, and none is before
that.  The time is never too long for the assertion. -/
theorem sleeptime_exact
    (short : ∀ task msecs, interval task = some msecs → msecs ≤ 0xffffffff / 4)
    (room : timers.length ≤ pool)
    (reached : (observed pool interval).Reaches OnTime (start pool interval passed timers) pair) :
    (pair.1.sysTimeoutsSleeptime u32Clock = none ↔ pair.1.nextTimeout = []) ∧
      ∀ msecs, pair.1.sysTimeoutsSleeptime u32Clock = some msecs →
        msecs ≤ lwipMaxTimeout ∧
        (∃ entry ∈ pair.2.truth.nextTimeout, entry.time ≤ pair.2.truth.passed + msecs) ∧
        ∀ sooner < msecs, ∀ entry ∈ pair.2.truth.nextTimeout,
          pair.2.truth.passed + sooner < entry.time := by
  obtain ⟨wrapped, timely⟩ := faithful_of_reaches short room (fun _ _ onTime => onTime) reached
  rw [wrapped, timely.sleeptime_eq, State.wrap, List.map_eq_nil_iff]
  cases list : pair.2.truth.nextTimeout with
  | nil =>
      exact ⟨⟨fun _ => rfl, fun _ => rfl⟩,
        fun _ found => absurd found (Option.some_ne_none _).symm⟩
  | cons first rest =>
      have window := timely.window first (list ▸ List.mem_cons_self)
      have sorted := timely.sorted
      rw [list] at sorted
      refine ⟨⟨fun none => absurd none (Option.some_ne_none _),
        fun nil => absurd nil (List.cons_ne_nil _ _)⟩, ?_⟩
      intro msecs found
      have sleep : first.time - pair.2.truth.passed = msecs := Option.some.inj found
      refine ⟨?_, ⟨first, List.mem_cons_self, by omega⟩, fun sooner less => ?_⟩
      · rw [lwipMaxTimeout]
        omega
      · have ahead : pair.2.truth.passed + sooner < first.time := by omega
        exact List.forall_mem_cons.mpr ⟨ahead, fun entry member =>
          ahead.trans_le ((List.pairwise_cons.mp sorted).1 entry member)⟩

theorem sleeptime_exact_wrapAround :
    ∃ pair, (observed 8 everyTenth).Reaches OnTime (start 8 everyTenth (2 ^ 32 - 50) [0]) pair ∧
      pair.1.sysTimeoutsSleeptime u32Clock = some 95 ∧
      ∃ entry ∈ pair.2.truth.nextTimeout, entry.time ≤ pair.2.truth.passed + 95 := by
  obtain ⟨pair, reached, sleep⟩ :
      ∃ pair, (observed 8 everyTenth).Reaches OnTime (start 8 everyTenth (2 ^ 32 - 50) [0]) pair ∧
        pair.1.sysTimeoutsSleeptime u32Clock = some 95 :=
    Machine.exists_reaches_of_exec wrapAround (by decide +kernel)
  exact ⟨pair, reached, sleep, ((sleeptime_exact everyTenth_short (by decide) reached).2 95 sleep).2.1⟩

end Runs

end EmbeddedRtps.Timers
