import EmbeddedRtps.Timers.Calls

/-!
# The cyclic timers

The timers of the stack register themselves again whenever their handler has returned.
None of them is lost and none is registered twice, whatever time does, if the users of the
stack leave an entry of the pool to the timer whose handler is running.  As long as no
handler returns later than the next call of its timer is due and the timeouts are not
started again, the calls do not drift: the `k`th one is due `k` intervals after the start.
-/

namespace EmbeddedRtps.Timers

open Foundation

universe u v

variable {Time : Type u} {Task : Type v} {c : Clock Time}
variable {pool : Nat} {interval : Task → Option Nat}

/-! ## Each exactly once -/

/-- The timers that are pending or whose handler is running. -/
def State.tasks (state : State Time Task) : List Task :=
  state.cyclic.toList ++ state.nextTimeout.map SysTimeo.task

/-- Those of them that are cyclic. -/
def State.cyclicTasks (interval : Task → Option Nat) (state : State Time Task) : List Task :=
  state.tasks.filter fun task => (interval task).isSome

/-- The users of the stack leave its timers alone, and an entry of the pool to the one
whose handler is running. -/
def LeavesCyclic (pool : Nat) (interval : Task → Option Nat) (state : State Time Task) :
    Event Task → Prop
  | .timeout _ task => interval task = none ∧ state.tasks.length < pool
  | .untimeout task => interval task = none
  | _ => True

instance (state : State Time Task) (event : Event Task) :
    Decidable (LeavesCyclic pool interval state event) :=
  match event with
  | .timeout _ _ => inferInstanceAs (Decidable (_ ∧ _))
  | .untimeout _ => inferInstanceAs (Decidable (_ = _))
  | .tick _ | .restart _ | .beginCheck | .fire | .reschedule | .endCheck => isTrue trivial

variable {state : State Time Task} {event : Event Task}

/-- What is called is the first entry, and no other handler is running. -/
theorem cons_of_fire (ready : Ready c state .fire) :
    state.cyclic = none ∧ ∃ first rest, state.nextTimeout = first :: rest := by
  refine ⟨Option.isNone_iff_eq_none.mp ready.2, ?_⟩
  obtain ⟨now, -, due⟩ := Option.any_eq_true _ _ |>.mp ready.1
  rw [State.nothingDue] at due
  cases list : state.nextTimeout with
  | nil => simp [list] at due
  | cons first rest => exact ⟨first, rest, rfl⟩

/-- A timer is registered. -/
theorem tasks_register (time : Time) (task : Task) :
    (state.register c time task).tasks.Perm (task :: state.tasks) := by
  have added := (enqueue_perm c ⟨time, task⟩ state.nextTimeout).map SysTimeo.task
  exact (added.append_left state.cyclic.toList).trans List.perm_middle

/-- The timer whose handler has returned is registered. -/
theorem tasks_reschedule {task : Task} (running : state.cyclic = some task) (time : Time) :
    ({ state.register c time task with cyclic := none } : State Time Task).tasks.Perm
      state.tasks := by
  rw [State.tasks, State.tasks, running]
  exact (enqueue_perm c ⟨time, task⟩ state.nextTimeout).map SysTimeo.task

theorem tasks_sysRestartTimeouts : (state.sysRestartTimeouts c).tasks = state.tasks := by
  rw [State.sysRestartTimeouts]
  split
  next => rfl
  next list =>
    simp only [State.tasks, rebase, List.map_map]
    rfl

/-- The first entry is taken from the list, and its handler runs if it is cyclic. -/
theorem tasks_fire (interval : Task → Option Nat) {first : SysTimeo Time Task}
    {rest : List (SysTimeo Time Task)} (idle : state.cyclic = none) (list : state.nextTimeout = first :: rest) :
    state.tasks = first.task :: rest.map SysTimeo.task ∧
      (state.fire interval).tasks =
        if (interval first.task).isSome then state.tasks else rest.map SysTimeo.task := by
  have before : state.tasks = first.task :: rest.map SysTimeo.task := by
    rw [State.tasks, idle, list]
    rfl
  refine ⟨before, ?_⟩
  rw [before, State.fire, list, State.tasks]
  simp only
  split <;> rfl

theorem cyclicTasks_started {timers : List Task} {msecs : Task → Nat} (passed : Nat)
    (short : ∀ task ∈ timers, msecs task ≤ 0xffffffff / 4) (room : timers.length ≤ pool)
    (cyclic : ∀ task ∈ timers, (interval task).isSome = true) :
    (State.started c pool msecs passed timers).tasks.Perm timers ∧
      ((State.started c pool msecs passed timers).cyclicTasks interval).Perm timers := by
  obtain ⟨list, perm, started⟩ := State.started_spec c passed short room
  have tasks : (State.started c pool msecs passed timers).tasks.Perm timers := by
    rw [started]
    simpa [Function.comp_def, State.tasks, State.init] using perm.map SysTimeo.task
  have all : (timers.filter fun task => (interval task).isSome) = timers :=
    List.filter_eq_self.mpr cyclic
  have perm := tasks.filter fun task => (interval task).isSome
  rw [all] at perm
  exact ⟨tasks, perm⟩

variable [DecidableEq Task]

/-- The removal of another timer is not noticed. -/
theorem filter_eraseP (test : Task → Bool) {task : Task} (other : test task = false)
    (list : List (SysTimeo Time Task)) :
    ((list.eraseP fun entry => entry.task = task).map SysTimeo.task).filter test =
      (list.map SysTimeo.task).filter test := by
  induction list with
  | nil => rfl
  | cons first rest ih =>
      rw [List.eraseP_cons]
      by_cases same : first.task = task
      · simp [same, other]
      · simp [same, List.filter_cons, ih]

theorem cyclicTasks_apply (enabled : Enabled c pool interval state event)
    (leaves : LeavesCyclic pool interval state event) :
    ((state.apply c pool interval event).cyclicTasks interval).Perm
      (state.cyclicTasks interval) := by
  cases event with
  | tick elapsed => exact .refl _
  | timeout msecs task =>
      obtain ⟨_, _, applied⟩ := apply_timeout enabled
      have other : ¬ (interval task).isSome = true := by
        rw [leaves.1]
        exact Bool.false_ne_true
      rw [applied, State.cyclicTasks]
      refine ((tasks_register _ task).filter _).trans ?_
      rw [List.filter_cons, if_neg other]
      exact .refl _
  | untimeout task =>
      have other : (interval task).isSome = false := by
        rw [show interval task = none from leaves, Option.isSome_none]
      change (State.cyclicTasks interval (state.sysUntimeout task)).Perm _
      simp only [State.cyclicTasks, State.tasks, State.sysUntimeout,
        List.filter_append, filter_eraseP (fun task => (interval task).isSome) other]
      exact .refl _
  | restart slept =>
      refine .of_eq (congrArg (List.filter _) ?_)
      exact tasks_sysRestartTimeouts
  | beginCheck => exact .refl _
  | fire =>
      obtain ⟨idle, first, rest, list⟩ := cons_of_fire enabled.1
      obtain ⟨before, after⟩ := tasks_fire interval idle list
      change (State.cyclicTasks interval (state.fire interval)).Perm _
      rw [State.cyclicTasks, State.cyclicTasks, after]
      split
      next => exact .refl _
      next other => rw [before, List.filter_cons, if_neg other]
  | reschedule =>
      obtain ⟨task, running, _, applied⟩ := apply_reschedule enabled
      rw [applied]
      exact (tasks_reschedule running _).filter _
  | endCheck => exact .refl _

/-- There are never more timers than entries in the pool, with the one whose handler is
running. -/
theorem length_tasks_apply (enabled : Enabled c pool interval state event)
    (leaves : LeavesCyclic pool interval state event) (room : state.tasks.length ≤ pool) :
    (state.apply c pool interval event).tasks.length ≤ pool := by
  cases event with
  | tick elapsed => exact room
  | timeout msecs task =>
      obtain ⟨_, _, applied⟩ := apply_timeout enabled
      rw [applied, (tasks_register _ task).length_eq]
      exact leaves.2
  | untimeout task =>
      have fewer : (state.sysUntimeout task).tasks.length ≤ state.tasks.length := by
        simp only [State.tasks, State.sysUntimeout, List.length_append, List.length_map]
        exact Nat.add_le_add_left List.length_eraseP_le _
      exact fewer.trans room
  | restart slept =>
      change (State.tasks (State.sysRestartTimeouts c _)).length ≤ pool
      rw [tasks_sysRestartTimeouts]
      exact room
  | beginCheck => exact room
  | fire =>
      obtain ⟨idle, first, rest, list⟩ := cons_of_fire enabled.1
      obtain ⟨before, after⟩ := tasks_fire interval idle list
      change (State.tasks (state.fire interval)).length ≤ pool
      rw [after]
      split
      next => exact room
      next =>
        rw [before, List.length_cons] at room
        exact Nat.le_of_succ_le room
  | reschedule =>
      obtain ⟨task, running, _, applied⟩ := apply_reschedule enabled
      rw [applied, (tasks_reschedule running _).length_eq]
      exact room
  | endCheck => exact room

/-- In every run each cyclic timer is pending exactly once or its handler is running,
whatever the clock does, and when a handler returns, the pool has an entry for its
timer. -/
theorem cyclic_timers_kept {timers : List Task} {passed : Nat}
    (short : ∀ task msecs, interval task = some msecs → msecs ≤ 0xffffffff / 4)
    (room : timers.length ≤ pool) (cyclic : ∀ task ∈ timers, (interval task).isSome = true)
    (reached : (machine c pool interval).Reaches (LeavesCyclic pool interval)
      (.started c pool (fun task => (interval task).getD 0) passed timers) state) :
    (state.cyclicTasks interval).Perm timers ∧
      (state.cyclic.isSome = true → Enabled c pool interval state .reschedule) := by
  have kept : (state.cyclicTasks interval).Perm timers ∧ state.tasks.length ≤ pool := by
    induction reached with
    | refl =>
        obtain ⟨tasks, perm⟩ := cyclicTasks_started passed
          (fun task _ => getD_short short task) room cyclic
        exact ⟨perm, tasks.length_eq.trans_le room⟩
    | step _ enabled leaves ih =>
        exact ⟨(cyclicTasks_apply enabled leaves).trans ih.1,
          length_tasks_apply enabled leaves ih.2⟩
  refine ⟨kept.1, fun running => enabled_reschedule_iff.mpr ⟨running, ?_⟩⟩
  obtain ⟨task, running⟩ := Option.isSome_iff_exists.mp running
  have room := kept.2
  rw [State.tasks, running, Option.toList_some, List.singleton_append, List.length_cons,
    List.length_map] at room
  exact room

theorem cyclic_timers_kept_wrapAround :
    ∃ state, (machine u32Clock 2 everyTenth).Reaches (LeavesCyclic 2 everyTenth)
        (.started u32Clock 2 (fun task => (everyTenth task).getD 0) (2 ^ 32 - 50) [0])
        state ∧
      state.cyclic = some 0 ∧ (state.cyclicTasks everyTenth).Perm [0] ∧
      Enabled u32Clock 2 everyTenth state .reschedule := by
  obtain ⟨state, reached, running⟩ :
      ∃ state, (machine u32Clock 2 everyTenth).Reaches (LeavesCyclic 2 everyTenth)
          (.started u32Clock 2 (fun task => (everyTenth task).getD 0) (2 ^ 32 - 50) [0])
          state ∧
        state.cyclic = some 0 :=
    Machine.exists_reaches_of_exec (wrapAround.take 8) (by decide +kernel)
  obtain ⟨kept, returns⟩ := cyclic_timers_kept everyTenth_short (by decide) (by decide) reached
  exact ⟨state, reached, running, kept, returns (by rw [running]; rfl)⟩

/-- The condition on the pool is needed: the entry of a cyclic timer goes back to the pool
before its handler is called, and a timeout that is started in the handler can take it. -/
theorem exists_cyclic_lost :
    ∃ state, (machine u32Clock 1 everyTenth).Reaches Machine.AnyStep
        (.started u32Clock 1 (fun task => (everyTenth task).getD 0) 0 [0]) state ∧
      state.cyclic = some 0 ∧ ¬ Enabled u32Clock 1 everyTenth state .reschedule :=
  Machine.exists_reaches_of_exec [.tick 100, .beginCheck, .fire, .timeout 5 1]
    (by decide +kernel)

/-! ## No drift -/

/-- No cyclic handler returns after the next call of its timer is due, and the timeouts are
not started again. -/
def Steady (interval : Task → Option Nat) (truth : State Nat Task) : Event Task → Prop
  | .reschedule => ∀ task ∈ truth.cyclic,
      truth.passed ≤ truth.currentTimeoutDueTime + (interval task).getD 0
  | .restart _ => False
  | _ => True

omit [DecidableEq Task] in
instance (truth : State Nat Task) (event : Event Task) :
    Decidable (Steady interval truth event) :=
  match event with
  | .reschedule => inferInstanceAs (Decidable (∀ _ ∈ _, _))
  | .restart _ => isFalse id
  | .tick _ | .timeout _ _ | .untimeout _ | .beginCheck | .fire | .endCheck => isTrue trivial

/-- All of this together. -/
def InTime (pool : Nat) (interval : Task → Option Nat)
    (pair : State Nat Task × Observer Task) (event : Event Task) : Prop :=
  OnTime pair event ∧ LeavesCyclic pool interval pair.1 event ∧
    Steady interval pair.2.truth event

instance (pair : State Nat Task × Observer Task) (event : Event Task) :
    Decidable (InTime pool interval pair event) :=
  inferInstanceAs (Decidable (_ ∧ _ ∧ _))

/-- When the calls of a handler were due. -/
def Observer.dues (observer : Observer Task) (task : Task) : List Nat :=
  (observer.calls.filter fun call => call.task = task).map Call.due

/-- The timer has been called so many times, in each interval once. -/
structure Rhythm (interval : Task → Option Nat) (timers : List Task) (task : Task)
    (passed msecs : Nat) (observer : Observer Task) (count : Nat) : Prop where
  kept : (observer.truth.cyclicTasks interval).Perm timers
  dues : observer.dues task = (List.range count).map fun index => passed + (index + 1) * msecs
  pending : ∀ entry ∈ observer.truth.nextTimeout, entry.task = task →
    entry.time = passed + (count + 1) * msecs
  running : task ∈ observer.truth.cyclic →
    observer.truth.currentTimeoutDueTime = passed + count * msecs

section Rhythm

variable {timers : List Task} {task : Task} {passed msecs count : Nat}
variable {observer : Observer Task}

/-- Events without a call. -/
theorem Rhythm.keep {truth : State Nat Task}
    (rhythm : Rhythm interval timers task passed msecs observer count)
    (kept : (truth.cyclicTasks interval).Perm (observer.truth.cyclicTasks interval))
    (added : ∀ entry ∈ truth.nextTimeout, entry.task = task →
      entry ∈ observer.truth.nextTimeout ∨ entry.time = passed + (count + 1) * msecs)
    (running : task ∈ truth.cyclic → task ∈ observer.truth.cyclic)
    (same : truth.currentTimeoutDueTime = observer.truth.currentTimeoutDueTime) :
    Rhythm interval timers task passed msecs { observer with truth := truth } count where
  kept := kept.trans rhythm.kept
  dues := rhythm.dues
  pending entry member named :=
    (added entry member named).elim (fun old => rhythm.pending entry old named) id
  running cyclic := same ▸ rhythm.running (running cyclic)

/-- A handler is called, that of this timer or another one. -/
theorem Rhythm.fire (rhythm : Rhythm interval timers task passed msecs observer count)
    (unique : timers.Nodup) (cyclic : interval task = some msecs)
    (enabled : Enabled realClock pool interval observer.truth .fire) :
    ∃ count, Rhythm interval timers task passed msecs
      (observer.observe pool interval observer.truth.wrap .fire) count := by
  obtain ⟨idle, first, rest, list⟩ := cons_of_fire enabled.1
  have kept : ((observer.truth.apply realClock pool interval .fire).cyclicTasks interval).Perm
      timers := (cyclicTasks_apply enabled trivial).trans rhythm.kept
  have calls : observer.observe pool interval observer.truth.wrap .fire = _ :=
    Observer.observe_fire list
  by_cases named : first.task = task
  · have due := rhythm.pending first (list ▸ List.mem_cons_self) named
    refine ⟨count + 1, kept, ?_, ?_, ?_⟩
    · rw [calls, Observer.dues, List.filter_append, List.map_append, List.range_succ,
        List.map_append, ← rhythm.dues, Observer.dues]
      simp [named, due]
    · -- it is not pending a second time
      intro entry member same
      have called : observer.truth.apply realClock pool interval .fire = _ :=
        congrArg Observer.truth calls
      have once := kept.nodup_iff.mpr unique
      rw [called, State.cyclicTasks, State.tasks, named, cyclic, Option.isSome_some, if_pos rfl,
        Option.toList_some, List.singleton_append,
        List.filter_cons_of_pos (by rw [cyclic, Option.isSome_some])] at once
      rw [calls] at member
      refine absurd (List.mem_filter.mpr ⟨?_, ?_⟩) (List.nodup_cons.mp once).1
      · exact List.mem_map.mpr ⟨entry, member, same⟩
      · rw [cyclic, Option.isSome_some]
    · rw [calls]
      exact fun _ => due
  · refine ⟨count, kept, ?_, ?_, ?_⟩
    · rw [calls, ← rhythm.dues, Observer.dues, Observer.dues, List.filter_append]
      simp [named]
    · rw [calls]
      exact fun entry member => rhythm.pending entry (list ▸ List.mem_cons_of_mem _ member)
    · rw [calls]
      intro running
      have running : (if (interval first.task).isSome = true then some first.task else none) =
          some task := running
      split at running
      · exact absurd (Option.some.inj running) named
      · cases running

theorem Rhythm.observe (rhythm : Rhythm interval timers task passed msecs observer count)
    (unique : timers.Nodup) (cyclic : interval task = some msecs)
    (enabled : Enabled realClock pool interval observer.truth event)
    (leaves : LeavesCyclic pool interval observer.truth event)
    (steady : Steady interval observer.truth event) :
    ∃ count, Rhythm interval timers task passed msecs
      (observer.observe pool interval observer.truth.wrap event) count := by
  have kept : ((observer.observe pool interval observer.truth.wrap event).truth.cyclicTasks
      interval).Perm (observer.truth.cyclicTasks interval) := cyclicTasks_apply enabled leaves
  cases event with
  | tick elapsed => exact ⟨count, rhythm.keep kept (fun _ member _ => .inl member) id rfl⟩
  | timeout msecs other =>
      rw [Observer.observe_timeout enabled] at kept ⊢
      refine ⟨count, rhythm.keep kept (fun entry member named => ?_) id rfl⟩
      rcases mem_enqueue.mp member with rfl | member
      · have user := leaves.1
        rw [show other = task from named, cyclic] at user
        cases user
      · exact .inl member
  | untimeout other =>
      exact ⟨count, rhythm.keep kept
        (fun _ member _ => .inl (List.mem_of_mem_eraseP member)) id rfl⟩
  | restart slept => exact steady.elim
  | beginCheck => exact ⟨count, rhythm.keep kept (fun _ member _ => .inl member) id rfl⟩
  | fire => exact rhythm.fire unique cyclic enabled
  | reschedule =>
      obtain ⟨other, running, equal⟩ := Observer.observe_reschedule enabled
      have returned := steady other running
      rw [equal] at kept ⊢
      refine ⟨count, rhythm.keep kept (fun entry member named => ?_)
        (fun cyclic => absurd cyclic (Option.not_mem_none _)) rfl⟩
      rcases mem_enqueue.mp member with rfl | member
      · have named : other = task := named
        subst named
        have due := rhythm.running running
        rw [State.dueAgain_of_not_less realClock (mt realClock_less.mp returned.not_gt),
          realClock_later, due, cyclic, Option.getD_some]
        exact .inr (by rw [Nat.succ_mul, Nat.add_assoc])
      · exact .inl member
  | endCheck => exact ⟨count, rhythm.keep kept (fun _ member _ => .inl member) id rfl⟩

theorem rhythm_start
    (short : ∀ task msecs, interval task = some msecs → msecs ≤ 0xffffffff / 4)
    (room : timers.length ≤ pool) (cyclic : interval task = some msecs)
    (all : ∀ task ∈ timers, (interval task).isSome = true) :
    Rhythm interval timers task passed msecs (start pool interval passed timers).2 0 := by
  have short' : ∀ task ∈ timers, (interval task).getD 0 ≤ 0xffffffff / 4 :=
    fun task _ => getD_short short task
  obtain ⟨_, kept⟩ := cyclicTasks_started (c := realClock) passed short' room all
  obtain ⟨list, perm, started⟩ := State.started_spec realClock passed short' room
  refine ⟨kept, rfl, ?_, ?_⟩
  · rw [start, started]
    intro entry member named
    obtain ⟨timer, -, rfl⟩ := List.mem_map.mp (perm.subset member)
    have named : timer = task := named
    rw [named, cyclic, realClock_later, realClock_now, Option.getD_some, Nat.zero_add,
      Nat.one_mul]
  · rw [start, started]
    exact fun running => absurd running (Option.not_mem_none _)

omit [DecidableEq Task] in
/-- The 32 bits have the same timers. -/
theorem tasks_wrap (truth : State Nat Task) : truth.wrap.tasks = truth.tasks := by
  simp only [State.tasks, State.wrap, List.map_map]
  rfl

omit [DecidableEq Task] in
theorem leavesCyclic_wrap {truth : State Nat Task} :
    LeavesCyclic pool interval truth.wrap event ↔ LeavesCyclic pool interval truth event := by
  cases event with
  | timeout msecs task => rw [LeavesCyclic, LeavesCyclic, tasks_wrap]
  | tick | untimeout | restart | beginCheck | fire | reschedule | endCheck => exact Iff.rfl

/-- The calls of a cyclic timer do not drift, however late its handler is called in each
interval, and none is left out. -/
theorem cyclic_calls_exact
    (short : ∀ task msecs, interval task = some msecs → msecs ≤ 0xffffffff / 4)
    (room : timers.length ≤ pool) (unique : timers.Nodup)
    (all : ∀ task ∈ timers, (interval task).isSome = true)
    (cyclic : interval task = some msecs) {pair : State Nat Task × Observer Task}
    (reached : (observed pool interval).Reaches (InTime pool interval)
      (start pool interval passed timers) pair) :
    ∃ count, pair.2.dues task =
      (List.range count).map fun index => passed + (index + 1) * msecs := by
  obtain ⟨count, rhythm⟩ := observer_invariant
    (fun observer => ∃ count, Rhythm interval timers task passed msecs observer count)
    short room (fun _ _ inTime => inTime.1) ⟨0, rhythm_start short room cyclic all⟩
    (fun _ _ _ ⟨_, rhythm⟩ enabled ⟨_, leaves, steady⟩ =>
      rhythm.observe unique cyclic enabled (leavesCyclic_wrap.mp leaves) steady) reached
  exact ⟨count, rhythm.dues⟩

end Rhythm

/-- The handler is called 5 and then 40 milliseconds late. -/
def lateCalls : List (Event Nat) :=
  [.tick 105, .beginCheck, .fire, .reschedule, .endCheck, .tick 135, .beginCheck, .fire]

theorem cyclic_calls_exact_lateCalls :
    ∃ pair, (observed 8 everyTenth).Reaches (InTime 8 everyTenth)
        (start 8 everyTenth (2 ^ 32 - 150) [0]) pair ∧
      pair.2.calls.map Call.called = [2 ^ 32 - 45, 2 ^ 32 + 90] ∧
      ∃ count, pair.2.dues 0 =
        (List.range count).map fun index => 2 ^ 32 - 150 + (index + 1) * 100 := by
  obtain ⟨pair, reached, called⟩ :
      ∃ pair, (observed 8 everyTenth).Reaches (InTime 8 everyTenth)
          (start 8 everyTenth (2 ^ 32 - 150) [0]) pair ∧
        pair.2.calls.map Call.called = [2 ^ 32 - 45, 2 ^ 32 + 90] :=
    Machine.exists_reaches_of_exec lateCalls (by decide +kernel)
  exact ⟨pair, reached, called,
    cyclic_calls_exact everyTenth_short (by decide) (by decide) (by decide) rfl reached⟩

end EmbeddedRtps.Timers
