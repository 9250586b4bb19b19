import EmbeddedRtps.Foundation.Machine
import Mathlib.Algebra.Ring.Nat
import Mathlib.Data.List.Induction
import Mathlib.Data.List.Sort

/-!
# Timeouts

The list of pending timeouts, sorted by the time they are due, with the loop of
`sys_check_timeouts` that calls the handlers and with the cyclic timers of the stack,
which register themselves again.  The entries of the list come from a pool.  A function
returns nothing here where the code would fail an assertion.

The code keeps the time in 32 bits, which are used up after 50 days.  It is written
here for any clock, so that the same functions can be run with a clock that never wraps
around.
-/

namespace EmbeddedRtps.Timers

open Foundation

universe u v

/-- What the code does with points in time. -/
structure Clock (Time : Type u) where
  /-- `sys_now`, when so many milliseconds have passed. -/
  now : Nat → Time
  /-- The time so many milliseconds later. -/
  later : Time → Nat → Time
  /-- `TIME_LESS_THAN`. -/
  less : Time → Time → Bool
  /-- The milliseconds to the first time from the second. -/
  wait : Time → Time → Nat

/-- `LWIP_MAX_TIMEOUT`. -/
def lwipMaxTimeout : Nat := 0x7fffffff

/-- Subtraction of `u32_t`. -/
def u32Sub (left right : Nat) : Nat :=
  if right ≤ left then left - right else 2 ^ 32 - (right - left)

/-- `TIME_LESS_THAN`. -/
def timeLessThan (t compareTo : Nat) : Bool := lwipMaxTimeout < u32Sub t compareTo

/-- The clock of the code. -/
def u32Clock : Clock Nat where
  now passed := passed % 2 ^ 32
  later time msecs := (time + msecs) % 2 ^ 32
  less := timeLessThan
  wait := u32Sub

/-- A clock that does not wrap around. -/
def realClock : Clock Nat where
  now passed := passed
  later time msecs := time + msecs
  less time other := time < other
  wait time other := time - other

/-- `struct sys_timeo`, without its link.  The handler and its argument are the task. -/
structure SysTimeo (Time : Type u) (Task : Type v) where
  time : Time
  task : Task
  deriving DecidableEq, Repr

structure State (Time : Type u) (Task : Type v) where
  /-- The milliseconds that have passed. -/
  passed : Nat
  nextTimeout : List (SysTimeo Time Task)
  currentTimeoutDueTime : Time
  /-- `now` in `sys_check_timeouts`, while that is running. -/
  checking : Option Time
  /-- The cyclic timer whose handler is running. -/
  cyclic : Option Task
  deriving DecidableEq, Repr

variable {Time : Type u} {Task : Type v} (c : Clock Time)

/-! ## The list -/

/-- The loop of `sys_timeout_abs` from the entry `t` on. -/
def insertAfter (timeout : SysTimeo Time Task) :
    SysTimeo Time Task → List (SysTimeo Time Task) → List (SysTimeo Time Task)
  | t, [] => [t, timeout]
  | t, next :: rest =>
      if c.less timeout.time next.time then t :: timeout :: next :: rest
      else t :: insertAfter timeout next rest

/-- `sys_timeout_abs`, after the allocation. -/
def enqueue (timeout : SysTimeo Time Task) :
    List (SysTimeo Time Task) → List (SysTimeo Time Task)
  | [] => [timeout]
  | first :: rest =>
      if c.less timeout.time first.time then timeout :: first :: rest
      else insertAfter c timeout first rest

/-- It is the insertion of the library, behind entries that are due at the same time. -/
theorem enqueue_eq (timeout : SysTimeo Time Task) (list : List (SysTimeo Time Task)) :
    enqueue c timeout list =
      list.orderedInsert (fun left right => c.less left.time right.time = true) timeout := by
  have inner : ∀ (first : SysTimeo Time Task) rest,
      insertAfter c timeout first rest = first :: rest.orderedInsert
        (fun left right => c.less left.time right.time = true) timeout := by
    intro first rest
    induction rest generalizing first with
    | nil => rfl
    | cons next rest ih =>
        rw [insertAfter, List.orderedInsert, ih]
        split <;> rfl
  cases list with
  | nil => rfl
  | cons first rest => rw [enqueue, List.orderedInsert, inner]

theorem enqueue_perm (timeout : SysTimeo Time Task) (list : List (SysTimeo Time Task)) :
    (enqueue c timeout list).Perm (timeout :: list) := by
  rw [enqueue_eq]
  exact List.perm_orderedInsert _ _ _

/-- `sys_timeout_abs`.  The pool has `pool` entries, `MEMP_NUM_SYS_TIMEOUT`, and those in
use are the ones in the list. -/
def sysTimeoutAbs (pool : Nat) (timeout : SysTimeo Time Task)
    (list : List (SysTimeo Time Task)) : Option (List (SysTimeo Time Task)) :=
  -- "sys_timeout: timeout != NULL, pool MEMP_SYS_TIMEOUT is empty"
  if list.length < pool then some (enqueue c timeout list) else none

/-- The loop of `sys_restart_timeouts`. -/
def rebase (now base : Time) (list : List (SysTimeo Time Task)) :
    List (SysTimeo Time Task) :=
  list.map fun t => { t with time := c.later now (c.wait t.time base) }

namespace State

variable (pool : Nat)

/-- `sys_timeout`. -/
def sysTimeout (state : State Time Task) (msecs : Nat) (task : Task) :
    Option (State Time Task) :=
  -- "Timeout time too long, max is LWIP_UINT32_MAX/4 msecs"
  if 0xffffffff / 4 < msecs then
    none
  else
    (sysTimeoutAbs c pool ⟨c.later (c.now state.passed) msecs, task⟩ state.nextTimeout).map
      fun list => { state with nextTimeout := list }

/-- `sys_untimeout`. -/
def sysUntimeout [DecidableEq Task] (state : State Time Task) (task : Task) :
    State Time Task :=
  { state with nextTimeout := state.nextTimeout.eraseP fun entry => entry.task = task }

/-- When `lwip_cyclic_timer` is to be called again: an interval after it was due, unless
that is over. -/
def dueAgain (state : State Time Task) (interval : Nat) : Time :=
  let now := c.now state.passed
  let nextTimeoutTime := c.later state.currentTimeoutDueTime interval
  if c.less nextTimeoutTime now then c.later now interval else nextTimeoutTime

theorem dueAgain_of_less {state : State Time Task} {interval : Nat}
    (past : c.less (c.later state.currentTimeoutDueTime interval) (c.now state.passed) = true) :
    state.dueAgain c interval = c.later (c.now state.passed) interval :=
  if_pos past

theorem dueAgain_of_not_less {state : State Time Task} {interval : Nat}
    (past : ¬ c.less (c.later state.currentTimeoutDueTime interval) (c.now state.passed) = true) :
    state.dueAgain c interval = c.later state.currentTimeoutDueTime interval :=
  if_neg past

/-- `lwip_cyclic_timer`, from where the handler has returned. -/
def lwipCyclicTimer (state : State Time Task) (interval : Nat) (task : Task) :
    Option (State Time Task) :=
  (sysTimeoutAbs c pool ⟨state.dueAgain c interval, task⟩ state.nextTimeout).map
    fun list => { state with nextTimeout := list, cyclic := none }

/-- The state with one more entry. -/
def register (state : State Time Task) (time : Time) (task : Task) : State Time Task :=
  { state with nextTimeout := enqueue c ⟨time, task⟩ state.nextTimeout }

variable {pool}

theorem sysTimeout_eq_some_iff {state after : State Time Task} {msecs : Nat} {task : Task} :
    state.sysTimeout c pool msecs task = some after ↔
      (msecs ≤ 0xffffffff / 4 ∧ state.nextTimeout.length < pool) ∧
        state.register c (c.later (c.now state.passed) msecs) task = after := by
  rw [sysTimeout, sysTimeoutAbs]
  split
  next long =>
    exact ⟨fun none => absurd none.symm (Option.some_ne_none _),
      fun ⟨⟨short, _⟩, _⟩ => absurd short (Nat.not_le.mpr long)⟩
  next short =>
    split
    next room =>
      rw [Option.map_some, Option.some.injEq]
      exact ⟨fun equal => ⟨⟨Nat.not_lt.mp short, room⟩, equal⟩, And.right⟩
    next full =>
      exact ⟨fun none => absurd none.symm (Option.some_ne_none _),
        fun ⟨⟨_, room⟩, _⟩ => absurd room full⟩

theorem lwipCyclicTimer_eq_some_iff {state after : State Time Task} {interval : Nat}
    {task : Task} :
    state.lwipCyclicTimer c pool interval task = some after ↔
      state.nextTimeout.length < pool ∧
        { state.register c (state.dueAgain c interval) task with cyclic := none } = after := by
  rw [lwipCyclicTimer, sysTimeoutAbs]
  split
  next room =>
    rw [Option.map_some, Option.some.injEq]
    exact ⟨fun equal => ⟨room, equal⟩, And.right⟩
  next full =>
    exact ⟨fun none => absurd none.symm (Option.some_ne_none _),
      fun ⟨room, _⟩ => absurd room full⟩

/-- The list is empty, or its first entry is not due at the time. -/
def nothingDue (state : State Time Task) (now : Time) : Bool :=
  match state.nextTimeout with
  | [] => true
  | first :: _ => c.less now first.time

/-- One turn of the loop of `sys_check_timeouts` up to the call of the handler.  The entry
goes back to the pool before the call. -/
def fire (interval : Task → Option Nat) (state : State Time Task) : State Time Task :=
  match state.nextTimeout with
  | [] => state
  | first :: rest =>
      { state with
        nextTimeout := rest
        currentTimeoutDueTime := first.time
        cyclic := if (interval first.task).isSome then some first.task else none }

/-- `sys_restart_timeouts`. -/
def sysRestartTimeouts (state : State Time Task) : State Time Task :=
  match state.nextTimeout with
  | [] => state
  | first :: _ =>
      { state with
        nextTimeout := rebase c (c.now state.passed) first.time state.nextTimeout }

/-- `sys_timeouts_sleeptime`, where nothing stands for `SYS_TIMEOUTS_SLEEPTIME_INFINITE`. -/
def sysTimeoutsSleeptime (state : State Time Task) : Option Nat :=
  match state.nextTimeout with
  | [] => none
  | first :: _ =>
      if c.less first.time (c.now state.passed) then some 0
      else some (c.wait first.time (c.now state.passed))

/-- Before any timer is started. -/
def init (passed : Nat) : State Time Task where
  passed := passed
  nextTimeout := []
  currentTimeoutDueTime := c.now 0
  checking := none
  cyclic := none

/-- `sys_timeouts_init` with a table of cyclic timers. -/
def sysTimeoutsInit (pool : Nat) (interval : Task → Nat) (passed : Nat)
    (timers : List Task) : Option (State Time Task) :=
  timers.foldlM (fun state timer => state.sysTimeout c pool (interval timer) timer)
    (init c passed)

/-- It registers each timer of the table once, if the pool is as large as the table. -/
theorem sysTimeoutsInit_spec {interval : Task → Nat} (passed : Nat) {timers : List Task}
    (short : ∀ timer ∈ timers, interval timer ≤ 0xffffffff / 4)
    (room : timers.length ≤ pool) :
    ∃ list : List (SysTimeo Time Task),
      list.Perm (timers.map fun timer => ⟨c.later (c.now passed) (interval timer), timer⟩) ∧
        sysTimeoutsInit c pool interval passed timers =
          some { init c passed with nextTimeout := list } := by
  induction timers using List.reverseRecOn with
  | nil => exact ⟨[], .refl _, rfl⟩
  | append_singleton timers timer ih =>
      obtain ⟨short, last⟩ := List.forall_mem_append.mp short
      rw [List.length_append, List.length_singleton] at room
      obtain ⟨list, perm, started⟩ := ih short (Nat.le_of_succ_le room)
      have length : list.length < pool := by
        rw [perm.length_eq, List.length_map]
        exact room
      have registered : sysTimeout c pool { init c passed with nextTimeout := list }
          (interval timer) timer = some _ :=
        (sysTimeout_eq_some_iff c).mpr
          ⟨⟨last timer (List.mem_singleton_self timer), length⟩, rfl⟩
      rw [sysTimeoutsInit] at started
      refine ⟨_, ?_, by
        rw [sysTimeoutsInit, List.foldlM_append, started, Option.bind_eq_bind,
          Option.bind_some, List.foldlM_cons, registered]
        rfl⟩
      rw [List.map_append]
      exact (enqueue_perm c _ list).trans
        ((perm.cons _).trans (List.perm_append_singleton _ _).symm)

/-- The state in which `sys_timeouts_init` returns. -/
def started (pool : Nat) (interval : Task → Nat) (passed : Nat) (timers : List Task) :
    State Time Task :=
  (sysTimeoutsInit c pool interval passed timers).getD (init c passed)

theorem started_spec {interval : Task → Nat} (passed : Nat) {timers : List Task}
    (short : ∀ timer ∈ timers, interval timer ≤ 0xffffffff / 4)
    (room : timers.length ≤ pool) :
    ∃ list : List (SysTimeo Time Task),
      list.Perm (timers.map fun timer => ⟨c.later (c.now passed) (interval timer), timer⟩) ∧
        started c pool interval passed timers = { init c passed with nextTimeout := list } := by
  obtain ⟨list, perm, returned⟩ := sysTimeoutsInit_spec c passed short room
  exact ⟨list, perm, by rw [started, returned, Option.getD_some]⟩

end State

/-! ## The machine -/

inductive Event (Task : Type v) where
  /-- Time passes. -/
  | tick (elapsed : Nat)
  | timeout (msecs : Nat) (task : Task)
  | untimeout (task : Task)
  /-- `sys_restart_timeouts` is called, for instance when power has been saved for so
  long. -/
  | restart (slept : Nat)
  /-- `sys_check_timeouts` is called. -/
  | beginCheck
  /-- It calls a handler.  What a handler does are events of their own. -/
  | fire
  /-- The handler of a cyclic timer returns. -/
  | reschedule
  /-- `sys_check_timeouts` returns. -/
  | endCheck
  deriving DecidableEq, Repr

variable (pool : Nat) (interval : Task → Option Nat) [DecidableEq Task]

/-- What an event does.  It has no result where an assertion fails. -/
def State.call (state : State Time Task) : Event Task → Option (State Time Task)
  | .tick elapsed => some { state with passed := state.passed + elapsed }
  | .timeout msecs task => state.sysTimeout c pool msecs task
  | .untimeout task => some (state.sysUntimeout task)
  | .restart slept => some ({ state with passed := state.passed + slept }.sysRestartTimeouts c)
  | .beginCheck => some { state with checking := some (c.now state.passed) }
  | .fire => some (state.fire interval)
  | .reschedule =>
      state.cyclic.bind fun task => state.lwipCyclicTimer c pool ((interval task).getD 0) task
  | .endCheck => some { state with checking := none }

/-- Where in `sys_check_timeouts` an event can happen. -/
def Ready (state : State Time Task) : Event Task → Prop
  | .tick _ | .timeout _ _ | .untimeout _ | .restart _ => True
  | .beginCheck => state.checking.isNone = true
  | .fire =>
      state.checking.any (fun now => !state.nothingDue c now) = true ∧
        state.cyclic.isNone = true
  | .reschedule => state.cyclic.isSome = true
  | .endCheck =>
      state.checking.any (fun now => state.nothingDue c now) = true ∧
        state.cyclic.isNone = true

omit [DecidableEq Task] in
instance (state : State Time Task) (event : Event Task) : Decidable (Ready c state event) :=
  match event with
  | .tick _ | .timeout _ _ | .untimeout _ | .restart _ => isTrue trivial
  | .beginCheck | .reschedule => inferInstanceAs (Decidable (_ = _))
  | .fire | .endCheck => inferInstanceAs (Decidable (_ ∧ _))

/-- An event can happen and fails no assertion. -/
def Enabled (state : State Time Task) (event : Event Task) : Prop :=
  Ready c state event ∧ (state.call c pool interval event).isSome = true

instance (state : State Time Task) (event : Event Task) :
    Decidable (Enabled c pool interval state event) :=
  inferInstanceAs (Decidable (_ ∧ _))

def State.apply (state : State Time Task) (event : Event Task) : State Time Task :=
  (state.call c pool interval event).getD state

/-- The timers of the stack and of its users. -/
def machine : Machine (State Time Task) (Event Task) where
  Enabled := Enabled c pool interval
  apply := State.apply c pool interval

instance (state : State Time Task) (event : Event Task) :
    Decidable ((machine c pool interval).Enabled state event) :=
  inferInstanceAs (Decidable (Enabled c pool interval state event))

section Apply

variable {c pool interval} {state : State Time Task}

/-- The two calls that may fail, when they do not. -/
theorem apply_timeout {msecs : Nat} {task : Task}
    (enabled : Enabled c pool interval state (.timeout msecs task)) :
    msecs ≤ 0xffffffff / 4 ∧ state.nextTimeout.length < pool ∧
      state.apply c pool interval (.timeout msecs task) =
        state.register c (c.later (c.now state.passed) msecs) task := by
  obtain ⟨after, called⟩ := Option.isSome_iff_exists.mp enabled.2
  obtain ⟨⟨short, room⟩, rfl⟩ := (State.sysTimeout_eq_some_iff c).mp called
  exact ⟨short, room, by rw [State.apply, called, Option.getD_some]⟩

theorem apply_reschedule (enabled : Enabled c pool interval state .reschedule) :
    ∃ task, state.cyclic = some task ∧ state.nextTimeout.length < pool ∧
      state.apply c pool interval .reschedule =
        { state.register c (state.dueAgain c ((interval task).getD 0)) task with
          cyclic := none } := by
  obtain ⟨after, called⟩ := Option.isSome_iff_exists.mp enabled.2
  obtain ⟨task, running, returned⟩ := Option.bind_eq_some_iff.mp called
  obtain ⟨room, rfl⟩ := (State.lwipCyclicTimer_eq_some_iff c).mp returned
  exact ⟨task, running, room, by rw [State.apply, called, Option.getD_some]⟩

theorem enabled_timeout_iff {msecs : Nat} {task : Task} :
    Enabled c pool interval state (.timeout msecs task) ↔
      msecs ≤ 0xffffffff / 4 ∧ state.nextTimeout.length < pool := by
  constructor
  · intro enabled
    obtain ⟨short, room, _⟩ := apply_timeout enabled
    exact ⟨short, room⟩
  · intro fits
    have called : state.sysTimeout c pool msecs task = some _ :=
      (State.sysTimeout_eq_some_iff c).mpr ⟨fits, rfl⟩
    exact ⟨trivial, Option.isSome_iff_exists.mpr ⟨_, called⟩⟩

theorem enabled_reschedule_iff :
    Enabled c pool interval state .reschedule ↔
      state.cyclic.isSome = true ∧ state.nextTimeout.length < pool := by
  constructor
  · intro enabled
    obtain ⟨task, running, room, _⟩ := apply_reschedule enabled
    exact ⟨enabled.1, room⟩
  · rintro ⟨running, room⟩
    obtain ⟨task, running'⟩ := Option.isSome_iff_exists.mp running
    have returned : state.lwipCyclicTimer c pool ((interval task).getD 0) task = some _ :=
      (State.lwipCyclicTimer_eq_some_iff c).mpr ⟨room, rfl⟩
    exact ⟨running, Option.isSome_iff_exists.mpr
      ⟨_, Option.bind_eq_some_iff.mpr ⟨task, running', returned⟩⟩⟩

end Apply

end EmbeddedRtps.Timers
