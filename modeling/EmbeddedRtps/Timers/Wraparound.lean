import EmbeddedRtps.Timers.Basic

/-!
# The clock that wraps around

As long as no timeout is overdue by more than a quarter of the range of the clock, about
twelve days, the code does with 32 bits what it would do with a clock that never wraps
around: timeouts are called in the order in which they are due, none too early, and none
is left out.
-/

namespace EmbeddedRtps.Timers

open Foundation

universe v

variable {Task : Type v}

/-! ## Times -/

@[simp] theorem realClock_now (passed : Nat) : realClock.now passed = passed := rfl

@[simp] theorem realClock_later (time msecs : Nat) :
    realClock.later time msecs = time + msecs := rfl

@[simp] theorem realClock_less {left right : Nat} :
    realClock.less left right = true ↔ left < right := decide_eq_true_iff

theorem u32Clock_now (passed : Nat) : u32Clock.now passed = passed % 2 ^ 32 := rfl

theorem u32Clock_later (time msecs : Nat) :
    u32Clock.later (time % 2 ^ 32) msecs = (time + msecs) % 2 ^ 32 :=
  Nat.mod_add_mod _ _ _

/-- Times that are not too far apart are compared correctly. -/
theorem u32Clock_less {left right : Nat} (near : left < right + 2 ^ 31)
    (near' : right < left + 2 ^ 31) :
    u32Clock.less (left % 2 ^ 32) (right % 2 ^ 32) = realClock.less left right := by
  have wrapped : lwipMaxTimeout < u32Sub (left % 2 ^ 32) (right % 2 ^ 32) ↔ left < right := by
    rw [u32Sub, lwipMaxTimeout]
    split <;> omega
  exact decide_eq_decide.mpr wrapped

theorem u32Clock_wait {left right : Nat} (near : left < right + 2 ^ 31)
    (after : right ≤ left) :
    u32Clock.wait (left % 2 ^ 32) (right % 2 ^ 32) = left - right := by
  show u32Sub _ _ = _
  rw [u32Sub]
  split <;> omega

/-- What 32 bits keep of an entry. -/
def SysTimeo.wrap (entry : SysTimeo Nat Task) : SysTimeo Nat Task :=
  ⟨entry.time % 2 ^ 32, entry.task⟩

/-- What 32 bits keep of a state. -/
def State.wrap (truth : State Nat Task) : State Nat Task where
  passed := truth.passed
  nextTimeout := truth.nextTimeout.map SysTimeo.wrap
  currentTimeoutDueTime := truth.currentTimeoutDueTime % 2 ^ 32
  checking := truth.checking.map (· % 2 ^ 32)
  cyclic := truth.cyclic

/-! ## The invariant -/

/-- No time in use is a quarter of the range away from the present. -/
structure Timely (truth : State Nat Task) : Prop where
  sorted : truth.nextTimeout.Pairwise fun entry later => entry.time ≤ later.time
  window : ∀ entry ∈ truth.nextTimeout,
    truth.passed ≤ entry.time + 2 ^ 30 ∧ entry.time < truth.passed + 2 ^ 30
  checking : ∀ now ∈ truth.checking, now ≤ truth.passed ∧ truth.passed ≤ now + 2 ^ 30
  cyclic : truth.cyclic.isSome = true → truth.currentTimeoutDueTime ≤ truth.passed ∧
    truth.passed ≤ truth.currentTimeoutDueTime + 2 ^ 30

/-- At that time, neither a call of `sys_check_timeouts` nor one of a cyclic handler has
taken as long as a quarter of the range. -/
def Brief (truth : State Nat Task) (passed : Nat) : Prop :=
  (∀ now ∈ truth.checking, passed ≤ now + 2 ^ 30) ∧
    (truth.cyclic.isSome = true → passed ≤ truth.currentTimeoutDueTime + 2 ^ 30)

/-- Time does not pass by so much that a timeout is overdue by more than a quarter of the
range, unless the timeouts are started again, which must not be further apart than
that. -/
def Punctual (truth : State Nat Task) : Event Task → Prop
  | .tick elapsed =>
      (∀ entry ∈ truth.nextTimeout, truth.passed + elapsed ≤ entry.time + 2 ^ 30) ∧
        Brief truth (truth.passed + elapsed)
  | .restart slept =>
      (∀ entry ∈ truth.nextTimeout, ∀ other ∈ truth.nextTimeout,
          entry.time < other.time + 2 ^ 30) ∧
        Brief truth (truth.passed + slept)
  | _ => True

instance (truth : State Nat Task) (passed : Nat) : Decidable (Brief truth passed) :=
  inferInstanceAs (Decidable (_ ∧ (_ → _)))

instance (truth : State Nat Task) (event : Event Task) : Decidable (Punctual truth event) :=
  match event with
  | .tick _ | .restart _ => inferInstanceAs (Decidable (_ ∧ Brief truth _))
  | .timeout _ _ | .untimeout _ | .beginCheck | .fire | .reschedule | .endCheck =>
      isTrue trivial

/-! ## The list -/

variable {list : List (SysTimeo Nat Task)} {time : Nat} {task : Task}

theorem mem_enqueue {c : Clock Nat} {timeout entry : SysTimeo Nat Task} :
    entry ∈ enqueue c timeout list ↔ entry = timeout ∨ entry ∈ list := by
  rw [enqueue_eq, List.mem_orderedInsert]

/-- A list stays sorted. -/
theorem sorted_enqueue
    (sorted : list.Pairwise fun entry later => entry.time ≤ later.time) :
    (enqueue realClock ⟨time, task⟩ list).Pairwise
      fun entry later => entry.time ≤ later.time := by
  rw [enqueue_eq]
  induction list with
  | nil => exact List.pairwise_singleton _ _
  | cons first rest ih =>
      obtain ⟨least, sorted'⟩ := List.pairwise_cons.mp sorted
      rw [List.orderedInsert]
      split
      next less =>
        have before : time < first.time := realClock_less.mp less
        refine List.pairwise_cons.mpr ⟨fun entry member => ?_, sorted⟩
        rcases List.mem_cons.mp member with rfl | member
        · exact before.le
        · exact before.le.trans (least entry member)
      next notLess =>
        have after : first.time ≤ time := Nat.not_lt.mp (mt realClock_less.mpr notLess)
        refine List.pairwise_cons.mpr ⟨fun entry member => ?_, ih sorted'⟩
        rcases (List.mem_orderedInsert _).mp member with rfl | member
        · exact after
        · exact least entry member

/-- Insertion by 32 bits is insertion by the real time. -/
theorem wrap_enqueue
    (near : ∀ entry ∈ list, time < entry.time + 2 ^ 31 ∧ entry.time < time + 2 ^ 31) :
    enqueue u32Clock (SysTimeo.wrap ⟨time, task⟩) (list.map SysTimeo.wrap) =
      (enqueue realClock ⟨time, task⟩ list).map SysTimeo.wrap := by
  rw [enqueue_eq, enqueue_eq]
  induction list with
  | nil => rfl
  | cons first rest ih =>
      obtain ⟨here, there⟩ := List.forall_mem_cons.mp near
      simp only [List.map_cons, List.orderedInsert, ih there]
      simp only [SysTimeo.wrap, u32Clock_less here.1 here.2]
      split <;> rfl

/-- Starting again keeps the order. -/
theorem sorted_rebase (now base : Nat)
    (sorted : list.Pairwise fun entry later => entry.time ≤ later.time) :
    (rebase realClock now base list).Pairwise fun entry later => entry.time ≤ later.time :=
  List.pairwise_map.mpr <| sorted.imp fun before =>
    Nat.add_le_add_left (Nat.sub_le_sub_right before _) _

theorem mem_rebase {now base : Nat} {entry : SysTimeo Nat Task} :
    entry ∈ rebase realClock now base list ↔
      ∃ old ∈ list, (⟨now + (old.time - base), old.task⟩ : SysTimeo Nat Task) = entry :=
  List.mem_map

/-- It is the same by 32 bits and by the real time. -/
theorem wrap_rebase (now : Nat) {base : Nat}
    (near : ∀ entry ∈ list, base ≤ entry.time ∧ entry.time < base + 2 ^ 31) :
    rebase u32Clock (now % 2 ^ 32) (base % 2 ^ 32) (list.map SysTimeo.wrap) =
      (rebase realClock now base list).map SysTimeo.wrap := by
  simp only [rebase, List.map_map]
  refine List.map_congr_left fun entry member => ?_
  obtain ⟨after, close⟩ := near entry member
  simp only [Function.comp_apply, SysTimeo.wrap, u32Clock_wait close after, u32Clock_later,
    realClock]

/-! ## Steps -/

variable {truth : State Nat Task}

/-- A timeout is registered. -/
theorem Timely.register (timely : Timely truth) (time : Nat) (task : Task)
    (early : truth.passed ≤ time + 2 ^ 30) (late : time < truth.passed + 2 ^ 30) :
    Timely (truth.register realClock time task) ∧
      truth.wrap.register u32Clock (time % 2 ^ 32) task =
        (truth.register realClock time task).wrap := by
  constructor
  · refine ⟨sorted_enqueue timely.sorted, fun entry member => ?_, timely.checking,
      timely.cyclic⟩
    rcases mem_enqueue.mp member with rfl | member
    · exact ⟨early, late⟩
    · exact timely.window entry member
  · have near : ∀ entry ∈ truth.nextTimeout,
        time < entry.time + 2 ^ 31 ∧ entry.time < time + 2 ^ 31 := by
      intro entry member
      have window := timely.window entry member
      omega
    have same : enqueue u32Clock ⟨time % 2 ^ 32, task⟩ (truth.nextTimeout.map SysTimeo.wrap) =
        (enqueue realClock ⟨time, task⟩ truth.nextTimeout).map SysTimeo.wrap :=
      wrap_enqueue near
    simp only [State.register, State.wrap, same]

/-- `sys_untimeout`. -/
theorem Timely.sysUntimeout [DecidableEq Task] (timely : Timely truth) :
    Timely (truth.sysUntimeout task) ∧
      truth.wrap.sysUntimeout task = (truth.sysUntimeout task).wrap := by
  refine ⟨⟨timely.sorted.sublist List.eraseP_sublist, fun entry member => ?_,
    timely.checking, timely.cyclic⟩, ?_⟩
  · exact timely.window entry (List.mem_of_mem_eraseP member)
  · simp only [State.sysUntimeout, State.wrap, List.eraseP_map]
    rfl

theorem Timely.wrap_dueAgain (timely : Timely truth) {interval : Nat}
    (short : interval < 2 ^ 30) (running : truth.cyclic.isSome = true) :
    truth.wrap.dueAgain u32Clock interval = truth.dueAgain realClock interval % 2 ^ 32 := by
  obtain ⟨before, recent⟩ := timely.cyclic running
  have same : u32Clock.less (u32Clock.later truth.wrap.currentTimeoutDueTime interval)
      (u32Clock.now truth.wrap.passed) = realClock.less
        (realClock.later truth.currentTimeoutDueTime interval) (realClock.now truth.passed) := by
    simp only [State.wrap, u32Clock_later, u32Clock_now, realClock_later, realClock_now]
    exact u32Clock_less (by omega) (by omega)
  by_cases past : realClock.less (realClock.later truth.currentTimeoutDueTime interval)
      (realClock.now truth.passed) = true
  · rw [State.dueAgain_of_less _ past, State.dueAgain_of_less _ (same.trans past)]
    exact u32Clock_later _ _
  · rw [State.dueAgain_of_not_less _ past, State.dueAgain_of_not_less _ (same ▸ past)]
    exact u32Clock_later _ _

theorem Timely.dueAgain_near (timely : Timely truth) {interval : Nat}
    (short : interval < 2 ^ 30) (running : truth.cyclic.isSome = true) :
    truth.passed ≤ truth.dueAgain realClock interval + 2 ^ 30 ∧
      truth.dueAgain realClock interval < truth.passed + 2 ^ 30 := by
  obtain ⟨before, recent⟩ := timely.cyclic running
  by_cases past : realClock.less (realClock.later truth.currentTimeoutDueTime interval)
      (realClock.now truth.passed) = true
  · rw [State.dueAgain_of_less _ past, realClock_later, realClock_now]
    omega
  · rw [State.dueAgain_of_not_less _ past, realClock_later]
    omega

/-- `sys_check_timeouts` finds a timeout to be due exactly if it is. -/
theorem Timely.nothingDue_eq (timely : Timely truth) {now : Nat}
    (member : now ∈ truth.checking) :
    truth.wrap.nothingDue u32Clock (now % 2 ^ 32) = truth.nothingDue realClock now := by
  obtain ⟨before, recent⟩ := timely.checking now member
  rw [State.nothingDue, State.nothingDue, State.wrap]
  cases list : truth.nextTimeout with
  | nil => rfl
  | cons first rest =>
      have window := timely.window first (list ▸ List.mem_cons_self)
      exact u32Clock_less (by omega) (by omega)

variable {pool : Nat} {interval : Task → Option Nat} {event : Event Task}

/-- The code is as far as it would be with the real time, and finds the pool as full. -/
theorem Timely.enabled_iff [DecidableEq Task] (timely : Timely truth) :
    Enabled u32Clock pool interval truth.wrap event ↔
      Enabled realClock pool interval truth event := by
  have wrapped : truth.wrap.checking = truth.checking.map (· % 2 ^ 32) := rfl
  have length : truth.wrap.nextTimeout.length = truth.nextTimeout.length :=
    List.length_map SysTimeo.wrap
  have running : truth.wrap.cyclic = truth.cyclic := rfl
  cases event with
  | tick elapsed => exact Iff.rfl
  | timeout msecs task => rw [enabled_timeout_iff, enabled_timeout_iff, length]
  | untimeout task => exact Iff.rfl
  | restart slept => exact Iff.rfl
  | beginCheck => simp only [Enabled, Ready, State.call, State.wrap, Option.isNone_map]; rfl
  | fire =>
      refine and_congr (and_congr ?_ Iff.rfl) Iff.rfl
      rw [wrapped]
      cases running : truth.checking with
      | none => exact Iff.rfl
      | some now => rw [Option.map_some, Option.any_some, timely.nothingDue_eq running]; rfl
  | reschedule => rw [enabled_reschedule_iff, enabled_reschedule_iff, length, running]
  | endCheck =>
      refine and_congr (and_congr ?_ Iff.rfl) Iff.rfl
      rw [wrapped]
      cases running : truth.checking with
      | none => exact Iff.rfl
      | some now => rw [Option.map_some, Option.any_some, timely.nothingDue_eq running]; rfl

/-- `sys_timeouts_sleeptime` is the time until the first entry is due. -/
theorem Timely.sleeptime_eq (timely : Timely truth) :
    truth.wrap.sysTimeoutsSleeptime u32Clock =
      truth.nextTimeout.head?.map fun first => first.time - truth.passed := by
  rw [State.sysTimeoutsSleeptime, State.wrap]
  cases list : truth.nextTimeout with
  | nil => rfl
  | cons first rest =>
      have window := timely.window first (list ▸ List.mem_cons_self)
      have same : u32Clock.less (first.time % 2 ^ 32) (truth.passed % 2 ^ 32) =
          realClock.less first.time truth.passed := u32Clock_less (by omega) (by omega)
      simp only [List.map_cons, List.head?_cons, Option.map_some, SysTimeo.wrap, u32Clock_now,
        same]
      split
      next less =>
        have overdue : first.time < truth.passed := realClock_less.mp less
        rw [Nat.sub_eq_zero_of_le overdue.le]
      next notLess =>
        have ahead : truth.passed ≤ first.time :=
          Nat.not_lt.mp (mt realClock_less.mpr notLess)
        rw [u32Clock_wait (by omega) ahead]

section Restart

variable (truth)

@[simp] theorem passed_sysRestartTimeouts :
    (truth.sysRestartTimeouts realClock).passed = truth.passed := by
  rw [State.sysRestartTimeouts]
  split <;> rfl

@[simp] theorem currentTimeoutDueTime_sysRestartTimeouts :
    (truth.sysRestartTimeouts realClock).currentTimeoutDueTime =
      truth.currentTimeoutDueTime := by
  rw [State.sysRestartTimeouts]
  split <;> rfl

variable {truth}

/-- Nothing is overdue after `sys_restart_timeouts`. -/
theorem passed_le_of_mem {entry : SysTimeo Nat Task}
    (member : entry ∈ (truth.sysRestartTimeouts realClock).nextTimeout) :
    truth.passed ≤ entry.time := by
  rw [State.sysRestartTimeouts] at member
  split at member
  next list =>
    rw [list] at member
    cases member
  next =>
    obtain ⟨_, _, rfl⟩ := mem_rebase.mp member
    exact Nat.le_add_right _ _

end Restart

/-- Time passes. -/
theorem Timely.tick (timely : Timely truth) {elapsed : Nat}
    (punctual : Punctual truth (.tick elapsed)) :
    Timely { truth with passed := truth.passed + elapsed } := by
  obtain ⟨pending, called, running⟩ := punctual
  refine ⟨timely.sorted, fun entry member => ⟨pending entry member, ?_⟩,
    fun now member => ⟨?_, called now member⟩, fun cyclic => ⟨?_, running cyclic⟩⟩
  · exact Nat.lt_of_lt_of_le (timely.window entry member).2
      (Nat.add_le_add_right (Nat.le_add_right _ _) _)
  · exact (timely.checking now member).1.trans (Nat.le_add_right _ _)
  · exact (timely.cyclic cyclic).1.trans (Nat.le_add_right _ _)

/-- The first entry is the one that is due first. -/
theorem Timely.first_le (timely : Timely truth) {first entry : SysTimeo Nat Task}
    {rest : List (SysTimeo Nat Task)} (list : truth.nextTimeout = first :: rest)
    (member : entry ∈ truth.nextTimeout) : first.time ≤ entry.time := by
  have sorted := timely.sorted
  rw [list] at sorted member
  rcases List.mem_cons.mp member with rfl | member
  · exact Nat.le_refl _
  · exact (List.pairwise_cons.mp sorted).1 entry member

/-- The entries after `sys_restart_timeouts` are due from now on, at the same distances. -/
theorem Timely.restart (timely : Timely truth) {slept : Nat}
    (punctual : Punctual truth (.restart slept)) :
    Timely ({ truth with passed := truth.passed + slept }.sysRestartTimeouts realClock) ∧
      { truth.wrap with passed := truth.passed + slept }.sysRestartTimeouts u32Clock =
        ({ truth with passed := truth.passed + slept }.sysRestartTimeouts realClock).wrap := by
  obtain ⟨close, called, running⟩ := punctual
  have checking : ∀ now ∈ truth.checking, now ≤ truth.passed + slept ∧
      truth.passed + slept ≤ now + 2 ^ 30 := fun now member =>
    ⟨(timely.checking now member).1.trans (Nat.le_add_right _ _), called now member⟩
  have cyclic : truth.cyclic.isSome = true →
      truth.currentTimeoutDueTime ≤ truth.passed + slept ∧
        truth.passed + slept ≤ truth.currentTimeoutDueTime + 2 ^ 30 := fun runs =>
    ⟨(timely.cyclic runs).1.trans (Nat.le_add_right _ _), running runs⟩
  cases list : truth.nextTimeout with
  | nil =>
      simp only [State.sysRestartTimeouts, State.wrap, list, List.map_nil, and_true]
      exact ⟨List.Pairwise.nil, List.forall_mem_nil _, checking, cyclic⟩
  | cons first rest =>
      have near : ∀ entry ∈ truth.nextTimeout,
          first.time ≤ entry.time ∧ entry.time < first.time + 2 ^ 30 := fun entry member =>
        ⟨timely.first_le list member, close entry member first (list ▸ List.mem_cons_self)⟩
      have same := wrap_rebase (truth.passed + slept) fun entry member =>
        ⟨(near entry member).1, (near entry member).2.trans (by omega)⟩
      rw [list] at near same
      have sorted := timely.sorted
      rw [list] at sorted
      rw [List.map_cons] at same
      simp only [State.sysRestartTimeouts, State.wrap, list, List.map_cons, realClock_now,
        u32Clock_now]
      refine ⟨⟨sorted_rebase _ _ sorted, fun entry member => ?_, checking, cyclic⟩, ?_⟩
      · obtain ⟨old, before, rfl⟩ := mem_rebase.mp member
        have close := near old before
        simp only
        omega
      · rw [← same]
        rfl

/-- The timeout that `sys_check_timeouts` takes from the list is due. -/
theorem Timely.due (timely : Timely truth) (ready : Ready realClock truth .fire) :
    ∃ first rest now, truth.nextTimeout = first :: rest ∧ truth.checking = some now ∧
      first.time ≤ now ∧ now ≤ truth.passed := by
  obtain ⟨now, running, due⟩ := Option.any_eq_true _ _ |>.mp ready.1
  rw [State.nothingDue] at due
  cases list : truth.nextTimeout with
  | nil => simp [list] at due
  | cons first rest =>
      refine ⟨first, rest, now, rfl, running, ?_, (timely.checking now running).1⟩
      rw [list] at due
      have notLess : realClock.less now first.time = false := by simpa using due
      exact Nat.not_lt.mp fun less => Bool.false_ne_true (notLess ▸ realClock_less.mpr less)

theorem Timely.fire (timely : Timely truth) (ready : Ready realClock truth .fire) :
    Timely (truth.fire interval) ∧ truth.wrap.fire interval = (truth.fire interval).wrap := by
  obtain ⟨first, rest, now, list, running, due, past⟩ := timely.due ready
  have window := timely.window first (list ▸ List.mem_cons_self)
  have sorted := timely.sorted
  rw [list] at sorted
  constructor
  · rw [State.fire, list]
    exact ⟨sorted.of_cons, fun entry member =>
      timely.window entry (list ▸ List.mem_cons_of_mem _ member),
      timely.checking, fun _ => ⟨due.trans past, window.1⟩⟩
  · simp only [State.fire, State.wrap, list, List.map_cons]
    rfl

/-- `sys_timeouts_init` starts with times that are near. -/
theorem timely_sysTimeoutsInit {msecs : Task → Nat} (passed : Nat) {timers : List Task}
    (short : ∀ task ∈ timers, msecs task ≤ 0xffffffff / 4) (room : timers.length ≤ pool) :
    ∃ truth, State.sysTimeoutsInit realClock pool msecs passed timers = some truth ∧
      State.sysTimeoutsInit u32Clock pool msecs passed timers = some truth.wrap ∧
      Timely truth := by
  have initially : Timely (State.init realClock passed : State Nat Task) ∧
      (State.init u32Clock passed : State Nat Task) = (State.init realClock passed).wrap :=
    ⟨⟨List.Pairwise.nil, List.forall_mem_nil _, fun _ now => absurd now (Option.not_mem_none _),
      fun called => absurd called Bool.false_ne_true⟩, rfl⟩
  have length : (State.init realClock passed : State Nat Task).nextTimeout.length +
      timers.length ≤ pool := by
    rw [State.init, List.length_nil, Nat.zero_add]
    exact room
  rw [State.sysTimeoutsInit, State.sysTimeoutsInit, initially.2]
  obtain ⟨timely, -⟩ := initially
  revert timely length
  generalize State.init realClock passed = truth
  intro length timely
  induction timers generalizing truth with
  | nil => exact ⟨truth, rfl, rfl, timely⟩
  | cons timer rest ih =>
      obtain ⟨brief, short⟩ := List.forall_mem_cons.mp short
      rw [List.length_cons] at room length
      obtain ⟨timely', same⟩ := timely.register (truth.passed + msecs timer) timer
        (by omega) (by omega)
      have registered : truth.sysTimeout realClock pool (msecs timer) timer = some _ :=
        (State.sysTimeout_eq_some_iff realClock).mpr ⟨⟨brief, by omega⟩, rfl⟩
      have registered' : truth.wrap.sysTimeout u32Clock pool (msecs timer) timer = some _ :=
        (State.sysTimeout_eq_some_iff u32Clock).mpr
          ⟨⟨brief, by rw [State.wrap, List.length_map]; omega⟩, rfl⟩
      rw [show truth.wrap.passed = truth.passed from rfl, u32Clock_now, u32Clock_later, same]
        at registered'
      rw [List.foldlM_cons, List.foldlM_cons, registered, registered']
      refine ih short (by omega) _ ?_ timely'
      rw [State.register, (enqueue_perm _ _ _).length_eq, List.length_cons]
      omega

variable [DecidableEq Task]

/-- An event keeps the times near the present, and does with 32 bits what it does with the
real time. -/
theorem Timely.apply (timely : Timely truth)
    (short : ∀ task msecs, interval task = some msecs → msecs ≤ 0xffffffff / 4)
    (enabled : Enabled realClock pool interval truth event) (punctual : Punctual truth event) :
    Timely (truth.apply realClock pool interval event) ∧
      truth.wrap.apply u32Clock pool interval event =
        (truth.apply realClock pool interval event).wrap := by
  have enabled' := timely.enabled_iff.mpr enabled
  cases event with
  | tick elapsed => exact ⟨timely.tick punctual, rfl⟩
  | timeout msecs task =>
      obtain ⟨brief, _, applied⟩ := apply_timeout enabled
      obtain ⟨_, _, applied'⟩ := apply_timeout enabled'
      rw [applied, applied', show truth.wrap.passed = truth.passed from rfl, u32Clock_now,
        u32Clock_later]
      exact timely.register _ task (by simp only [realClock]; omega)
        (by simp only [realClock]; omega)
  | untimeout task => exact timely.sysUntimeout
  | restart slept => exact timely.restart punctual
  | beginCheck =>
      refine ⟨⟨timely.sorted, timely.window, ?_, timely.cyclic⟩, rfl⟩
      rintro now ⟨⟩
      exact ⟨Nat.le_refl _, Nat.le_add_right _ _⟩
  | fire => exact timely.fire enabled.1
  | reschedule =>
      obtain ⟨task, running, _, applied⟩ := apply_reschedule enabled
      obtain ⟨task', running', _, applied'⟩ := apply_reschedule enabled'
      obtain rfl : task = task' := Option.some.inj (running.symm.trans running')
      have short' : (interval task).getD 0 < 2 ^ 30 := by
        cases cyclic : interval task with
        | none => exact Nat.two_pow_pos 30
        | some msecs => exact Nat.lt_of_le_of_lt (short task msecs cyclic) (by omega)
      obtain ⟨early, late⟩ := timely.dueAgain_near short' enabled.1
      obtain ⟨timely', same⟩ := timely.register _ task early late
      rw [applied, applied', timely.wrap_dueAgain short' enabled.1, same]
      exact ⟨⟨timely'.sorted, timely'.window, timely'.checking,
        fun called => absurd called Bool.false_ne_true⟩, rfl⟩
  | endCheck =>
      exact ⟨⟨timely.sorted, timely.window, fun _ now => absurd now (Option.not_mem_none _),
        timely.cyclic⟩, rfl⟩

end EmbeddedRtps.Timers
