import EmbeddedRtps.Foundation.Simulation
import EmbeddedRtps.Foundation.Threads
import EmbeddedRtps.Mailbox.Basic

/-!
# A mailbox is a bounded queue

The calls look at the ring and change it between a wait for `mutex` and a signal of
it.  At most one thread is ever in between, so the number `wait_send` is exact and
what a thread has read is still true when it acts on it.  From that the mailbox
simulates a queue of 127 messages, as long as its numbers do not overflow: each call
takes effect at one step, and the answers "full" and "empty" are right at the step at
which they are decided.
-/

namespace EmbeddedRtps.Mailbox

open Foundation Port

universe u v

variable {Thread : Type u} {Msg : Type v}

/-! ## What a step does to the counters -/

/-- Between a wait for `mutex` and the signal that gives it back. -/
def Pc.holds : Pc Msg → Bool
  | .test _ | .register _ | .releasePost _ | .deregister _ | .releaseFetch _
  | .store _ | .advance _ _ | .signalMail _ | .take | .consume _ | .signalRoom _
  | .unlock _ => true
  | .idle _ | .lock _ | .awaitRoom _ | .relockPost _ | .awaitMail _
  | .relockFetch _ => false

/-- Between `wait_send++` and `wait_send--`. -/
def Pc.registered : Pc Msg → Bool
  | .releasePost _ | .awaitRoom _ | .relockPost _ | .deregister _ => true
  | _ => false

variable {mbox : SysMbox Msg} {pc : Pc Msg} {next : SysMbox Msg × Pc Msg}

theorem lock_eq_some {target : Pc Msg} (locked : mbox.lock target = some next) :
    next.2 = target ∧ ∃ mutex : SysSem, mbox.mutex.c = mutex.c + 1 ∧
      next.1 = { mbox with mutex } := by
  obtain ⟨mutex, taken, rfl⟩ := Option.map_eq_some_iff.mp locked
  exact ⟨rfl, mutex, SysSem.take?_eq_some.mp taken, rfl⟩

@[simp] theorem holds_branch (call : Call Msg) : (mbox.branch call).holds = true := by
  cases call <;> simp only [SysMbox.branch] <;> split <;> rfl

@[simp] theorem registered_branch (call : Call Msg) :
    (mbox.branch call).registered = false := by
  cases call <;> simp only [SysMbox.branch] <;> split <;> rfl

/-- The mutex counts the threads that do not hold it. -/
theorem step_mutex (owned : pc.holds = true → mbox.mutex.c = 0)
    (step : mbox.step pc = some next) :
    next.1.mutex.c + next.2.holds.toNat = mbox.mutex.c + pc.holds.toNat := by
  cases pc with
  | idle => cases step
  | lock call | relockPost msg | relockFetch timeout =>
      obtain ⟨target, mutex, taken, shared⟩ := lock_eq_some step
      simp [target, shared, taken, Pc.holds]
  | awaitRoom msg | awaitMail timeout =>
      obtain ⟨sem, _, rfl⟩ := Option.map_eq_some_iff.mp step
      rfl
  | test call =>
      cases step
      simp only [holds_branch]
      rfl
  | releasePost msg | releaseFetch timeout | unlock outcome =>
      cases step
      simp [Pc.holds, owned rfl]
  | register msg | deregister msg | store msg | advance msg first | signalMail first
  | take | consume msg | signalRoom msg =>
      cases step
      rfl

/-- `wait_send` counts the threads that are registered. -/
theorem step_waitSend (counted : pc.registered = true → 0 < mbox.waitSend.toInt)
    (nonneg : 0 ≤ mbox.waitSend.toInt)
    (fits : next.2.registered = true → pc.registered = false →
      mbox.waitSend.toInt + 1 < 2 ^ 31)
    (step : mbox.step pc = some next) :
    next.1.waitSend.toInt + pc.registered.toNat =
      mbox.waitSend.toInt + next.2.registered.toNat := by
  cases pc with
  | idle => cases step
  | lock call | relockPost msg | relockFetch timeout =>
      obtain ⟨target, mutex, _, shared⟩ := lock_eq_some step
      simp [target, shared, Pc.registered]
  | awaitRoom msg | awaitMail timeout =>
      obtain ⟨sem, _, rfl⟩ := Option.map_eq_some_iff.mp step
      rfl
  | register msg =>
      cases step
      have one_more : (mbox.waitSend + 1).toInt = mbox.waitSend.toInt + 1 :=
        Signed.toInt_succ nonneg (fits rfl rfl)
      simp only [Pc.registered, one_more, Bool.toNat_true, Bool.toNat_false]
      omega
  | deregister msg =>
      cases step
      have one_less : (mbox.waitSend - 1).toInt = mbox.waitSend.toInt - 1 :=
        Signed.toInt_pred (counted rfl)
      simp only [Pc.registered, one_less, Bool.toNat_true, Bool.toNat_false]
      omega
  | test call =>
      cases step
      simp only [registered_branch]
      rfl
  | releasePost msg | releaseFetch timeout | store msg
  | advance msg first | signalMail first | take | consume msg | signalRoom msg
  | unlock outcome =>
      cases step
      rfl

/-- The owner of the mutex never waits. -/
theorem isSome_step_of_holds (holds : pc.holds = true) : (mbox.step pc).isSome = true := by
  cases pc <;> first | rfl | cases holds

/-- A thread without the mutex leaves the ring alone. -/
theorem step_ring (outside : pc.holds = false) (step : mbox.step pc = some next) :
    next.1.first = mbox.first ∧ next.1.last = mbox.last ∧ next.1.msgs = mbox.msgs := by
  cases pc with
  | idle => cases step
  | lock call | relockPost msg | relockFetch timeout =>
      obtain ⟨_, mutex, _, shared⟩ := lock_eq_some step
      simp [shared]
  | awaitRoom msg | awaitMail timeout =>
      obtain ⟨sem, _, rfl⟩ := Option.map_eq_some_iff.mp step
      exact ⟨rfl, rfl, rfl⟩
  | test | register | releasePost | deregister | releaseFetch | store | advance
  | signalMail | take | consume | signalRoom | unlock => cases outside

/-! ## What a thread knows -/

/-- What the tests and reads of a thread have established about the ring. -/
def Pc.Sound (mbox : SysMbox Msg) : Pc Msg → Prop
  | .register _ => mbox.first.toInt < mbox.last.toInt
  | .store _ => mbox.last.toInt + 1 < mbox.first.toInt + sysMboxSize
  | .advance msg first =>
      mbox.last.toInt + 1 < mbox.first.toInt + sysMboxSize ∧
        mbox.msgs (slot mbox.last) = msg ∧ first = decide (mbox.first = mbox.last)
  | .take => mbox.first.toInt < mbox.last.toInt
  | .consume msg =>
      mbox.first.toInt < mbox.last.toInt ∧ mbox.msgs (slot mbox.first) = msg
  | _ => True

theorem sound_of_not_holds (outside : pc.holds = false) : pc.Sound mbox := by
  cases pc <;> trivial

/-- It depends on the ring only. -/
theorem Pc.Sound.congr {other : SysMbox Msg} (first : other.first = mbox.first)
    (last : other.last = mbox.last) (msgs : other.msgs = mbox.msgs)
    (sound : pc.Sound mbox) : pc.Sound other := by
  cases pc <;> simp_all [Pc.Sound]

theorem sound_branch (range : mbox.InRange) (call : Call Msg) :
    (mbox.branch call).Sound mbox := by
  cases call with
  | post msg | trypost msg =>
      cases full : mbox.isFull with
      | true => simp [SysMbox.branch, full, Pc.Sound, range.lt_of_isFull full]
      | false => simp [SysMbox.branch, full, Pc.Sound, range.isFull_eq_false.mp full]
  | fetch timeout | tryfetch =>
      cases empty : mbox.isEmpty with
      | true => simp [SysMbox.branch, empty, Pc.Sound]
      | false =>
          have different := SysMbox.isEmpty_eq_false.mp empty
          have ordered := range.ordered
          simp only [SysMbox.branch, empty, Bool.false_eq_true, if_false, Pc.Sound]
          omega

/-- A step establishes what the next one relies on. -/
theorem step_sound (range : mbox.InRange)
    (step : mbox.step pc = some next) (sound : pc.Sound mbox) :
    next.2.Sound next.1 := by
  cases pc with
  | idle => cases step
  | lock call | relockPost msg | relockFetch timeout =>
      rw [(lock_eq_some step).1]
      trivial
  | awaitRoom msg | awaitMail timeout =>
      obtain ⟨sem, _, rfl⟩ := Option.map_eq_some_iff.mp step
      trivial
  | test call =>
      cases step
      exact sound_branch range call
  | store msg =>
      cases step
      refine ⟨sound, Function.update_self _ _ _, ?_⟩
      simp [beq_eq_decide, eq_comm]
  | take =>
      cases step
      exact ⟨sound, rfl⟩
  | register msg | releasePost msg | deregister msg | releaseFetch timeout
  | advance msg first | signalMail first | consume msg | signalRoom msg
  | unlock outcome =>
      cases step
      trivial

/-- The numbers stay in order and less than a turn apart. -/
theorem step_bounds (range : mbox.InRange) (step : mbox.step pc = some next)
    (sound : pc.Sound mbox) :
    0 ≤ next.1.first.toInt ∧ next.1.first.toInt ≤ next.1.last.toInt ∧
      next.1.last.toInt < next.1.first.toInt + sysMboxSize := by
  have nonneg := range.nonneg
  have ordered := range.ordered
  have bounded := range.bounded
  cases pc with
  | advance msg first =>
      cases step
      obtain ⟨room, _, _⟩ := sound
      simp only [range.toInt_last_succ]
      omega
  | consume msg =>
      cases step
      obtain ⟨nonempty, _⟩ := sound
      simp only [range.toInt_first_succ]
      omega
  | idle | lock call | awaitRoom msg | relockPost msg | awaitMail timeout
  | relockFetch timeout =>
      obtain ⟨first, last, _⟩ := step_ring rfl step
      rw [first, last]
      exact ⟨nonneg, ordered, bounded⟩
  | test call | register msg | releasePost msg | deregister msg | releaseFetch timeout
  | store msg | signalMail first | take | signalRoom msg | unlock outcome =>
      cases step
      exact ⟨nonneg, ordered, bounded⟩

/-! ## The invariant -/

/-- The sums in the tests do not overflow: `last`, which counts the messages that have
been posted, is not too large. -/
def NumbersFit (state : State Thread Msg) (_ : Event Thread Msg) : Prop :=
  state.mbox.last.toInt + sysMboxSize < 2 ^ 31

instance (state : State Thread Msg) (event : Event Thread Msg) :
    Decidable (NumbersFit state event) :=
  inferInstanceAs (Decidable (_ < _))

variable [Fintype Thread]

/-- What holds between any two steps. -/
structure State.Consistent (state : State Thread Msg) : Prop where
  mutex : state.mbox.mutex.c + countIn Pc.holds state.pcs = 1
  waitSend : state.mbox.waitSend.toInt = countIn Pc.registered state.pcs
  nonneg : 0 ≤ state.mbox.first.toInt
  ordered : state.mbox.first.toInt ≤ state.mbox.last.toInt
  bounded : state.mbox.last.toInt < state.mbox.first.toInt + sysMboxSize
  sound : ∀ thread, (state.pcs thread).Sound state.mbox

namespace State.Consistent

variable {state : State Thread Msg} {thread other : Thread}

theorem init (memory : Fin sysMboxSize → Msg) :
    (State.init memory : State Thread Msg).Consistent where
  mutex := by
    have none : countIn Pc.holds (fun _ : Thread => (.idle none : Pc Msg)) = 0 :=
      countIn_const rfl
    simp [State.init, SysMbox.new, none]
  waitSend := congrArg Nat.cast (countIn_const rfl).symm
  nonneg := Int.le_refl 0
  ordered := Int.le_refl 0
  bounded := (by decide : (0 : Int) < 0 + sysMboxSize)
  sound _ := trivial

theorem inRange (consistent : state.Consistent) {event : Event Thread Msg}
    (fit : NumbersFit state event) : state.mbox.InRange :=
  ⟨consistent.nonneg, consistent.ordered, consistent.bounded, fit⟩

/-- The owner of the mutex finds its counter at zero. -/
theorem mutex_eq_zero (consistent : state.Consistent)
    (inside : (state.pcs thread).holds = true) : state.mbox.mutex.c = 0 := by
  have positive := countIn_pos inside
  have := consistent.mutex
  omega

/-- A mutex that is not free has an owner, who can go on. -/
theorem mutex_free (consistent : state.Consistent)
    (blocked : ∀ thread, state.mbox.step (state.pcs thread) = none) :
    state.mbox.mutex.c = 1 := by
  have none : countIn Pc.holds state.pcs = 0 := by
    by_contra some
    obtain ⟨thread, holds⟩ := exists_of_countIn_pos (Nat.pos_of_ne_zero some)
    have runs : (state.mbox.step (state.pcs thread)).isSome = true :=
      isSome_step_of_holds holds
    rw [blocked thread] at runs
    cases runs
  have := consistent.mutex
  omega

theorem waitSend_pos (consistent : state.Consistent)
    (registered : (state.pcs thread).registered = true) :
    0 < state.mbox.waitSend.toInt := by
  rw [consistent.waitSend]
  exact Int.natCast_pos.mpr (countIn_pos registered)

variable [DecidableEq Thread]

/-- Mutual exclusion. -/
theorem eq_of_holds (consistent : state.Consistent)
    (inside : (state.pcs thread).holds = true)
    (inside' : (state.pcs other).holds = true) : thread = other := by
  have := consistent.mutex
  exact eq_of_countIn_le_one (by omega) inside inside'

/-- A call starts, or a wait gives up: only the place of the thread changes. -/
theorem relocate {target : Pc Msg} (consistent : state.Consistent)
    (before : (state.pcs thread).holds = false ∧ (state.pcs thread).registered = false)
    (after : target.holds = false ∧ target.registered = false) :
    (state.move thread (state.mbox, target)).Consistent where
  mutex := by
    have counted := countIn_update Pc.holds state.pcs thread target
    rw [before.1, after.1] at counted
    rw [← consistent.mutex]
    exact congrArg (state.mbox.mutex.c + ·) counted
  waitSend := by
    have counted := countIn_update Pc.registered state.pcs thread target
    rw [before.2, after.2] at counted
    exact consistent.waitSend.trans (congrArg Nat.cast counted.symm)
  nonneg := consistent.nonneg
  ordered := consistent.ordered
  bounded := consistent.bounded
  sound current := by
    by_cases same : current = thread
    · subst same
      simpa [State.move] using sound_of_not_holds after.1
    · simpa [State.move, same] using consistent.sound current

/-- What the other threads know is not disturbed. -/
theorem sound_step (consistent : state.Consistent) (range : state.mbox.InRange)
    {next : SysMbox Msg × Pc Msg}
    (step : state.mbox.step (state.pcs thread) = some next) (current : Thread) :
    ((state.move thread next).pcs current).Sound next.1 := by
  by_cases same : current = thread
  · subst same
    simpa [State.move] using step_sound range step (consistent.sound current)
  · simp only [State.move, Function.update_of_ne same]
    by_cases inside : (state.pcs current).holds = true
    · have outside : (state.pcs thread).holds = false := by
        rw [← Bool.not_eq_true]
        intro inside'
        exact same (consistent.eq_of_holds inside inside')
      obtain ⟨first, last, msgs⟩ := step_ring outside step
      exact (consistent.sound current).congr first last msgs
    · exact sound_of_not_holds (by simpa using inside)

theorem step (consistent : state.Consistent) (range : state.mbox.InRange)
    (few : Fintype.card Thread < 2 ^ 31) {next : SysMbox Msg × Pc Msg}
    (step : state.mbox.step (state.pcs thread) = some next) :
    (state.move thread next).Consistent where
  mutex := by
    have moved := step_mutex consistent.mutex_eq_zero step
    have counted := countIn_update Pc.holds state.pcs thread next.2
    have := consistent.mutex
    simp only [State.move]
    omega
  waitSend := by
    have before := consistent.waitSend
    have counted := countIn_update Pc.registered state.pcs thread next.2
    have most : countIn Pc.registered (Function.update state.pcs thread next.2) ≤
      Fintype.card Thread := countIn_le_card
    have moved := step_waitSend consistent.waitSend_pos (by omega)
      (fun after before => by rw [after, before] at counted; simp at counted; omega) step
    simp only [State.move]
    omega
  nonneg := (step_bounds range step (consistent.sound thread)).1
  ordered := (step_bounds range step (consistent.sound thread)).2.1
  bounded := (step_bounds range step (consistent.sound thread)).2.2
  sound := consistent.sound_step range step

end State.Consistent

variable [DecidableEq Thread]
variable {condition : State Thread Msg → Event Thread Msg → Prop}

/-- The invariant holds in every interleaving. -/
theorem consistent_of_reaches {memory : Fin sysMboxSize → Msg}
    {state : State Thread Msg} (few : Fintype.card Thread < 2 ^ 31)
    (fit : ∀ state event, condition state event → NumbersFit state event)
    (reached : machine.Reaches condition (.init memory) state) : state.Consistent := by
  refine Machine.Reaches.invariant (State.Consistent.init memory) ?_ reached
  intro state event _ consistent enabled admitted
  obtain ⟨thread, next, moves, applied⟩ := exists_moves enabled
  rw [applied]
  cases moves with
  | call idle call =>
      apply consistent.relocate _ ⟨rfl, rfl⟩
      cases place : state.pcs thread <;> simp_all [Pc.isIdle, Pc.holds, Pc.registered]
  | run step => exact consistent.step (consistent.inRange (fit state event admitted)) few step
  | timeout waits =>
      apply consistent.relocate _ ⟨rfl, rfl⟩
      cases place : state.pcs thread <;>
        simp_all [Pc.canTimeOut, Pc.holds, Pc.registered]

/-! ## The simulation -/

/-- The queue operation a step stands for. -/
def SysMbox.action (mbox : SysMbox Msg) : Pc Msg → Option (Fifo.Action Msg)
  | .advance msg _ => some (.enqueue msg)
  | .consume msg => some (.dequeue msg)
  | .test (.trypost _) => if mbox.isFull then some .full else none
  | .test .tryfetch => if mbox.isEmpty then some .empty else none
  | _ => none

/-- The queue operation an event stands for. -/
def State.action (state : State Thread Msg) : Event Thread Msg → Option (Fifo.Action Msg)
  | .run thread => state.mbox.action (state.pcs thread)
  | .call _ _ | .timeout _ => none

/-- One message less than there are slots. -/
def capacity : Nat := sysMboxSize - 1

/-- The test of `sys_mbox_trypost` is right about the queue. -/
theorem length_contents_of_isFull (range : mbox.InRange) (full : mbox.isFull = true) :
    mbox.contents.length = capacity := by
  have far := range.isFull_iff.mp full
  have nonneg := range.nonneg
  have bounded := range.bounded
  rw [SysMbox.contents, Ring.length_contents, capacity]
  omega

theorem contents_of_isEmpty (empty : mbox.isEmpty = true) : mbox.contents = [] := by
  simp [SysMbox.contents, SysMbox.isEmpty_iff.mp empty]

/-- Seen from outside, a step does nothing or what the queue does. -/
theorem step_simulates (range : mbox.InRange) (step : mbox.step pc = some next)
    (sound : pc.Sound mbox) :
    (Fifo.machine capacity).Follows mbox.contents next.1.contents (mbox.action pc) := by
  have nonneg := range.nonneg
  have ordered := range.ordered
  cases pc with
  | idle | lock call | awaitRoom msg | relockPost msg | awaitMail timeout
  | relockFetch timeout =>
      obtain ⟨first, last, msgs⟩ := step_ring rfl step
      simp [SysMbox.action, Machine.Follows, SysMbox.contents, first, last, msgs]
  | test call =>
      cases step
      cases call with
      | post | fetch => rfl
      | trypost msg =>
          cases full : mbox.isFull with
          | true =>
              simp only [SysMbox.action, full, if_true]
              exact ⟨length_contents_of_isFull range full, rfl⟩
          | false => simp [SysMbox.action, Machine.Follows, full]
      | tryfetch =>
          cases empty : mbox.isEmpty with
          | true =>
              simp only [SysMbox.action, empty, if_true]
              exact ⟨contents_of_isEmpty empty, rfl⟩
          | false => simp [SysMbox.action, Machine.Follows, empty]
  | store msg =>
      cases step
      have room : mbox.last.toInt + 1 < mbox.first.toInt + sysMboxSize := sound
      simp only [SysMbox.action, Machine.Follows, SysMbox.contents, slot_eq range.last_nonneg]
      exact Ring.contents_write (by omega) msg
  | advance msg first =>
      cases step
      obtain ⟨room, stored, _⟩ := sound
      rw [slot_eq range.last_nonneg] at stored
      refine ⟨?_, ?_⟩
      · simp only [Fifo.machine, SysMbox.contents, Ring.length_contents, capacity]
        omega
      · have one_more : (mbox.last + 1).toInt.toNat = mbox.last.toInt.toNat + 1 := by
          rw [range.toInt_last_succ]
          omega
        simp only [SysMbox.contents, one_more]
        rw [Ring.contents_advance (by omega), stored]
        rfl
  | consume msg =>
      cases step
      obtain ⟨nonempty, read⟩ := sound
      rw [slot_eq nonneg] at read
      have one_more : (mbox.first + 1).toInt.toNat = mbox.first.toInt.toNat + 1 := by
        rw [range.toInt_first_succ]
        omega
      have later : mbox.first.toInt.toNat < mbox.last.toInt.toNat := by omega
      have oldest := Ring.contents_consume mbox.msgs later
      rw [read] at oldest
      simp only [SysMbox.action, Machine.Follows, Fifo.machine, SysMbox.contents, one_more,
        oldest, List.head?_cons, List.tail_cons, and_self]
  | register msg | releasePost msg | deregister msg | releaseFetch timeout
  | signalMail first | take | signalRoom msg | unlock outcome =>
      cases step
      rfl

/-- However the threads are interleaved, a mailbox is a queue of 127 messages.  A
message enters when `last` is increased and leaves when `first` is; `ERR_MEM` is
returned for a full queue only and `SYS_MBOX_EMPTY` for an empty one only. -/
theorem simulates_fifo (few : Fintype.card Thread < 2 ^ 31)
    (memory : Fin sysMboxSize → Msg) :
    (machine : Machine (State Thread Msg) _).Simulates NumbersFit (.init memory)
      (Fifo.machine capacity) (fun state => state.mbox.contents) State.action := by
  intro state event reached enabled fit
  have consistent := consistent_of_reaches few (fun _ _ => id) reached
  cases event with
  | call | timeout => rfl
  | run thread =>
      obtain ⟨next, step⟩ := Option.isSome_iff_exists.mp enabled
      have simulated := step_simulates (consistent.inRange fit) step (consistent.sound thread)
      have applied : machine.apply state (.run thread) = state.move thread next := by
        simp only [machine, State.apply, step]
      rw [applied]
      exact simulated

/-- The messages posted and fetched so far. -/
def logged : State Thread Msg → Event Thread Msg → Fifo.Log Msg → Fifo.Log Msg :=
  Machine.observeThrough (fun state => state.mbox.contents) State.action Fifo.record

/-- `last` counts the messages that enter. -/
theorem toInt_last_of_step (range : mbox.InRange) (step : mbox.step pc = some next)
    (log : Fifo.Log Msg) :
    next.1.last.toInt + log.posted.length = mbox.last.toInt +
      ((mbox.action pc).elim log (Fifo.record mbox.contents · log)).posted.length := by
  cases pc with
  | idle | lock call | awaitRoom msg | relockPost msg | awaitMail timeout
  | relockFetch timeout =>
      obtain ⟨_, last, _⟩ := step_ring rfl step
      rw [last]
      rfl
  | advance msg first =>
      cases step
      simp only [SysMbox.action, Option.elim_some, Fifo.record, List.length_append,
        List.length_singleton, range.toInt_last_succ]
      omega
  | test call =>
      cases step
      cases call with
      | post | fetch => rfl
      | trypost msg | tryfetch =>
          simp only [SysMbox.action]
          split <;> rfl
  | register msg | releasePost msg | deregister msg | releaseFetch timeout | store msg
  | signalMail first | take | consume msg | signalRoom msg | unlock outcome =>
      cases step
      rfl

/-- As long as the numbers fit, the messages posted so far are those fetched so far
followed by those in the mailbox, in the order in which they were posted: none is lost,
duplicated or overwritten.  `last` is the number of messages that have been posted. -/
theorem posted_eq_fetched_append (few : Fintype.card Thread < 2 ^ 31)
    {memory : Fin sysMboxSize → Msg} {pair : State Thread Msg × Fifo.Log Msg}
    (reached : (machine.monitored logged).Reaches
      (fun pair event => NumbersFit pair.1 event) (.init memory, {}) pair) :
    pair.2.posted = pair.2.fetched ++ pair.1.mbox.contents ∧
      pair.1.mbox.contents.length ≤ capacity ∧
      pair.1.mbox.last.toInt = pair.2.posted.length := by
  have queue := ((simulates_fifo few memory).reaches Fifo.record reached).2
  rw [show (State.init memory : State Thread Msg).mbox.contents = [] from
    Ring.contents_self 0] at queue
  obtain ⟨split, bounded⟩ := Fifo.posted_eq queue
  refine ⟨split, bounded, ?_⟩
  clear queue split bounded
  induction reached with
  | refl => rfl
  | @step pair event before enabled fit ih =>
      have consistent := consistent_of_reaches few (fun _ _ => id)
        ((simulates_fifo few memory).reaches Fifo.record before).1
      cases event with
      | call | timeout => exact ih
      | run thread =>
          obtain ⟨next, step⟩ := Option.isSome_iff_exists.mp enabled
          have counted := toInt_last_of_step (consistent.inRange fit) step pair.2
          simp only [Machine.monitored, machine, State.apply, step, logged,
            Machine.observeThrough, State.action, State.move]
          cases action : pair.1.mbox.action (pair.1.pcs thread) with
          | none =>
              simp only [action, Option.elim_none] at counted ⊢
              omega
          | some =>
              simp only [action, Option.elim_some] at counted ⊢
              omega

/-- Thread `0` posts a message, thread `1` waits for it and fetches it. -/
def handover : List (Event (Fin 2) Nat) :=
  [.call 1 (.fetch 0), .run 1, .run 1, .run 1, .call 0 (.post 7)] ++
    List.replicate 6 (.run 0) ++ List.replicate 7 (.run 1)

theorem posted_eq_fetched_append_handover :
    ∃ pair, (machine.monitored logged).Reaches (fun pair event => NumbersFit pair.1 event)
        (.init (fun _ => 0), {}) pair ∧
      pair.1.pcs (1 : Fin 2) = .idle (some (.fetched 7)) ∧
      pair.2.posted = pair.2.fetched ++ pair.1.mbox.contents := by
  obtain ⟨pair, reached, fetched⟩ :
      ∃ pair, (machine.monitored logged).Reaches
        (fun pair event => NumbersFit pair.1 event) (.init (fun _ => 0), {}) pair ∧
        pair.1.pcs (1 : Fin 2) = .idle (some (.fetched 7)) :=
    Machine.exists_reaches_of_exec handover (by decide +kernel)
  exact ⟨pair, reached, fetched, (posted_eq_fetched_append (by decide) reached).1⟩

end EmbeddedRtps.Mailbox
