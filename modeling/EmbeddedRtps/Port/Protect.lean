import EmbeddedRtps.Foundation.Machine
import EmbeddedRtps.Foundation.Signed
import Mathlib.Logic.Function.Basic

/-!
# Lightweight protection

`sys_arch_protect` and `sys_arch_unprotect` make a mutex that one thread can take
several times.  Which thread holds it is read without the mutex, and the read races
with the writes of the holder.  The machine interleaves the threads between any two
accesses to the three shared variables.

The count is an `int`, so a thread can be protected `INT_MAX` times and no more.
-/

namespace EmbeddedRtps.Port.Protect

open Foundation

universe u

variable {Thread : Type u}

/-- `lwprot_mutex` with the thread that has locked it, `lwprot_thread`, where `none` is
`0xDEAD`, and `lwprot_count`. -/
structure Shared (Thread : Type u) where
  mutex : Option Thread
  lwprotThread : Option Thread
  lwprotCount : Int32
  deriving DecidableEq

/-- Where a thread stands. -/
inductive Pc where
  | outside
  /-- `sys_arch_protect`, at its condition, in its first and in its second branch. -/
  | protect
  | lock
  | claim
  | countFirst
  | countMore
  /-- `sys_arch_unprotect`, at its two conditions and in what they guard. -/
  | unprotect
  | countDown
  | testCount
  | disclaim
  | unlock
  deriving DecidableEq, Repr

/-- A thread: its place, and how often it is protected. The program does not keep the
second; a call of `sys_arch_unprotect` ends a protection when it starts. -/
structure Local where
  pc : Pc
  depth : Nat
  deriving DecidableEq, Repr

section Code

variable [DecidableEq Thread]

/-- One step of a thread inside of a call; `none` if it has to wait for the mutex. -/
def Shared.step (shared : Shared Thread) (self : Thread) (here : Local) :
    Option (Shared Thread × Local) :=
  match here.pc with
  | .outside => none
  | .protect =>
      if shared.lwprotThread ≠ some self then
        some (shared, { here with pc := .lock })
      else
        some (shared, { here with pc := .countMore })
  | .lock =>
      if shared.mutex = none then
        some ({ shared with mutex := some self }, { here with pc := .claim })
      else
        none
  | .claim =>
      some ({ shared with lwprotThread := some self }, { here with pc := .countFirst })
  | .countFirst =>
      some ({ shared with lwprotCount := 1 }, ⟨.outside, here.depth + 1⟩)
  | .countMore =>
      some ({ shared with lwprotCount := shared.lwprotCount + 1 },
        ⟨.outside, here.depth + 1⟩)
  | .unprotect =>
      if shared.lwprotThread = some self then
        some (shared, { here with pc := .countDown })
      else
        some (shared, { here with pc := .outside })
  | .countDown =>
      some ({ shared with lwprotCount := shared.lwprotCount - 1 },
        { here with pc := .testCount })
  | .testCount =>
      if shared.lwprotCount = 0 then
        some (shared, { here with pc := .disclaim })
      else
        some (shared, { here with pc := .outside })
  | .disclaim =>
      some ({ shared with lwprotThread := none }, { here with pc := .unlock })
  | .unlock => some ({ shared with mutex := none }, { here with pc := .outside })

structure State (Thread : Type u) where
  shared : Shared Thread
  locals : Thread → Local

def State.init : State Thread where
  shared := ⟨none, none, 0⟩
  locals _ := ⟨.outside, 0⟩

inductive Event (Thread : Type u) where
  | protect (thread : Thread)
  | unprotect (thread : Thread)
  | run (thread : Thread)
  deriving DecidableEq, Repr

def Enabled (state : State Thread) : Event Thread → Prop
  | .protect thread | .unprotect thread => (state.locals thread).pc = .outside
  | .run thread => (state.shared.step thread (state.locals thread)).isSome = true

instance (state : State Thread) (event : Event Thread) :
    Decidable (Enabled state event) :=
  match event with
  | .protect _ | .unprotect _ | .run _ => inferInstanceAs (Decidable (_ = _))

def State.move (state : State Thread) (thread : Thread) (next : Shared Thread × Local) :
    State Thread where
  shared := next.1
  locals := Function.update state.locals thread next.2

def State.apply (state : State Thread) : Event Thread → State Thread
  | .protect thread =>
      state.move thread (state.shared, ⟨.protect, (state.locals thread).depth⟩)
  | .unprotect thread =>
      state.move thread (state.shared, ⟨.unprotect, (state.locals thread).depth - 1⟩)
  | .run thread =>
      match state.shared.step thread (state.locals thread) with
      | none => state
      | some next => state.move thread next

/-- Any threads that call the two functions in any order. -/
def machine : Machine (State Thread) (Event Thread) where
  Enabled := Enabled
  apply := State.apply

instance (state : State Thread) (event : Event Thread) :
    Decidable (machine.Enabled state event) :=
  inferInstanceAs (Decidable (Enabled state event))

end Code

/-! ## What a thread relies on -/

/-- The thread has nothing to do with the mutex. -/
def Free (shared : Shared Thread) (self : Thread) : Prop :=
  shared.mutex ≠ some self ∧ shared.lwprotThread ≠ some self

/-- The thread holds the mutex and says so, and is counted `count` times. -/
def Owns (shared : Shared Thread) (self : Thread) (count : Nat) : Prop :=
  shared.mutex = some self ∧ shared.lwprotThread = some self ∧
    shared.lwprotCount.toInt = count

/-- What is true between two calls of a thread. -/
def Settled (shared : Shared Thread) (self : Thread) (depth : Nat) : Prop :=
  depth = 0 ∧ Free shared self ∨ 0 < depth ∧ Owns shared self depth

/-- What is true of the shared variables when `self` is at a place. -/
def Local.Sound (shared : Shared Thread) (self : Thread) (here : Local) : Prop :=
  match here.pc with
  | .outside => Settled shared self here.depth
  | .protect => here.depth + 1 < 2 ^ 31 ∧ Settled shared self here.depth
  | .lock => here.depth = 0 ∧ Free shared self
  | .claim | .unlock =>
      here.depth = 0 ∧ shared.mutex = some self ∧ shared.lwprotThread = none
  | .countFirst =>
      here.depth = 0 ∧ shared.mutex = some self ∧ shared.lwprotThread = some self
  | .countMore => here.depth + 1 < 2 ^ 31 ∧ Owns shared self here.depth
  | .unprotect =>
      here.depth = 0 ∧ Free shared self ∨ Owns shared self (here.depth + 1)
  | .countDown => Owns shared self (here.depth + 1)
  | .testCount => Owns shared self here.depth
  | .disclaim => here.depth = 0 ∧ Owns shared self 0

variable {shared : Shared Thread} {self other : Thread} {here : Local}

/-- A thread either is free of the mutex, and not protected, or holds it. -/
theorem Local.Sound.free_or_holds (sound : here.Sound shared self) :
    here.depth = 0 ∧ Free shared self ∨ shared.mutex = some self := by
  obtain ⟨pc, depth⟩ := here
  cases pc with
  | outside => exact sound.imp_right fun owning => owning.2.1
  | protect => exact sound.2.imp_right fun owning => owning.2.1
  | lock => exact .inl sound
  | claim | countFirst | unlock | disclaim => exact .inr sound.2.1
  | countMore => exact .inr sound.2.1
  | unprotect => exact sound.imp_right And.left
  | countDown | testCount => exact .inr sound.1

theorem Local.Sound.free (sound : here.Sound shared self)
    (unlocked : shared.mutex ≠ some self) : Free shared self :=
  (sound.free_or_holds.resolve_right unlocked).2

/-- A protected thread holds the mutex. -/
theorem Local.Sound.mutex_eq (sound : here.Sound shared self) (inside : 0 < here.depth) :
    shared.mutex = some self :=
  sound.free_or_holds.resolve_left fun free => absurd free.1 (Nat.pos_iff_ne_zero.mp inside)

/-- A thread that is free of the mutex depends on no more than that. -/
theorem Local.Sound.of_free {shared' : Shared Thread} (sound : here.Sound shared self)
    (before : shared.mutex ≠ some self) (after : Free shared' self) :
    here.Sound shared' self := by
  have zero : here.depth = 0 := (sound.free_or_holds.resolve_right before).1
  obtain ⟨pc, depth⟩ := here
  cases pc with
  | outside => exact .inl ⟨zero, after⟩
  | protect => exact ⟨sound.1, .inl ⟨zero, after⟩⟩
  | lock => exact ⟨zero, after⟩
  | unprotect => exact .inl ⟨zero, after⟩
  | claim | countFirst | countMore | unlock | disclaim => exact absurd sound.2.1 before
  | countDown | testCount => exact absurd sound.1 before

/-- What holds between any two steps. -/
structure State.Sound (state : State Thread) : Prop where
  coherent : state.shared.mutex = none → state.shared.lwprotThread = none
  locals : ∀ thread, (state.locals thread).Sound state.shared thread

theorem State.Sound.init : (State.init : State Thread).Sound where
  coherent _ := rfl
  locals _ := .inl ⟨rfl, (Option.some_ne_none _).symm, (Option.some_ne_none _).symm⟩

variable [DecidableEq Thread] {next : Shared Thread × Local}

/-! ## What a step does -/

/-- A step keeps what is true at the place of the thread that takes it. -/
theorem step_sound (coherent : shared.mutex = none → shared.lwprotThread = none)
    (sound : here.Sound shared self) (step : shared.step self here = some next) :
    next.2.Sound next.1 self := by
  obtain ⟨pc, depth⟩ := here
  cases pc with
  | outside => cases step
  | protect =>
      obtain ⟨shallow, ⟨zero, free⟩ | ⟨_, owns⟩⟩ := sound
      · simp only [Shared.step, if_pos free.2] at step
        cases step
        exact ⟨zero, free⟩
      · simp only [Shared.step, if_neg (not_not.mpr owns.2.1)] at step
        cases step
        exact ⟨shallow, owns⟩
  | lock =>
      simp only [Shared.step] at step
      split at step
      next unlocked =>
        cases step
        exact ⟨sound.1, rfl, coherent unlocked⟩
      next => cases step
  | claim =>
      cases step
      exact ⟨sound.1, sound.2.1, rfl⟩
  | countFirst =>
      obtain ⟨zero, holds, claimed⟩ := sound
      have zero : depth = 0 := zero
      subst zero
      cases step
      exact .inr ⟨Nat.one_pos, holds, claimed, rfl⟩
  | countMore =>
      obtain ⟨shallow, holds, claimed, counted⟩ := sound
      cases step
      have shallow : depth + 1 < 2 ^ 31 := shallow
      have counted : shared.lwprotCount.toInt = depth := counted
      have one_more : (shared.lwprotCount + 1).toInt = (depth + 1 : Nat) := by
        rw [Signed.toInt_succ (by omega) (by omega), counted]
        rfl
      exact .inr ⟨Nat.succ_pos depth, holds, claimed, one_more⟩
  | unprotect =>
      rcases sound with ⟨zero, free⟩ | owns
      · simp only [Shared.step, if_neg free.2] at step
        cases step
        exact .inl ⟨zero, free⟩
      · simp only [Shared.step, if_pos owns.2.1] at step
        cases step
        exact owns
  | countDown =>
      obtain ⟨holds, claimed, counted⟩ := sound
      cases step
      have counted : shared.lwprotCount.toInt = (depth + 1 : Nat) := counted
      have one_less : (shared.lwprotCount - 1).toInt = depth := by
        rw [Signed.toInt_pred (by omega), counted]
        omega
      exact ⟨holds, claimed, one_less⟩
  | testCount =>
      obtain ⟨holds, claimed, counted⟩ := sound
      have counted : shared.lwprotCount.toInt = depth := counted
      simp only [Shared.step] at step
      split at step
      next zero =>
        cases step
        have none_left : shared.lwprotCount.toInt = 0 := by rw [zero]; rfl
        exact ⟨Int.natCast_eq_zero.mp (counted.symm.trans none_left), holds, claimed,
          none_left⟩
      next nonzero =>
        cases step
        refine .inr ⟨Nat.pos_of_ne_zero ?_, holds, claimed, counted⟩
        intro zero
        have zero : depth = 0 := zero
        rw [zero] at counted
        exact nonzero (Int32.toInt_inj.mp counted)
  | disclaim =>
      cases step
      exact ⟨sound.1, sound.2.1, rfl⟩
  | unlock =>
      obtain ⟨zero, _, disclaimed⟩ := sound
      cases step
      refine .inl ⟨zero, (Option.some_ne_none _).symm, ?_⟩
      rw [disclaimed]
      exact (Option.some_ne_none _).symm

/-- Who waits for the mutex or gives up on it changes nothing. -/
theorem step_shared (sound : here.Sound shared self) (taken : shared.mutex = some other)
    (different : self ≠ other) (step : shared.step self here = some next) :
    next.1 = shared := by
  have unlocked : shared.mutex ≠ some self := by
    intro holds
    exact different (Option.some.inj (holds.symm.trans taken))
  obtain ⟨pc, depth⟩ := here
  cases pc with
  | outside => cases step
  | protect | unprotect =>
      simp only [Shared.step] at step
      split at step
      next => cases step; rfl
      next => cases step; rfl
  | lock =>
      simp only [Shared.step, taken, reduceCtorEq, if_false] at step
  | claim | countFirst | countMore | unlock | disclaim => exact absurd sound.2.1 unlocked
  | countDown | testCount => exact absurd sound.1 unlocked

/-- A step hands the mutex to nobody else. -/
theorem step_free (different : self ≠ other) (free : Free shared other)
    (step : shared.step self here = some next) : Free next.1 other := by
  have notOther : some self ≠ some other := fun same => different (Option.some.inj same)
  obtain ⟨pc, depth⟩ := here
  cases pc with
  | outside => cases step
  | protect | unprotect | testCount =>
      simp only [Shared.step] at step
      split at step
      next => cases step; exact free
      next => cases step; exact free
  | lock =>
      simp only [Shared.step] at step
      split at step
      next => cases step; exact ⟨notOther, free.2⟩
      next => cases step
  | claim =>
      cases step
      exact ⟨free.1, notOther⟩
  | countFirst | countMore | countDown =>
      cases step
      exact free
  | disclaim =>
      cases step
      exact ⟨free.1, (Option.some_ne_none _).symm⟩
  | unlock =>
      cases step
      exact ⟨(Option.some_ne_none _).symm, free.2⟩

theorem step_coherent (coherent : shared.mutex = none → shared.lwprotThread = none)
    (sound : here.Sound shared self) (step : shared.step self here = some next) :
    next.1.mutex = none → next.1.lwprotThread = none := by
  obtain ⟨pc, depth⟩ := here
  cases pc with
  | outside => cases step
  | protect | unprotect | testCount =>
      simp only [Shared.step] at step
      split at step
      next => cases step; exact coherent
      next => cases step; exact coherent
  | lock =>
      simp only [Shared.step] at step
      split at step
      next => cases step; exact fun unlocked => absurd unlocked (Option.some_ne_none _)
      next => cases step
  | claim =>
      cases step
      intro unlocked
      exact absurd (sound.2.1.symm.trans unlocked) (Option.some_ne_none _)
  | countFirst | countMore | countDown =>
      cases step
      exact coherent
  | disclaim =>
      cases step
      exact fun _ => rfl
  | unlock =>
      cases step
      exact fun _ => sound.2.2

namespace State.Sound

variable {state : State Thread} {thread : Thread}

/-- A call starts. -/
theorem enter {pc : Pc} {depth : Nat} (sound : state.Sound)
    (entered : Local.Sound state.shared thread ⟨pc, depth⟩) :
    (state.move thread (state.shared, ⟨pc, depth⟩)).Sound where
  coherent := sound.coherent
  locals current := by
    by_cases same : current = thread
    · subst same
      simpa [State.move] using entered
    · simpa [State.move, same] using sound.locals current

theorem step (sound : state.Sound)
    (step : state.shared.step thread (state.locals thread) = some next) :
    (state.move thread next).Sound where
  coherent := step_coherent sound.coherent (sound.locals thread) step
  locals current := by
    by_cases same : current = thread
    · subst same
      simpa [State.move] using step_sound sound.coherent (sound.locals current) step
    · simp only [State.move, Function.update_of_ne same]
      have own := sound.locals current
      by_cases taken : state.shared.mutex = some current
      · -- the holder is not disturbed, since nobody else gets past the mutex
        rw [step_shared (sound.locals thread) taken (Ne.symm same) step]
        exact own
      · exact own.of_free taken (step_free (Ne.symm same) (own.free taken) step)

end State.Sound

/-- No thread is protected more often than an `int` can count. -/
def Shallow (state : State Thread) : Event Thread → Prop
  | .protect thread => (state.locals thread).depth + 1 < 2 ^ 31
  | .unprotect _ | .run _ => True

instance (state : State Thread) (event : Event Thread) : Decidable (Shallow state event) :=
  match event with
  | .protect _ => inferInstanceAs (Decidable (_ < _))
  | .unprotect _ | .run _ => isTrue trivial

theorem sound_of_reaches {state : State Thread}
    (reached : machine.Reaches Shallow .init state) : state.Sound := by
  refine Machine.Reaches.invariant State.Sound.init ?_ reached
  intro state event _ sound enabled shallow
  cases event with
  | protect thread =>
      refine sound.enter ⟨shallow, ?_⟩
      have own := sound.locals thread
      have outside : (state.locals thread).pc = .outside := enabled
      simpa only [Local.Sound, outside] using own
  | unprotect thread =>
      refine sound.enter ?_
      have own := sound.locals thread
      have outside : (state.locals thread).pc = .outside := enabled
      simp only [Local.Sound, outside] at own ⊢
      rcases own with ⟨zero, free⟩ | ⟨positive, owns⟩
      · exact .inl ⟨by omega, free⟩
      · exact .inr (by rwa [Nat.sub_add_cancel positive])
  | run thread =>
      obtain ⟨next, step⟩ := Option.isSome_iff_exists.mp enabled
      have applied : machine.apply state (.run thread) = state.move thread next := by
        simp only [machine, State.apply, step]
      rw [applied]
      exact sound.step step

/-- However the threads are interleaved, only one of them is protected at a time.
Outside of the calls a thread holds the mutex exactly while it is protected, and
`lwprot_count` is then the number of its protections, so that the last of them gives
the mutex back.  This is as long as no thread is protected more than `INT_MAX` times. -/
theorem protected_exclusively {state : State Thread}
    (reached : machine.Reaches Shallow .init state) :
    (∀ thread other, 0 < (state.locals thread).depth →
        0 < (state.locals other).depth → thread = other) ∧
      ∀ thread, (state.locals thread).pc = .outside →
        (state.shared.mutex = some thread ↔ 0 < (state.locals thread).depth) ∧
        (0 < (state.locals thread).depth →
          state.shared.lwprotThread = some thread ∧
            state.shared.lwprotCount.toInt = (state.locals thread).depth) := by
  have sound := sound_of_reaches reached
  constructor
  · intro thread other inside inside'
    have first := (sound.locals thread).mutex_eq inside
    have second := (sound.locals other).mutex_eq inside'
    exact Option.some.inj (first.symm.trans second)
  · intro thread outside
    have own := sound.locals thread
    simp only [Local.Sound, outside] at own
    rcases own with ⟨zero, free⟩ | ⟨positive, owns⟩
    · rw [zero]
      exact ⟨iff_of_false free.1 (Nat.lt_irrefl 0), fun inside => absurd inside (by decide)⟩
    · exact ⟨iff_of_true owns.1 positive, fun _ => owns.2⟩

/-- Thread `0` is protected twice and thread `1` waits. -/
theorem protected_exclusively_nested :
    ∃ state, machine.Reaches Shallow State.init state ∧
      (state.locals (0 : Fin 2)).depth = 2 ∧ (state.locals 1).pc = .lock ∧
      state.shared.lwprotCount.toInt = 2 := by
  obtain ⟨state, reached, nested, outside, waits⟩ :
      ∃ state : State (Fin 2), machine.Reaches Shallow State.init state ∧
        (state.locals 0).depth = 2 ∧ (state.locals 0).pc = .outside ∧
        (state.locals 1).pc = .lock :=
    Machine.exists_reaches_of_exec
      [.protect 1, .run 1, .protect 0, .run 0, .run 0, .run 0, .run 0, .protect 0, .run 0,
        .run 0] (by decide +kernel)
  have counted := ((protected_exclusively reached).2 0 outside).2 (by omega)
  exact ⟨state, reached, nested, waits, by rw [counted.2, nested]; rfl⟩

end EmbeddedRtps.Port.Protect
