import Mathlib.Logic.Basic

/-!
# Machines driven by their environment

A machine is given by the events that may happen in a state and by what each of
them does.  Several threads and a network are one machine: every atomic action of
every party is an event, and a run is any order of enabled events.

Reachability carries a condition on the state before each step.  The trivial
condition gives all runs; a stronger one gives the runs in which some kind of
step is never taken, or is taken in certain states only.
-/

namespace EmbeddedRtps.Foundation

universe u v w

/-- Events are enabled or not in a state, and act on it deterministically; all
nondeterminism is in the choice of the next event. -/
structure Machine (State : Type u) (Event : Type v) where
  Enabled : State → Event → Prop
  apply : State → Event → State

namespace Machine

variable {State : Type u} {Event : Type v}

/-- The condition every step satisfies. -/
def AnyStep : State → Event → Prop := fun _ _ => True

instance (state : State) (event : Event) : Decidable (AnyStep state event) :=
  isTrue trivial

/-- States reached from `start` by enabled events that all satisfy `condition` in
the state they are taken in. -/
inductive Reaches (machine : Machine State Event)
    (condition : State → Event → Prop) (start : State) : State → Prop where
  | refl : Reaches machine condition start start
  | step {state : State} {event : Event} :
      Reaches machine condition start state →
      machine.Enabled state event → condition state event →
      Reaches machine condition start (machine.apply state event)

variable {machine : Machine State Event}
variable {condition : State → Event → Prop} {start middle state : State}

/-- The invariant rule: what holds at the start and is kept by every admitted
step holds in every state reached.  A step may assume that its state is reached,
so that one invariant can use another. -/
theorem Reaches.invariant {property : State → Prop}
    (initially : property start)
    (preserved : ∀ state event, machine.Reaches condition start state →
      property state → machine.Enabled state event → condition state event →
      property (machine.apply state event))
    (reached : machine.Reaches condition start state) : property state := by
  induction reached with
  | refl => exact initially
  | step before enabled admitted ih =>
      exact preserved _ _ before ih enabled admitted

theorem Reaches.trans (first : machine.Reaches condition start middle)
    (second : machine.Reaches condition middle state) :
    machine.Reaches condition start state := by
  induction second with
  | refl => exact first
  | step _ enabled admitted ih => exact .step ih enabled admitted

/-- The progress rule: if in every state reached short of the goal some admitted event
leads to a smaller rank, then every run can be continued to the goal. -/
theorem Reaches.exists_goal {Rank : Type w} {smaller : Rank → Rank → Prop}
    (wellFounded : WellFounded smaller) (rank : State → Rank) {goal : State → Prop}
    (progress : ∀ state, machine.Reaches condition start state → ¬ goal state →
      ∃ event, machine.Enabled state event ∧ condition state event ∧
        smaller (rank (machine.apply state event)) (rank state))
    (reached : machine.Reaches condition start state) :
    ∃ final, machine.Reaches condition state final ∧ goal final := by
  induction here : rank state using wellFounded.induction generalizing state with
  | _ current ih =>
      by_cases there : goal state
      · exact ⟨state, .refl, there⟩
      obtain ⟨event, enabled, admitted, less⟩ := progress state reached there
      obtain ⟨final, onwards, there⟩ :=
        ih _ (here ▸ less) (reached.step enabled admitted) rfl
      exact ⟨final, (Reaches.refl.step enabled admitted).trans onwards, there⟩

/-! ## Schedules -/

section Schedules

variable (machine) (condition)
variable [∀ state event, Decidable (machine.Enabled state event)]
variable [∀ state event, Decidable (condition state event)]

/-- Run a schedule, giving up at the first event that is not enabled or not
admitted. -/
def exec : State → List Event → Option State
  | state, [] => some state
  | state, event :: rest =>
      if machine.Enabled state event ∧ condition state event then
        exec (machine.apply state event) rest
      else
        none

variable {machine} {condition}

/-- A schedule that runs to its end witnesses reachability. -/
theorem reaches_of_exec {schedule : List Event}
    (executed : machine.exec condition start schedule = some state) :
    machine.Reaches condition start state := by
  induction schedule generalizing start with
  | nil =>
      cases executed
      exact .refl
  | cons event rest ih =>
      rw [exec] at executed
      split at executed
      next possible =>
        exact (Reaches.refl.step possible.1 possible.2).trans (ih executed)
      next => cases executed

/-- A schedule that ends in a state with a decidable property witnesses a
reachable state with it. -/
theorem exists_reaches_of_exec {property : State → Prop}
    [DecidablePred property] (schedule : List Event)
    (executed : (machine.exec condition start schedule).any
      (fun state => decide (property state)) = true) :
    ∃ state, machine.Reaches condition start state ∧ property state := by
  cases result : machine.exec condition start schedule with
  | none => simp [result] at executed
  | some state =>
      simp only [result, Option.any_some, decide_eq_true_eq] at executed
      exact ⟨state, reaches_of_exec result, executed⟩

end Schedules

/-! ## Monitors -/

/-- Run an observer beside a machine.  It sees each event with the state before
it, and has no influence on which events are enabled. -/
def monitored {Memory : Type w} (machine : Machine State Event)
    (observe : State → Event → Memory → Memory) :
    Machine (State × Memory) Event where
  Enabled pair event := machine.Enabled pair.1 event
  apply pair event := (machine.apply pair.1 event, observe pair.1 event pair.2)

/-- Every run can be observed: a monitor restricts nothing. -/
theorem Reaches.monitored {Memory : Type w}
    (observe : State → Event → Memory → Memory) (memory : Memory)
    (reached : machine.Reaches condition start state) :
    ∃ final, (machine.monitored observe).Reaches
      (fun pair event => condition pair.1 event) (start, memory) (state, final) := by
  induction reached with
  | refl => exact ⟨memory, .refl⟩
  | @step state event _ enabled admitted ih =>
      rcases ih with ⟨final, observed⟩
      exact ⟨observe state event final, observed.step enabled admitted⟩

/-- What is reached under observation is reached without it. -/
theorem Reaches.unmonitored {Memory : Type w}
    {observe : State → Event → Memory → Memory} {before after : State × Memory}
    (reached : (machine.monitored observe).Reaches AnyStep before after) :
    machine.Reaches AnyStep before.1 after.1 := by
  induction reached with
  | refl => exact .refl
  | step _ enabled _ ih => exact ih.step enabled trivial

instance {Memory : Type w} (observe : State → Event → Memory → Memory)
    [∀ state event, Decidable (machine.Enabled state event)]
    (pair : State × Memory) (event : Event) :
    Decidable ((machine.monitored observe).Enabled pair event) :=
  inferInstanceAs (Decidable (machine.Enabled pair.1 event))

end Machine

/-! ## Logs -/

/-- What a step does to a list of results that is cleared from time to time. -/
inductive LogAction where
  | clear
  | append
  | keep
  deriving DecidableEq, Repr

namespace LogAction

variable {State : Type u} {Event : Type v} {Entry : Type w}

/-- A list that is kept may be reordered. -/
def Describes : LogAction → List Entry → List Entry → Prop
  | .clear, _, after => after = []
  | .append, before, after => ∃ entry, after = before ++ [entry]
  | .keep, before, after => after.Perm before

/-- Remember whether something has been appended since the list was cleared. -/
def appended (action : State → Event → LogAction) (state : State) (event : Event)
    (memory : Bool) : Bool :=
  match action state event with
  | .clear => false
  | .append => true
  | .keep => memory

/-- In every run the list is empty exactly if nothing has been appended since it was
cleared. -/
theorem ne_nil_iff_appended {machine : Machine State Event} {start : State}
    {log : State → List Entry} {action : State → Event → LogAction}
    (describes : ∀ state event,
      (action state event).Describes (log state) (log (machine.apply state event)))
    (empty : log start = []) {pair : State × Bool}
    (reached : (machine.monitored (appended action)).Reaches Machine.AnyStep
      (start, false) pair) :
    log pair.1 ≠ [] ↔ pair.2 = true := by
  induction reached with
  | refl => simp [empty]
  | @step pair event _ _ _ ih =>
      have described := describes pair.1 event
      simp only [Machine.monitored, appended]
      cases taken : action pair.1 event with
      | clear =>
          rw [taken] at described
          simp [show log (machine.apply pair.1 event) = [] from described]
      | append =>
          rw [taken] at described
          obtain ⟨entry, extended⟩ := described
          simp [extended]
      | keep =>
          rw [taken] at described
          have kept : (log (machine.apply pair.1 event)).Perm (log pair.1) := described
          rw [← ih, ne_eq, ne_eq, ← List.length_eq_zero_iff, ← List.length_eq_zero_iff,
            kept.length_eq]

end LogAction

end EmbeddedRtps.Foundation
