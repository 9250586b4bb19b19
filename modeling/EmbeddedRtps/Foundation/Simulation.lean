import EmbeddedRtps.Foundation.Machine
import Mathlib.Data.List.Basic

/-!
# Simulation between machines

A concrete machine simulates an abstract one when each of its steps is, seen through
a view of its states, either no step at all or the step that is named for it.  What
an observer of the abstract machine can learn then holds for the concrete one as
well.
-/

namespace EmbeddedRtps.Foundation

universe u v w x y

namespace Machine

variable {State : Type u} {Event : Type v} {Spec : Type w} {Action : Type x}
variable {Memory : Type y}

/-- From `before` to `after` by no step or by the given one. -/
def Follows (spec : Machine Spec Action) (before after : Spec) : Option Action → Prop
  | none => after = before
  | some step => spec.Enabled before step ∧ after = spec.apply before step

/-- Every step from a reached state leaves the view alone or is the enabled abstract
step that `action` names. -/
def Simulates (concrete : Machine State Event) (condition : State → Event → Prop)
    (start : State) (spec : Machine Spec Action) (view : State → Spec)
    (action : State → Event → Option Action) : Prop :=
  ∀ state event, concrete.Reaches condition start state →
    concrete.Enabled state event → condition state event →
    spec.Follows (view state) (view (concrete.apply state event)) (action state event)

/-- An observer of the abstract machine that is shown the concrete one. -/
def observeThrough (view : State → Spec) (action : State → Event → Option Action)
    (observe : Spec → Action → Memory → Memory) (state : State) (event : Event)
    (memory : Memory) : Memory :=
  match action state event with
  | none => memory
  | some step => observe (view state) step memory

variable {concrete : Machine State Event} {condition : State → Event → Prop}
variable {start : State} {spec : Machine Spec Action} {view : State → Spec}
variable {action : State → Event → Option Action}

/-- A run of the concrete machine is a run of the abstract one, with the same
observations. -/
theorem Simulates.reaches
    (simulates : concrete.Simulates condition start spec view action)
    (observe : Spec → Action → Memory → Memory) {memory : Memory}
    {pair : State × Memory}
    (reached : (concrete.monitored (observeThrough view action observe)).Reaches
      (fun pair event => condition pair.1 event) (start, memory) pair) :
    concrete.Reaches condition start pair.1 ∧
      (spec.monitored observe).Reaches AnyStep (view start, memory)
        (view pair.1, pair.2) := by
  induction reached with
  | refl => exact ⟨.refl, .refl⟩
  | @step pair event _ enabled admitted ih =>
      refine ⟨ih.1.step enabled admitted, ?_⟩
      have simulated := simulates pair.1 event ih.1 enabled admitted
      simp only [monitored, observeThrough]
      cases taken : action pair.1 event with
      | none =>
          rw [taken] at simulated
          rw [show view (concrete.apply pair.1 event) = view pair.1 from simulated]
          exact ih.2
      | some step =>
          rw [taken] at simulated
          rw [simulated.2]
          exact ih.2.step simulated.1 trivial

end Machine

/-! ## Bounded queues -/

namespace Fifo

variable {Message : Type u}

/-- What can happen to a queue.  The last two change nothing: they are the answers a
caller gets who can neither enqueue nor dequeue. -/
inductive Action (Message : Type u) where
  | enqueue (message : Message)
  | dequeue (message : Message)
  | full
  | empty
  deriving DecidableEq, Repr

/-- A queue of at most `capacity` messages, the oldest first. -/
def machine (capacity : Nat) : Machine (List Message) (Action Message) where
  Enabled queue
    | .enqueue _ => queue.length < capacity
    | .dequeue message => queue.head? = some message
    | .full => queue.length = capacity
    | .empty => queue = []
  apply queue
    | .enqueue message => queue ++ [message]
    | .dequeue _ => queue.tail
    | .full | .empty => queue

/-- The messages that went in and came out, in order. -/
structure Log (Message : Type u) where
  posted : List Message := []
  fetched : List Message := []

/-- An observer that keeps the log. -/
def record (_ : List Message) (action : Action Message) (log : Log Message) :
    Log Message :=
  match action with
  | .enqueue message => { log with posted := log.posted ++ [message] }
  | .dequeue message => { log with fetched := log.fetched ++ [message] }
  | .full | .empty => log

/-- Nothing is lost, duplicated or reordered. -/
theorem posted_eq {capacity : Nat} {pair : List Message × Log Message}
    (reached : ((machine capacity).monitored record).Reaches Machine.AnyStep
      ([], {}) pair) :
    pair.2.posted = pair.2.fetched ++ pair.1 ∧ pair.1.length ≤ capacity := by
  induction reached with
  | refl => exact ⟨rfl, Nat.zero_le _⟩
  | @step pair action _ enabled _ ih =>
      obtain ⟨split, bounded⟩ := ih
      cases action with
      | enqueue message =>
          have room : pair.1.length < capacity := enabled
          constructor
          · simp [Machine.monitored, machine, record, split]
          · simp only [Machine.monitored, machine, List.length_append,
              List.length_singleton]
            omega
      | dequeue message =>
          have oldest : pair.1 = message :: pair.1.tail :=
            List.eq_cons_of_mem_head? enabled
          constructor
          · simp only [Machine.monitored, machine, record, List.append_assoc,
              List.singleton_append]
            rw [← oldest, split]
          · simp only [Machine.monitored, machine, List.length_tail]
            omega
      | full => exact ⟨split, bounded⟩
      | empty => exact ⟨split, bounded⟩

end Fifo

end EmbeddedRtps.Foundation
