import Mathlib.Computability.StateTransition
import Mathlib.Data.Fintype.EquivFin

/-!
# Loops

A `while` loop that may return from its body is a function that maps the loop variables
to their next values or to a result.  Nothing says that it ends: it is run with fuel, and
ends if some amount of it is enough.

Whether a loop ends depends on the passage from one turn to the next only, which is a
state transition in the sense of Mathlib.  With finitely many states it ends unless it
comes back to a state, and then some turn of it does not make progress.
-/

namespace EmbeddedRtps.Foundation

open StateTransition

universe u v w

variable {State : Type u} {Result : Type v}

/-- What a turn of a loop leads to. -/
inductive Turn (State : Type u) (Result : Type v) where
  | again (state : State)
  | done (result : Result)

namespace Turn

def next? : Turn State Result → Option State
  | .again state => some state
  | .done _ => none

theorem next?_eq_some {turn : Turn State Result} {state : State} :
    turn.next? = some state ↔ turn = .again state := by
  cases turn with
  | again => simp [next?]
  | done => simp [next?]

theorem next?_eq_none {turn : Turn State Result} :
    turn.next? = none ↔ ∃ result, turn = .done result := by
  cases turn with
  | again => simp [next?]
  | done => simp [next?]

end Turn

/-- Run a loop for at most `fuel` turns. -/
def loop (body : State → Turn State Result) (state : State) : Nat → Option Result
  | 0 => none
  | fuel + 1 =>
      match body state with
      | .again next => loop body next fuel
      | .done result => some result

/-- Enough fuel gives this result. -/
def Returns (run : Nat → Option Result) (result : Result) : Prop :=
  ∃ fuel, run fuel = some result

def Ends (run : Nat → Option Result) : Prop :=
  ∃ result, Returns run result

section Results

variable {body : State → Turn State Result} {start : State}

/-- A loop returns what its last turn returns. -/
theorem returns_loop_iff {result : Result} :
    Returns (loop body start) result ↔
      ∃ last, Reaches (fun state => (body state).next?) start last ∧
        body last = .done result := by
  constructor
  · rintro ⟨fuel, returned⟩
    induction fuel generalizing start with
    | zero => cases returned
    | succ fuel ih =>
        rw [loop] at returned
        split at returned
        next next turn =>
          obtain ⟨last, reaches, finished⟩ := ih returned
          exact ⟨last, .head (Turn.next?_eq_some.mpr turn) reaches, finished⟩
        next turn =>
          cases returned
          exact ⟨start, .refl, turn⟩
  · rintro ⟨last, reaches, finished⟩
    induction reaches using Relation.ReflTransGen.head_induction_on with
    | refl => exact ⟨1, by rw [loop, finished]⟩
    | @head state next step _ ih =>
        obtain ⟨fuel, returned⟩ := ih
        exact ⟨fuel + 1, by rw [loop, Turn.next?_eq_some.mp step]; exact returned⟩

/-- Whether a loop ends does not depend on what it returns. -/
theorem ends_loop_iff :
    Ends (loop body start) ↔ (eval (fun state => (body state).next?) start).Dom := by
  simp only [Ends, returns_loop_iff, Part.dom_iff_mem, mem_eval, Turn.next?_eq_none]
  constructor
  · rintro ⟨result, last, reaches, finished⟩
    exact ⟨last, reaches, result, finished⟩
  · rintro ⟨last, reaches, result, finished⟩
    exact ⟨result, last, reaches, finished⟩

theorem returns_loop_unique {result other : Result}
    (returned : Returns (loop body start) result)
    (returned' : Returns (loop body start) other) : result = other := by
  obtain ⟨last, reaches, finished⟩ := returns_loop_iff.mp returned
  obtain ⟨last', reaches', finished'⟩ := returns_loop_iff.mp returned'
  have same : last = last' := Part.mem_unique
    (mem_eval.mpr ⟨reaches, Turn.next?_eq_none.mpr ⟨result, finished⟩⟩)
    (mem_eval.mpr ⟨reaches', Turn.next?_eq_none.mpr ⟨other, finished'⟩⟩)
  rw [same, finished'] at finished
  exact (Turn.done.inj finished).symm

theorem returns_loop_of_again {next : State} {result : Result}
    (turn : body start = .again next) (returned : Returns (loop body next) result) :
    Returns (loop body start) result := by
  obtain ⟨last, reaches, finished⟩ := returns_loop_iff.mp returned
  exact returns_loop_iff.mpr ⟨last, .head (Turn.next?_eq_some.mpr turn) reaches, finished⟩

/-- A loop that follows a transition function, except that it may return early, returns
when the function has led to a state it returns in. -/
theorem exists_returns_of_reaches (expected : Result → Prop)
    {step : State → Option State} {last : State}
    (follows : ∀ state next, step state = some next →
      body state = .again next ∨ ∃ result, expected result ∧ body state = .done result)
    (reaches : Reaches step start last)
    (final : ∃ result, expected result ∧ body last = .done result) :
    ∃ result, expected result ∧ Returns (loop body start) result := by
  have at_once : ∀ {state}, (∃ result, expected result ∧ body state = .done result) →
      ∃ result, expected result ∧ Returns (loop body state) result := by
    rintro state ⟨result, accepted, finished⟩
    exact ⟨result, accepted, returns_loop_iff.mpr ⟨state, .refl, finished⟩⟩
  induction reaches using Relation.ReflTransGen.head_induction_on with
  | refl => exact at_once final
  | @head state next taken _ ih =>
      rcases follows state next taken with again | early
      · obtain ⟨result, accepted, returned⟩ := ih
        exact ⟨result, accepted, returns_loop_of_again again returned⟩
      · exact at_once early

end Results

/-! ## Cycles -/

section Cycles

variable {step : State → Option State} {start state later : State}

/-- Whatever a state on a cycle leads to is on a cycle. -/
theorem reaches₁_self_of_reaches (cycle : Reaches₁ step state state)
    (reaches : Reaches step state later) : Reaches₁ step later later := by
  induction reaches with
  | refl => exact cycle
  | @tail before later _ next ih =>
      exact Relation.TransGen.tail' (reaches₁_fwd ih next) next

theorem not_dom_of_cycle (reaches : Reaches step start state)
    (cycle : Reaches₁ step state state) : ¬ (eval step start).Dom := by
  intro ends
  rw [reaches_eval reaches, Part.dom_iff_mem] at ends
  obtain ⟨last, final⟩ := ends
  exact eval_maximal₁ final last (reaches₁_self_of_reaches cycle (mem_eval.mp final).1)

/-- If no state is reached twice, the states reached are well-founded, the later ones
below the earlier ones. -/
theorem wellFounded_of_acyclic [Finite State]
    (acyclic : ∀ state, Reaches step start state → ¬ Reaches₁ step state state) :
    WellFounded fun later earlier : { state // Reaches step start state } =>
      Reaches₁ step earlier later := by
  have irreflexive : Std.Irrefl fun later earlier : { state // Reaches step start state } =>
      Reaches₁ step earlier.1 later.1 := ⟨fun state => acyclic state.1 state.2⟩
  have transitive : IsTrans { state // Reaches step start state } fun later earlier =>
      Reaches₁ step earlier.1 later.1 := ⟨fun _ _ _ first second => second.trans first⟩
  exact Finite.wellFounded_of_trans_of_irrefl _

/-- With finitely many states only a cycle keeps a loop from ending. -/
theorem dom_eval_iff_acyclic [Finite State] :
    (eval step start).Dom ↔
      ∀ state, Reaches step start state → ¬ Reaches₁ step state state := by
  constructor
  · intro ends state reaches cycle
    exact not_dom_of_cycle reaches cycle ends
  · intro acyclic
    have ends : ∀ reached : { state // Reaches step start state },
        (eval step reached.1).Dom := by
      intro reached
      induction reached using (wellFounded_of_acyclic acyclic).induction with
      | _ reached ih =>
          obtain ⟨state, reaches⟩ := reached
          cases next : step state with
          | none => exact Part.dom_iff_mem.mpr ⟨state, mem_eval.mpr ⟨.refl, next⟩⟩
          | some later =>
              rw [reaches_eval (Relation.ReflTransGen.single next)]
              exact ih ⟨later, reaches.tail next⟩ (.single next)
    exact ends ⟨start, .refl⟩

/-- On a cycle some step makes no progress. -/
theorem exists_no_progress (progress : State → Nat) (cycle : Reaches₁ step state state) :
    ∃ before after, Reaches step state before ∧ step before = some after ∧
      progress after ≤ progress before ∧ Reaches step after before := by
  by_contra! always
  have increases : ∀ later, Reaches₁ step state later → progress state < progress later := by
    intro later reaches
    induction reaches with
    | single next =>
        by_contra! stuck
        exact always _ _ .refl next stuck (reaches₁_fwd cycle next)
    | @tail middle later reaches next ih =>
        refine lt_trans ih ?_
        by_contra! stuck
        have again := reaches₁_self_of_reaches cycle reaches.to_reflTransGen
        exact always _ _ reaches.to_reflTransGen next stuck (reaches₁_fwd again next)
  exact Nat.lt_irrefl _ (increases state cycle)

end Cycles

end EmbeddedRtps.Foundation
