import EmbeddedRtps.Foundation.Threads
import Mathlib.Data.List.Nodup
import Mathlib.Data.Finset.Max
import Mathlib.Logic.Function.Basic

/-!
# Linked memory with reference counts

A memory holds nodes, each with a link to at most one other node and with a counter.
Chains are what one sees by following links.  A memory is counted if each counter is
the number of links and outside references to its node: then a node may be deallocated
when its counter reaches zero, and if no chain is circular, no node outlives the last
outside reference.
-/

namespace EmbeddedRtps.Foundation.Linked

universe u v

variable {Id : Type u} {Node : Type v}
variable {link : Node → Option Id} {heap after : Id → Option Node}

/-! ## Chains -/

/-- The nodes from a link to the end, in order. -/
inductive Chain (link : Node → Option Id) (heap : Id → Option Node) :
    Option Id → List Id → Prop where
  | nil : Chain link heap none []
  | cons {id : Id} {node : Node} {rest : List Id} :
      heap id = some node → Chain link heap (link node) rest →
      Chain link heap (some id) (id :: rest)

variable {start : Option Id} {ids rest : List Id} {id target : Id} {node : Node}

theorem Chain.unique {ids' : List Id} (chain : Chain link heap start ids)
    (chain' : Chain link heap start ids') : ids = ids' := by
  induction chain generalizing ids' with
  | nil =>
      cases chain'
      rfl
  | cons found _ ih =>
      cases chain' with
      | cons found' rest' =>
          cases found.symm.trans found'
          rw [ih rest']

theorem Chain.of_cons (chain : Chain link heap start (id :: rest)) :
    start = some id ∧ ∃ node, heap id = some node ∧ Chain link heap (link node) rest := by
  cases chain with
  | cons found chain => exact ⟨rfl, _, found, chain⟩

theorem Chain.of_some (chain : Chain link heap (some id) ids) :
    ∃ node rest, heap id = some node ∧ ids = id :: rest ∧ Chain link heap (link node) rest := by
  cases chain with
  | cons found chain => exact ⟨_, _, found, rfl, chain⟩

theorem Chain.eq_nil (chain : Chain link heap none ids) : ids = [] := by
  cases chain
  rfl

/-- A chain goes on in the same way from each of its nodes. -/
theorem Chain.split (chain : Chain link heap start ids) (member : id ∈ ids) :
    ∃ front rest, ids = front ++ id :: rest ∧ Chain link heap (some id) (id :: rest) := by
  induction chain with
  | nil => cases member
  | @cons current node rest found chain ih =>
      rcases List.mem_cons.mp member with rfl | member
      · exact ⟨[], rest, rfl, .cons found chain⟩
      · obtain ⟨front, rest, rfl, chain'⟩ := ih member
        exact ⟨current :: front, rest, rfl, chain'⟩

theorem Chain.drop {front : List Id} (chain : Chain link heap start (front ++ rest)) :
    ∃ start, Chain link heap start rest := by
  induction front generalizing start with
  | nil => exact ⟨start, chain⟩
  | cons id front ih =>
      obtain ⟨_, node, _, chain⟩ := chain.of_cons
      exact ih chain

theorem Chain.nodup (chain : Chain link heap start ids) : ids.Nodup := by
  induction chain with
  | nil => exact List.nodup_nil
  | @cons id node rest found chain ih =>
      refine List.nodup_cons.mpr ⟨fun member => ?_, ih⟩
      -- the chain of `id` would be part of itself
      obtain ⟨front, rest', equal, chain'⟩ := chain.split member
      have same := congrArg List.length (Chain.unique (.cons found chain) chain')
      have longer := congrArg List.length equal
      simp only [List.length_cons, List.length_append] at same longer
      omega

theorem Chain.live (chain : Chain link heap start ids) (member : id ∈ ids) :
    ∃ node, heap id = some node := by
  obtain ⟨_, _, _, chain⟩ := chain.split member
  cases chain with
  | cons found _ => exact ⟨_, found⟩

/-- A chain depends on the links of its own nodes only. -/
theorem Chain.frame (chain : Chain link heap start ids)
    (same : ∀ id ∈ ids, (after id).map link = (heap id).map link) :
    Chain link after start ids := by
  induction chain with
  | nil => exact .nil
  | @cons id node rest found _ ih =>
      obtain ⟨here, there⟩ := List.forall_mem_cons.mp same
      rw [found] at here
      obtain ⟨node', found', link'⟩ := Option.map_eq_some_iff.mp here
      exact .cons found' (link' ▸ ih there)

/-- A chain whose nodes up to `id` are kept, and that goes on otherwise after it. -/
theorem Chain.redirect {front tail : List Id}
    (chain : Chain link heap start (front ++ id :: rest))
    (same : ∀ current ∈ front, (after current).map link = (heap current).map link)
    (found : after id = some node) (next : Chain link after (link node) tail) :
    Chain link after start (front ++ id :: tail) := by
  induction front generalizing start with
  | nil =>
      cases chain
      exact .cons found next
  | cons current front ih =>
      cases chain with
      | cons found' chain =>
          obtain ⟨here, there⟩ := List.forall_mem_cons.mp same
          rw [found'] at here
          obtain ⟨node', found', link'⟩ := Option.map_eq_some_iff.mp here
          exact .cons found' (link' ▸ ih chain there)

/-- Every node has a chain: following links comes to an end. -/
def Grounded (link : Node → Option Id) (heap : Id → Option Node) : Prop :=
  ∀ id node, heap id = some node → ∃ ids, Chain link heap (some id) ids

theorem Grounded.of_same_links (grounded : Grounded link heap)
    (same : ∀ id, (after id).map link = (heap id).map link) : Grounded link after := by
  intro id node found
  have equal := same id
  rw [found] at equal
  obtain ⟨node', found', _⟩ := Option.map_eq_some_iff.mp equal.symm
  obtain ⟨ids, chain⟩ := grounded id node' found'
  exact ⟨ids, chain.frame fun id _ => same id⟩

/-- The executable form of a chain, cut off after `fuel` nodes. -/
def walk (link : Node → Option Id) (heap : Id → Option Node) :
    Nat → Option Id → List Id
  | _, none => []
  | 0, some _ => []
  | fuel + 1, some id =>
      match heap id with
      | none => []
      | some node => id :: walk link heap fuel (link node)

theorem Chain.walk_eq (chain : Chain link heap start ids) {fuel : Nat}
    (enough : ids.length ≤ fuel) : walk link heap fuel start = ids := by
  induction chain generalizing fuel with
  | nil => simp [walk]
  | cons found _ ih =>
      cases fuel with
      | zero => cases enough
      | succ fuel => simp [walk, found, ih (Nat.le_of_succ_le_succ enough)]

/-- A chain is not longer than the memory. -/
theorem Chain.length_le [Fintype Id] (chain : Chain link heap start ids) :
    ids.length ≤ Fintype.card Id :=
  chain.nodup.length_le_card

section Updates

variable [DecidableEq Id]

/-- A change of a node that keeps what `view` shows of it. -/
theorem map_update {View : Type*} {view : Node → View} {node' : Node}
    (found : heap id = some node) (kept : view node' = view node) (current : Id) :
    (Function.update heap id (some node') current).map view = (heap current).map view := by
  by_cases same : current = id
  · subst same
    simp [found, kept]
  · rw [Function.update_of_ne same]

namespace Grounded

/-- A new node without a link. -/
theorem create (grounded : Grounded link heap) (fresh : heap id = none)
    (last : link node = none) : Grounded link (Function.update heap id (some node)) := by
  intro current node' found
  by_cases same : current = id
  · subst same
    refine ⟨[current], .cons (Function.update_self _ _ _) ?_⟩
    rw [last]
    exact .nil
  · rw [Function.update_of_ne same] at found
    obtain ⟨ids, chain⟩ := grounded current node' found
    refine ⟨ids, chain.frame fun member listed => ?_⟩
    obtain ⟨_, live⟩ := chain.live listed
    rw [Function.update_of_ne fun equal => ?_]
    rw [equal, fresh] at live
    cases live

/-- A link is replaced by one to a chain that does not come back. -/
theorem redirect {node' : Node} {tail : List Id} (grounded : Grounded link heap)
    (found : heap id = some node) (next : Chain link heap (link node') tail)
    (away : id ∉ tail) : Grounded link (Function.update heap id (some node')) := by
  have elsewhere : ∀ current, current ≠ id →
      (Function.update heap id (some node') current).map link = (heap current).map link :=
    fun current different => by rw [Function.update_of_ne different]
  have tail' : Chain link (Function.update heap id (some node')) (link node') tail :=
    next.frame fun current listed => elsewhere current (ne_of_mem_of_not_mem listed away)
  intro current node'' found'
  have live : ∃ node, heap current = some node := by
    by_cases same : current = id
    · exact ⟨node, same ▸ found⟩
    · exact ⟨node'', by rwa [Function.update_of_ne same] at found'⟩
  obtain ⟨_, live⟩ := live
  obtain ⟨ids, chain⟩ := grounded current _ live
  by_cases member : id ∈ ids
  · obtain ⟨front, rest, rfl, _⟩ := chain.split member
    have outside : id ∉ front := fun listed =>
      (List.nodup_append.mp chain.nodup).2.2 id listed id List.mem_cons_self rfl
    exact ⟨front ++ id :: tail, chain.redirect
      (fun current listed => elsewhere current (ne_of_mem_of_not_mem listed outside))
      (Function.update_self _ _ _) tail'⟩
  · exact ⟨ids, chain.frame fun current listed =>
      elsewhere current (ne_of_mem_of_not_mem listed member)⟩

end Grounded

end Updates

/-! ## Pointers -/

variable [DecidableEq Id]

/-- The node links to `target`. -/
def pointsTo (link : Node → Option Id) (target : Id) (node : Option Node) : Bool :=
  node.any fun node => link node == some target

@[simp] theorem pointsTo_none : pointsTo link target none = false := rfl

@[simp] theorem pointsTo_some :
    pointsTo link target (some node) = (link node == some target) := rfl

theorem pointsTo_eq_of_map_eq {left right : Option Node}
    (same : left.map link = right.map link) :
    pointsTo link target left = pointsTo link target right := by
  cases left <;> cases right <;> simp_all

variable {held held' : Id → Nat}

/-- One more reference, unless it is null. -/
def withRef (held : Id → Nat) (start : Option Id) (id : Id) : Nat :=
  held id + (start == some id).toNat

@[simp] theorem withRef_none : withRef held none = held := by
  funext id
  simp [withRef]

variable [Fintype Id]

/-- The number of links to a node. -/
def pointers (link : Node → Option Id) (heap : Id → Option Node) (target : Id) : Nat :=
  countIn (pointsTo link target) heap

theorem pointers_congr (same : ∀ id, (after id).map link = (heap id).map link) :
    pointers link after target = pointers link heap target := by
  simp only [pointers, countIn]
  exact Finset.sum_congr rfl fun id _ => by rw [pointsTo_eq_of_map_eq (same id)]

theorem pointers_pos (found : heap id = some node) (linked : link node = some target) :
    0 < pointers link heap target :=
  countIn_pos (show pointsTo link target (heap id) = true by simp [found, linked])

theorem exists_of_pointers_pos (positive : 0 < pointers link heap target) :
    ∃ id node, heap id = some node ∧ link node = some target := by
  obtain ⟨id, points⟩ := exists_of_countIn_pos positive
  cases found : heap id with
  | none => simp [found] at points
  | some node => exact ⟨id, node, found, by simpa [found] using points⟩

theorem not_linked_of_pointers_eq_zero (unlinked : pointers link heap target = 0)
    (found : heap id = some node) : link node ≠ some target := by
  intro linked
  have positive := pointers_pos found linked
  omega

/-- A node nothing links to is in no chain but its own. -/
theorem Chain.not_mem_of_unlinked (chain : Chain link heap start ids)
    (unlinked : pointers link heap target = 0) (other : start ≠ some target) :
    target ∉ ids := by
  induction chain with
  | nil => exact List.not_mem_nil
  | cons found _ ih =>
      have elsewhere := not_linked_of_pointers_eq_zero unlinked found
      simp only [List.mem_cons, not_or]
      exact ⟨fun same => other (congrArg some same.symm), ih elsewhere⟩

/-- A node nothing links to can be taken away. -/
theorem Grounded.erase (grounded : Grounded link heap) (unlinked : pointers link heap id = 0) :
    Grounded link (Function.update heap id none) := by
  intro current node found
  by_cases same : current = id
  · simp [same] at found
  · rw [Function.update_of_ne same] at found
    obtain ⟨ids, chain⟩ := grounded current node found
    refine ⟨ids, chain.frame fun member listed => ?_⟩
    have outside := chain.not_mem_of_unlinked unlinked fun equal =>
      same (Option.some.inj equal)
    rw [Function.update_of_ne (ne_of_mem_of_not_mem listed outside)]

/-! ## Counters -/

variable {ref : Node → Nat}

/-- The counter of a node, zero where there is none. -/
def counter (ref : Node → Nat) (heap : Id → Option Node) (id : Id) : Nat :=
  (heap id).elim 0 ref

/-- Every counter is the number of links to its node and of the references held outside,
and no node has the counter zero. -/
structure Counted (link : Node → Option Id) (ref : Node → Nat) (heap : Id → Option Node)
    (held : Id → Nat) : Prop where
  total : ∀ id, counter ref heap id = held id + pointers link heap id
  positive : ∀ id node, heap id = some node → 0 < ref node

namespace Counted

theorem ref_eq (counted : Counted link ref heap held) (found : heap id = some node) :
    ref node = held id + pointers link heap id := by
  have total := counted.total id
  rwa [counter, found] at total

theorem live_of_pos (counted : Counted link ref heap held)
    (positive : 0 < held id + pointers link heap id) : ∃ node, heap id = some node := by
  rw [← counted.total id, counter] at positive
  cases found : heap id with
  | none => simp [found] at positive
  | some node => exact ⟨node, rfl⟩

/-- References lead to nodes. -/
theorem live_of_held (counted : Counted link ref heap (withRef held (some id))) :
    ∃ node, heap id = some node := by
  refine counted.live_of_pos ?_
  simp only [withRef, beq_self_eq_true, Bool.toNat_true]
  omega

/-- Links lead to nodes. -/
theorem live_of_link (counted : Counted link ref heap held) (found : heap id = some node)
    (linked : link node = some target) : ∃ node', heap target = some node' :=
  counted.live_of_pos (Nat.add_pos_right _ (pointers_pos found linked))

/-- One node changes: the rule from which the others follow. -/
theorem update {changed : Option Node} (counted : Counted link ref heap held)
    (positive : ∀ node, changed = some node → 0 < ref node)
    (balance : ∀ target,
      counter ref (Function.update heap id changed) target + held target +
          (pointsTo link target (heap id)).toNat =
        counter ref heap target + held' target + (pointsTo link target changed).toNat) :
    Counted link ref (Function.update heap id changed) held' where
  total target := by
    have before := counted.total target
    have moved := countIn_update (pointsTo link target) heap id changed
    have balanced := balance target
    simp only [pointers] at before ⊢
    omega
  positive current node found := by
    by_cases same : current = id
    · exact positive node (by simpa [same] using found)
    · exact counted.positive current node (by rwa [Function.update_of_ne same] at found)

theorem of_same (counted : Counted link ref heap held)
    (links : ∀ id, (after id).map link = (heap id).map link)
    (refs : ∀ id, (after id).map ref = (heap id).map ref) :
    Counted link ref after held := by
  have counters : ∀ id, counter ref after id = counter ref heap id := by
    intro id
    have same := refs id
    simp only [counter]
    cases here : after id <;> cases there : heap id <;> simp_all
  constructor
  · intro id
    rw [counters, pointers_congr links]
    exact counted.total id
  · intro id node found
    have same := refs id
    rw [found] at same
    obtain ⟨node', found', equal⟩ := Option.map_eq_some_iff.mp same.symm
    rw [← equal]
    exact counted.positive id node' found'

/-- A reference that is not the last one is given up. -/
theorem decrement {node' : Node} (counted : Counted link ref heap (withRef held (some id)))
    (found : heap id = some node) (shared : ref node ≠ 1) (link' : link node' = link node)
    (ref' : ref node' = ref node - 1) :
    Counted link ref (Function.update heap id (some node')) held := by
  have positive := counted.positive id node found
  refine counted.update ?_ ?_
  · rintro _ ⟨⟩
    omega
  · intro target
    simp only [found, pointsTo_some, link', withRef, counter, Function.update_apply]
    by_cases same : target = id
    · subst same
      simp [found]
      omega
    · simp [same, Ne.symm same]

/-- The last reference to a node is given up: nothing links to it, and its own link
becomes a reference. -/
theorem release (counted : Counted link ref heap (withRef held (some id)))
    (found : heap id = some node) (last : ref node = 1) :
    pointers link heap id = 0 ∧
      Counted link ref (Function.update heap id none) (withRef held (link node)) := by
  have total := counted.ref_eq found
  simp only [withRef, beq_self_eq_true, Bool.toNat_true] at total
  have unlinked : pointers link heap id = 0 := by omega
  refine ⟨unlinked, counted.update (fun _ none => by cases none) ?_⟩
  intro target
  simp only [found, pointsTo_some, pointsTo_none, withRef, counter, Function.update_apply]
  by_cases same : target = id
  · subst same
    simp [found, last]
    omega
  · have away : (some id == some target) = false := by simpa using Ne.symm same
    simp only [same, away, if_false, Bool.toNat_false]
    omega

/-- Another reference to a node. -/
theorem increment {node' : Node} (counted : Counted link ref heap held)
    (found : heap id = some node) (link' : link node' = link node)
    (ref' : ref node' = ref node + 1) :
    Counted link ref (Function.update heap id (some node')) (withRef held (some id)) := by
  refine counted.update ?_ ?_
  · rintro _ ⟨⟩
    omega
  · intro target
    simp only [found, pointsTo_some, link', withRef, counter, Function.update_apply]
    by_cases same : target = id
    · subst same
      simp [found]
      omega
    · simp [same, Ne.symm same]

/-- A link that is removed leaves a reference. -/
theorem detach {node' : Node} (counted : Counted link ref heap held)
    (found : heap id = some node) (link' : link node' = none) (ref' : ref node' = ref node) :
    Counted link ref (Function.update heap id (some node')) (withRef held (link node)) := by
  have positive := counted.positive id node found
  refine counted.update ?_ ?_
  · rintro _ ⟨⟩
    omega
  · intro target
    simp only [found, pointsTo_some, link', withRef, counter, Function.update_apply]
    by_cases same : target = id
    · subst same
      simp [found, ref']
      omega
    · simp [same]
      omega

/-- A reference becomes a link. -/
theorem attach {node' : Node} (counted : Counted link ref heap (withRef held (link node')))
    (found : heap id = some node) (last : link node = none) (ref' : ref node' = ref node) :
    Counted link ref (Function.update heap id (some node')) held := by
  have positive := counted.positive id node found
  refine counted.update ?_ ?_
  · rintro _ ⟨⟩
    omega
  · intro target
    simp only [found, pointsTo_some, last, withRef, counter, Function.update_apply]
    by_cases same : target = id
    · subst same
      simp [found, ref']
      omega
    · simp [same]
      omega

/-- A new node, with one reference to it. -/
theorem create (counted : Counted link ref heap held) (fresh : heap id = none)
    (last : link node = none) (one : ref node = 1) :
    Counted link ref (Function.update heap id (some node)) (withRef held (some id)) := by
  refine counted.update ?_ ?_
  · rintro _ ⟨⟩
    omega
  · intro target
    simp only [fresh, pointsTo_some, pointsTo_none, last, withRef, counter,
      Function.update_apply]
    by_cases same : target = id
    · subst same
      simp [fresh, one]
      omega
    · simp [same, Ne.symm same]

/-- Every node is in the chain of one that is referred to from outside: of all nodes
whose chain runs through it, one with the longest chain has no link to it. -/
theorem exists_holder (counted : Counted link ref heap held) (grounded : Grounded link heap)
    (found : heap id = some node) :
    ∃ holder ids, 0 < held holder ∧ Chain link heap (some holder) ids ∧ id ∈ ids := by
  let chainFrom := fun current => walk link heap (Fintype.card Id) (some current)
  let through := Finset.univ.filter fun current => heap current ≠ none ∧ id ∈ chainFrom current
  have nonempty : through.Nonempty := by
    obtain ⟨ids, chain⟩ := grounded id node found
    obtain ⟨_, _, _, equal, _⟩ := chain.of_some
    refine ⟨id, Finset.mem_filter.mpr ⟨Finset.mem_univ _, by simp [found], ?_⟩⟩
    simp only [chainFrom, chain.walk_eq chain.length_le, equal, List.mem_cons, true_or]
  obtain ⟨deepest, member, longest⟩ :=
    Finset.exists_max_image through (fun current => (chainFrom current).length) nonempty
  obtain ⟨_, live, passes⟩ := Finset.mem_filter.mp member
  obtain ⟨node', found'⟩ := Option.ne_none_iff_exists'.mp live
  obtain ⟨ids, chain⟩ := grounded deepest node' found'
  have walked : chainFrom deepest = ids := chain.walk_eq chain.length_le
  rw [walked] at passes
  refine ⟨deepest, ids, ?_, chain, passes⟩
  by_contra unheld
  have linked : 0 < pointers link heap deepest := by
    have total := counted.ref_eq found'
    have positive := counted.positive deepest node' found'
    omega
  obtain ⟨current, node'', found'', points⟩ := exists_of_pointers_pos linked
  have chain' : Chain link heap (some current) (current :: ids) :=
    .cons found'' (points ▸ chain)
  have walked' : chainFrom current = current :: ids := chain'.walk_eq chain'.length_le
  have atMost := longest current (Finset.mem_filter.mpr
    ⟨Finset.mem_univ _, by simp [found''], walked' ▸ List.mem_cons_of_mem current passes⟩)
  rw [walked, walked', List.length_cons] at atMost
  omega

/-- Without references from outside the memory is empty. -/
theorem eq_none_of_unheld (counted : Counted link ref heap fun _ => 0)
    (grounded : Grounded link heap) (id : Id) : heap id = none := by
  cases found : heap id with
  | none => rfl
  | some node =>
      obtain ⟨_, _, positive, _⟩ := counted.exists_holder grounded found
      cases positive

end Counted

end EmbeddedRtps.Foundation.Linked
