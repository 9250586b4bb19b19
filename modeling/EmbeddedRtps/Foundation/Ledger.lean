import Mathlib.Data.List.Perm.Basic

/-!
# Ledgers

What a program that allocates and frees resources has done so far.  Resources are named
by the activity they belong to, and an activity has at most one.  An activity that ends
without freeing its resource loses it, and one that has none must not use it; either
leaves a damage that no later activity repairs.
-/

namespace EmbeddedRtps.Foundation

universe u

variable {Resource : Type u}

/-- The resources allocated, freed and used so far. -/
structure Ledger (Resource : Type u) where
  allocated : List Resource
  freed : List Resource
  used : List Resource

namespace Ledger

/-- What was freed is what was allocated, one by one, and only what was allocated was
used. -/
structure Balanced (ledger : Ledger Resource) : Prop where
  freed : ledger.freed.Perm ledger.allocated
  used : ∀ resource ∈ ledger.used, resource ∈ ledger.allocated

instance [DecidableEq Resource] (ledger : Ledger Resource) : Decidable ledger.Balanced :=
  decidable_of_iff
    (ledger.freed.Perm ledger.allocated ∧
      ∀ resource ∈ ledger.used, resource ∈ ledger.allocated)
    ⟨fun both => ⟨both.1, both.2⟩, fun balanced => ⟨balanced.freed, balanced.used⟩⟩

def allocate (ledger : Ledger Resource) (resource : Resource) : Ledger Resource :=
  { ledger with allocated := ledger.allocated ++ [resource] }

def free (ledger : Ledger Resource) (resource : Resource) : Ledger Resource :=
  { ledger with freed := ledger.freed ++ [resource] }

def use (ledger : Ledger Resource) (resource : Resource) : Ledger Resource :=
  { ledger with used := ledger.used ++ [resource] }

/-- This resource is lost, or was used without having been allocated. -/
def Damages (ledger : Ledger Resource) (resource : Resource) : Prop :=
  resource ∈ ledger.allocated ∧ resource ∉ ledger.freed ∨
    resource ∈ ledger.used ∧ resource ∉ ledger.allocated

/-- The ledger when the activities in `past` are over and `held` is the resource of the
current one.  Without damage only `held` is outstanding, and nothing was used on the
side; a damage is one of the past. -/
structure Keeps (ledger : Ledger Resource) (past : Resource → Prop)
    (held : List Resource) (damaged : Bool) : Prop where
  allocated : ∀ resource ∈ ledger.allocated, past resource ∨ resource ∈ held
  freed : ∀ resource ∈ ledger.freed, past resource
  undamaged : damaged = false →
    ledger.allocated.Perm (ledger.freed ++ held) ∧ ledger.used = []
  damage : damaged = true → ∃ resource, past resource ∧ ledger.Damages resource

theorem Damages.not_balanced {ledger : Ledger Resource} {resource : Resource}
    (damages : ledger.Damages resource) : ¬ ledger.Balanced := by
  intro balanced
  rcases damages with ⟨allocated, unfreed⟩ | ⟨used, missing⟩
  · exact unfreed (balanced.freed.symm.subset allocated)
  · exact missing (balanced.used resource used)

variable {ledger : Ledger Resource} {past past' : Resource → Prop}
variable {held : List Resource} {damaged : Bool} {resource : Resource}

/-- Between two activities the ledger is balanced unless it is damaged. -/
theorem Keeps.balanced_iff (keeps : ledger.Keeps past [] damaged) :
    ledger.Balanced ↔ damaged = false := by
  constructor
  · intro balanced
    cases damaged with
    | false => rfl
    | true =>
        obtain ⟨resource, _, damages⟩ := keeps.damage rfl
        exact absurd balanced damages.not_balanced
  · intro undamaged
    obtain ⟨perm, used⟩ := keeps.undamaged undamaged
    rw [List.append_nil] at perm
    constructor
    case freed => exact perm.symm
    case used =>
      rw [used]
      exact fun _ member => by cases member

/-- Time passes. -/
theorem Keeps.mono (keeps : ledger.Keeps past held damaged)
    (later : ∀ resource, past resource → past' resource) :
    ledger.Keeps past' held damaged where
  allocated resource member := (keeps.allocated resource member).imp_left (later resource)
  freed resource member := later resource (keeps.freed resource member)
  undamaged := keeps.undamaged
  damage damaged := by
    obtain ⟨resource, ended, damages⟩ := keeps.damage damaged
    exact ⟨resource, later resource ended, damages⟩

/-- The current activity allocates its resource. -/
theorem Keeps.allocate (keeps : ledger.Keeps past [] damaged)
    (current : ¬ past resource) :
    (ledger.allocate resource).Keeps past [resource] damaged := by
  constructor
  case allocated =>
      intro other member
      rcases List.mem_append.mp member with old | new
      · exact (keeps.allocated other old).imp_right fun none => by cases none
      · exact Or.inr new
  case freed => exact keeps.freed
  case undamaged =>
      intro undamaged
      obtain ⟨perm, used⟩ := keeps.undamaged undamaged
      rw [List.append_nil] at perm
      exact ⟨perm.append_right [resource], used⟩
  case damage =>
      intro damaged
      obtain ⟨other, ended, lost | missing⟩ := keeps.damage damaged
      · exact ⟨other, ended, Or.inl ⟨List.mem_append_left _ lost.1, lost.2⟩⟩
      · refine ⟨other, ended, Or.inr ⟨missing.1, ?_⟩⟩
        intro member
        rcases List.mem_append.mp member with old | new
        · exact missing.2 old
        · rw [List.mem_singleton.mp new] at ended
          exact current ended

/-- It frees it as the last thing it does. -/
theorem Keeps.free (keeps : ledger.Keeps past [resource] damaged)
    (current : ¬ past resource) (later : ∀ other, past other → past' other)
    (ended : past' resource) : (ledger.free resource).Keeps past' [] damaged := by
  constructor
  case allocated =>
      intro other member
      rcases keeps.allocated other member with old | new
      · exact Or.inl (later other old)
      · rw [List.mem_singleton.mp new]
        exact Or.inl ended
  case freed =>
      intro other member
      rcases List.mem_append.mp member with old | new
      · exact later other (keeps.freed other old)
      · rw [List.mem_singleton.mp new]
        exact ended
  case undamaged =>
      intro undamaged
      obtain ⟨perm, used⟩ := keeps.undamaged undamaged
      rw [← List.append_nil (ledger.freed ++ [resource])] at perm
      exact ⟨perm, used⟩
  case damage =>
      intro damaged
      obtain ⟨other, before, lost | missing⟩ := keeps.damage damaged
      · refine ⟨other, later other before, Or.inl ⟨lost.1, ?_⟩⟩
        intro member
        rcases List.mem_append.mp member with old | new
        · exact lost.2 old
        · rw [List.mem_singleton.mp new] at before
          exact current before
      · exact ⟨other, later other before, Or.inr missing⟩

/-- It uses its resource and ends without freeing it.  If it has none, the use is the
damage, and otherwise the loss is. -/
theorem Keeps.abandon (keeps : ledger.Keeps past held damaged)
    (own : ∀ other ∈ held, other = resource)
    (current : ¬ past resource) (later : ∀ other, past other → past' other)
    (ended : past' resource) : (ledger.use resource).Keeps past' [] true := by
  constructor
  case allocated =>
      intro other member
      rcases keeps.allocated other member with old | new
      · exact Or.inl (later other old)
      · rw [own other new]
        exact Or.inl ended
  case freed =>
      intro other member
      exact later other (keeps.freed other member)
  case undamaged => exact fun undamaged => by cases undamaged
  case damage =>
      intro _
      refine ⟨resource, ended, ?_⟩
      by_cases member : resource ∈ ledger.allocated
      · refine Or.inl ⟨member, ?_⟩
        exact fun freed => current (keeps.freed resource freed)
      · exact Or.inr ⟨List.mem_append_right _ (List.mem_singleton_self resource), member⟩

end Ledger

end EmbeddedRtps.Foundation
