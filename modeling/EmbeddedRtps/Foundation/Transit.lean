import Mathlib.Data.List.Basic
import Mathlib.Data.List.Perm.Subperm

/-!
# Messages in transit

A network is modelled by the lists of messages in each of its stages.  A message
that moves on is erased from one list and appended to the next.
-/

namespace EmbeddedRtps.Foundation

universe u v

variable {α : Type u} {β : Type v} [DecidableEq α]

/-- Moving a message on, seen through a projection of the list it leaves, keeps the
two lists together the same. -/
theorem map_erase_append_perm (project : α → β) {value : α} {left : List α}
    (member : value ∈ left) (right : List β) :
    ((left.erase value).map project ++ (right ++ [project value])).Perm
      (left.map project ++ right) := by
  have moved : ((left.erase value).map project ++ (right ++ [project value])).Perm
      (project value :: (left.erase value).map project ++ right) := by
    rw [← List.append_assoc]
    exact List.perm_append_singleton _ _
  have restored := (List.perm_cons_erase member).symm.map project
  exact moved.trans (restored.append_right right)

/-- Moving a message on keeps the two lists together the same. -/
theorem erase_append_perm {value : α} {left : List α} (member : value ∈ left)
    (right : List α) : (left.erase value ++ (right ++ [value])).Perm (left ++ right) := by
  simpa using map_erase_append_perm id member right

end EmbeddedRtps.Foundation
