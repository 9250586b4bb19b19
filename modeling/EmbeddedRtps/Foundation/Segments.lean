import Mathlib.Algebra.Order.Sub.Basic
import Mathlib.Data.List.Chain

/-!
# Pieces of a sequence

A sequence is cut into pieces that are found again in any order.  A layout says where each
piece lies and what it contains.  Pieces in a row are joined if each begins where the one
before it ends; joined pieces of a sequence make up the sequence.
-/

namespace EmbeddedRtps.Foundation

universe u v

/-- Where pieces lie in a sequence and what they contain. -/
structure Layout (Piece : Type u) (Item : Type v) where
  start : Piece → Nat
  stop : Piece → Nat
  items : Piece → List Item

namespace Layout

variable {Piece : Type u} {Item : Type v} (layout : Layout Piece Item)

/-- The pieces lead from one position to another without a hole. -/
def Joined : Nat → List Piece → Nat → Prop
  | first, [], last => first = last
  | first, piece :: rest, last =>
      layout.start piece = first ∧ Joined (layout.stop piece) rest last

/-- No piece begins before the one in front of it has ended. -/
def Ordered (pieces : List Piece) : Prop :=
  pieces.Pairwise fun piece later =>
    layout.start piece < layout.start later ∧ layout.stop piece ≤ layout.start later

/-- The piece is cut from the sequence. -/
structure CutFrom (whole : List Item) (piece : Piece) : Prop where
  start_le : layout.start piece ≤ layout.stop piece
  stop_le : layout.stop piece ≤ whole.length
  items_eq : layout.items piece =
    (whole.drop (layout.start piece)).take (layout.stop piece - layout.start piece)

variable {layout} {first middle last : Nat} {piece : Piece} {pieces before after : List Piece}
variable {whole : List Item}

theorem joined_append :
    layout.Joined first (before ++ after) last ↔
      ∃ middle, layout.Joined first before middle ∧ layout.Joined middle after last := by
  induction before generalizing first with
  | nil => exact ⟨fun joined => ⟨first, rfl, joined⟩, fun ⟨_, same, joined⟩ => same ▸ joined⟩
  | cons piece before ih =>
      simp only [List.cons_append, Joined, ih]
      constructor
      · rintro ⟨start, middle, joined, joined'⟩
        exact ⟨middle, ⟨start, joined⟩, joined'⟩
      · rintro ⟨middle, ⟨start, joined⟩, joined'⟩
        exact ⟨start, middle, joined, joined'⟩

/-- Whether pieces are joined shows at the places where they meet. -/
theorem exists_joined_iff :
    (∃ last, layout.Joined first (piece :: pieces) last) ↔ layout.start piece = first ∧
      (piece :: pieces).IsChain fun piece later => layout.stop piece = layout.start later := by
  induction pieces generalizing first piece with
  | nil =>
      exact ⟨fun ⟨_, start, _⟩ => ⟨start, .singleton _⟩, fun ⟨start, _⟩ => ⟨_, start, rfl⟩⟩
  | cons next rest ih =>
      rw [List.isChain_cons_cons]
      constructor
      · rintro ⟨last, start, joined⟩
        obtain ⟨meets, chain⟩ := ih.mp ⟨last, joined⟩
        exact ⟨start, meets.symm, chain⟩
      · rintro ⟨start, meets, chain⟩
        obtain ⟨last, joined⟩ := ih.mpr ⟨meets.symm, chain⟩
        exact ⟨last, start, joined⟩

/-- Joined pieces of a sequence contain what lies between their ends. -/
theorem Joined.flatMap_items (joined : layout.Joined first pieces last)
    (cut : ∀ piece ∈ pieces, layout.CutFrom whole piece) :
    first ≤ last ∧ pieces.flatMap layout.items = (whole.drop first).take (last - first) := by
  induction pieces generalizing first with
  | nil =>
      cases joined
      simp
  | cons piece rest ih =>
      obtain ⟨rfl, joined⟩ := joined
      obtain ⟨here, there⟩ := List.forall_mem_cons.mp cut
      obtain ⟨ordered, joinedItems⟩ := ih joined there
      refine ⟨here.start_le.trans ordered, ?_⟩
      have split : last - layout.start piece =
          (layout.stop piece - layout.start piece) + (last - layout.stop piece) := by
        have := here.start_le
        omega
      rw [List.flatMap_cons, here.items_eq, joinedItems, split, List.take_add, List.drop_drop,
        Nat.add_sub_cancel' here.start_le]

theorem Joined.le (joined : layout.Joined first pieces last)
    (forwards : ∀ piece ∈ pieces, layout.start piece ≤ layout.stop piece) : first ≤ last := by
  induction pieces generalizing first with
  | nil => exact Nat.le_of_eq joined
  | cons piece rest ih =>
      obtain ⟨rfl, joined⟩ := joined
      obtain ⟨here, there⟩ := List.forall_mem_cons.mp forwards
      exact here.trans (ih joined there)

/-- No piece reaches beyond the end. -/
theorem Joined.stop_le (joined : layout.Joined first pieces last)
    (forwards : ∀ piece ∈ pieces, layout.start piece ≤ layout.stop piece)
    (member : piece ∈ pieces) : layout.stop piece ≤ last := by
  obtain ⟨before, after, rfl⟩ := List.append_of_mem member
  obtain ⟨middle, -, -, joined⟩ := joined_append.mp joined
  exact joined.le fun other member =>
    forwards other (List.mem_append_right _ (List.mem_cons_of_mem _ member))

/-- Joined pieces leave nothing out. -/
theorem Joined.exists_mem (joined : layout.Joined first pieces last) {position : Nat}
    (after : first ≤ position) (before : position < last) :
    ∃ piece ∈ pieces, layout.start piece ≤ position ∧ position < layout.stop piece := by
  induction pieces generalizing first with
  | nil =>
      cases joined
      omega
  | cons piece rest ih =>
      obtain ⟨rfl, joined⟩ := joined
      by_cases inside : position < layout.stop piece
      · exact ⟨piece, List.mem_cons_self, after, inside⟩
      · obtain ⟨other, member, found⟩ := ih joined (Nat.not_lt.mp inside)
        exact ⟨other, List.mem_cons_of_mem _ member, found⟩

/-- All pieces begin at or after the beginning. -/
theorem Joined.le_start (joined : layout.Joined first pieces last)
    (forwards : ∀ piece ∈ pieces, layout.start piece ≤ layout.stop piece)
    (member : piece ∈ pieces) : first ≤ layout.start piece := by
  obtain ⟨before, after, rfl⟩ := List.append_of_mem member
  obtain ⟨middle, joined, start, -⟩ := joined_append.mp joined
  exact start ▸ joined.le fun other member =>
    forwards other (List.mem_append_left _ member)

/-- Joined pieces that are not empty are ordered. -/
theorem Joined.ordered (joined : layout.Joined first pieces last)
    (nonempty : ∀ piece ∈ pieces, layout.start piece < layout.stop piece) :
    layout.Ordered pieces := by
  induction pieces generalizing first with
  | nil => exact .nil
  | cons piece rest ih =>
      obtain ⟨-, joined⟩ := joined
      obtain ⟨here, there⟩ := List.forall_mem_cons.mp nonempty
      refine List.pairwise_cons.mpr ⟨fun later member => ?_, ih joined there⟩
      have behind := joined.le_start (fun other member => (there other member).le) member
      exact ⟨here.trans_le behind, behind⟩

/-- A joined piece reaches to the end or to another one. -/
theorem Joined.followed (joined : layout.Joined first pieces last) (member : piece ∈ pieces) :
    layout.stop piece = last ∨ ∃ next ∈ pieces, layout.start next = layout.stop piece := by
  obtain ⟨before, after, rfl⟩ := List.append_of_mem member
  obtain ⟨middle, -, -, joined⟩ := joined_append.mp joined
  cases after with
  | nil => exact .inl joined
  | cons next after => exact .inr ⟨next, by simp, joined.1⟩

/-- Ordered pieces have nothing in common. -/
theorem Ordered.eq_of_overlap {other : Piece} (ordered : layout.Ordered pieces)
    (member : piece ∈ pieces) (member' : other ∈ pieces)
    (overlap : layout.start piece < layout.stop other)
    (overlap' : layout.start other < layout.stop piece) : piece = other := by
  induction pieces with
  | nil => cases member
  | cons head rest ih =>
      obtain ⟨later, ordered⟩ := List.pairwise_cons.mp ordered
      rcases List.mem_cons.mp member with rfl | behind
      · rcases List.mem_cons.mp member' with rfl | behind'
        · rfl
        · exact absurd (later other behind').2 (Nat.not_le.mpr overlap')
      · rcases List.mem_cons.mp member' with rfl | behind'
        · exact absurd (later piece behind).2 (Nat.not_le.mpr overlap)
        · exact ih ordered behind behind'

/-- Ordered pieces of which each ends at the end or where another one begins are joined. -/
theorem Ordered.joined (ordered : layout.Ordered (piece :: pieces))
    (nonempty : ∀ other ∈ piece :: pieces, layout.start other < layout.stop other ∧
      layout.stop other ≤ last)
    (followed : ∀ other ∈ piece :: pieces, layout.stop other = last ∨
      ∃ next ∈ piece :: pieces, layout.start next = layout.stop other) :
    layout.Joined (layout.start piece) (piece :: pieces) last := by
  induction pieces generalizing piece with
  | nil =>
      refine ⟨rfl, ?_⟩
      rcases followed piece List.mem_cons_self with same | ⟨next, member, same⟩
      · exact same
      · have here := nonempty piece List.mem_cons_self
        rw [List.mem_singleton.mp member] at same
        omega
  | cons next rest ih =>
      obtain ⟨later, ordered'⟩ := List.pairwise_cons.mp ordered
      obtain ⟨here, there⟩ := List.forall_mem_cons.mp nonempty
      have behind := later next List.mem_cons_self
      have next_start : layout.start next = layout.stop piece := by
        have there' := there next List.mem_cons_self
        rcases followed piece List.mem_cons_self with same | ⟨other, member, same⟩
        · omega
        rcases List.mem_cons.mp member with rfl | member
        · omega
        rcases List.mem_cons.mp member with rfl | member
        · exact same
        · have := (List.pairwise_cons.mp ordered').1 other member
          omega
      refine ⟨rfl, next_start ▸ ih ordered' there fun other member => ?_⟩
      refine (followed other (List.mem_cons_of_mem _ member)).imp_right ?_
      rintro ⟨follower, member', same⟩
      rcases List.mem_cons.mp member' with rfl | member'
      · -- the first piece begins before all others
        have := (later other member).1
        have := there other member
        omega
      · exact ⟨follower, member', same⟩

end Layout

end EmbeddedRtps.Foundation
