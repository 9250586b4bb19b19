import EmbeddedRtps.Ip.Reassembly

/-!
# The fragments of a datagram

The queue of a datagram is ordered and its fragments do not overlap.  A fragment that
overlaps with none of them is put in its place.  With the last fragment known, the
datagram is finished as soon as no hole is left.
-/

namespace EmbeddedRtps.Ip

open Foundation

/-- Where the fragments in a queue belong. -/
def queued : Layout Helper UInt8 where
  start := Helper.start
  stop := Helper.stop
  items := Helper.data

/-- A queue as it is between calls. -/
structure Sound (queue : List Helper) : Prop where
  ordered : queued.Ordered queue
  forwards : ∀ helper ∈ queue, helper.start ≤ helper.stop

/-- The fragment has something in common with one in the queue. -/
def Overlaps (iprh : Helper) (queue : List Helper) : Prop :=
  ∃ helper ∈ queue, helper.start = iprh.start ∨
    iprh.start < helper.stop ∧ helper.start < iprh.stop

/-- The fragment has been put in its place. -/
structure Inserted (iprh : Helper) (old front next queue : List Helper) : Prop where
  old_eq : old = front ++ next
  queue_eq : queue = front ++ iprh :: next
  behind : ∀ helper ∈ front, helper.start < iprh.start ∧ helper.stop ≤ iprh.start
  ahead : ∀ helper ∈ next, iprh.start < helper.start ∧ iprh.stop ≤ helper.start

/-- Each begins where the one before it ends. -/
def Meeting (queue : List Helper) : Prop :=
  queue.IsChain fun helper later => helper.stop = later.start

section Place

variable {iprh : Helper} {prev : Option Helper} {valid : Bool} {rest : List Helper}

theorem meeting_iff_follows {helper : Helper} :
    Meeting (prev.toList ++ helper :: rest) ↔
      follows prev helper = true ∧ Meeting (helper :: rest) := by
  cases prev with
  | none => simp [follows]
  | some prev => simp [follows, Meeting, List.isChain_cons_cons]

theorem valid_and_follows {helper : Helper} :
    (valid && follows prev helper) = true ↔
      valid = true ∧ Meeting (prev.toList ++ [helper]) := by
  rw [Bool.and_eq_true, meeting_iff_follows]
  exact and_congr_right fun _ => (and_iff_left (.singleton _)).symm

/-- The loop finds the place of a fragment, or another one that it overlaps with. -/
theorem placeLoop_spec (prev : Option Helper) (valid : Bool) (sound : Sound rest)
    (forwards : iprh.start ≤ iprh.stop)
    (passed : ∀ helper ∈ prev, helper.start < iprh.start ∧ helper.stop ≤ iprh.start) :
    (placeLoop iprh prev valid rest = .dropped ∧ Overlaps iprh rest) ∨
      ∃ front next queue valid', placeLoop iprh prev valid rest = .found queue next valid' ∧
        Inserted iprh rest front next queue ∧
        (valid' = true ↔ valid = true ∧ Meeting (prev.toList ++ (front ++ [iprh]))) := by
  have notBefore : (prev.any fun prev => iprh.start < prev.stop) = false := by
    rw [Option.any_eq_false]
    intro helper member
    have := passed helper member
    simpa using this.2
  induction rest generalizing prev valid with
  | nil =>
      rw [placeLoop, notBefore, if_neg Bool.false_ne_true]
      exact .inr ⟨[], [], [iprh], _, rfl, ⟨rfl, rfl, nofun, nofun⟩, valid_and_follows⟩
  | cons tmp rest ih =>
      obtain ⟨later, ordered⟩ := List.pairwise_cons.mp sound.ordered
      obtain ⟨forwardsHere, forwardsThere⟩ := List.forall_mem_cons.mp sound.forwards
      rw [placeLoop]
      by_cases inFront : iprh.start < tmp.start
      · rw [if_pos inFront, notBefore, Bool.false_or]
        by_cases common : tmp.start < iprh.stop
        · rw [if_pos (decide_eq_true common)]
          exact .inl ⟨rfl, tmp, List.mem_cons_self, .inr ⟨by omega, common⟩⟩
        · rw [if_neg (by simpa using common)]
          refine .inr ⟨[], tmp :: rest, _, _, rfl, ⟨rfl, rfl, nofun, ?_⟩, valid_and_follows⟩
          refine List.forall_mem_cons.mpr ⟨⟨inFront, Nat.not_lt.mp common⟩, ?_⟩
          intro helper member
          have behind : tmp.start < helper.start := (later helper member).1
          omega
      · rw [if_neg inFront]
        by_cases twice : iprh.start = tmp.start
        · rw [if_pos twice]
          exact .inl ⟨rfl, tmp, List.mem_cons_self, .inl twice.symm⟩
        · rw [if_neg twice]
          by_cases common : iprh.start < tmp.stop
          · rw [if_pos common]
            exact .inl ⟨rfl, tmp, List.mem_cons_self, .inr ⟨common, by omega⟩⟩
          · -- the fragment belongs behind this one
            rw [if_neg common]
            have behind : ∀ helper ∈ some tmp,
                helper.start < iprh.start ∧ helper.stop ≤ iprh.start := by
              rintro helper ⟨⟩
              omega
            have notBefore' :
                ((some tmp).any fun prev => decide (iprh.start < prev.stop)) = false := by
              simpa using common
            rcases ih (some tmp) _ ⟨ordered, forwardsThere⟩ behind notBefore' with
              ⟨dropped, helper, member, overlap⟩ |
                ⟨front, next, queue, valid', found, inserted, valid_iff⟩
            · rw [dropped]
              exact .inl ⟨rfl, helper, List.mem_cons_of_mem _ member, overlap⟩
            · rw [found]
              refine .inr ⟨tmp :: front, next, tmp :: queue, valid', rfl, ⟨?_, ?_, ?_,
                inserted.ahead⟩, ?_⟩
              · rw [inserted.old_eq, List.cons_append]
              · rw [inserted.queue_eq, List.cons_append]
              · exact List.forall_mem_cons.mpr ⟨behind tmp rfl, inserted.behind⟩
              · rw [valid_iff, Bool.and_eq_true, and_assoc, List.cons_append,
                  meeting_iff_follows]
                rfl

theorem noHoles_iff {helper : Helper} :
    noHoles helper rest = true ↔ Meeting (helper :: rest) := by
  induction rest generalizing helper with
  | nil => exact ⟨fun _ => .singleton _, fun _ => rfl⟩
  | cons next rest ih =>
      rw [noHoles, Meeting, List.isChain_cons_cons]
      split
      next hole => exact ⟨nofun, fun meeting => absurd meeting.1 hole⟩
      next meets => exact ih.trans (and_iff_right (not_not.mp meets)).symm

/-- A queue stays in order. -/
theorem Inserted.sound {front next queue : List Helper}
    (inserted : Inserted iprh rest front next queue) (sound : Sound rest)
    (forwards : iprh.start ≤ iprh.stop) : Sound queue := by
  obtain ⟨rfl, rfl, behind, ahead⟩ := inserted
  obtain ⟨orderedFront, orderedNext, apart⟩ := List.pairwise_append.mp sound.ordered
  obtain ⟨forwardsFront, forwardsNext⟩ := List.forall_mem_append.mp sound.forwards
  refine ⟨List.pairwise_append.mpr ⟨orderedFront, List.pairwise_cons.mpr
    ⟨ahead, orderedNext⟩, fun helper member other member' => ?_⟩, ?_⟩
  · rcases List.mem_cons.mp member' with rfl | member'
    · exact behind helper member
    · exact apart helper member other member'
  · exact List.forall_mem_append.mpr
      ⟨forwardsFront, List.forall_mem_cons.mpr ⟨forwards, forwardsNext⟩⟩

end Place

/-! ## Fragments -/

/-- A fragment as `ip4_input` passes it on, and the `u16_t` that `pbuf_clen` returns for it:
it is not a whole datagram, and nothing follows its data. -/
structure Received (packet : Packet) (clen : Nat) : Prop where
  fragment : packet.mf = true ∨ packet.offset ≠ 0
  offset_lt : packet.offset < 2 ^ 13
  len_lt : packet.len < 2 ^ 16
  trimmed : packet.data.length = packet.len - packet.hlBytes
  clen_lt : clen < 2 ^ 16

instance (packet : Packet) (clen : Nat) : Decidable (Received packet clen) :=
  decidable_of_iff
    ((packet.mf = true ∨ packet.offset ≠ 0) ∧ packet.offset < 2 ^ 13 ∧
      packet.len < 2 ^ 16 ∧ packet.data.length = packet.len - packet.hlBytes ∧
      clen < 2 ^ 16)
    ⟨fun ⟨fragment, offset, len, trimmed, clen⟩ => ⟨fragment, offset, len, trimmed, clen⟩,
      fun ⟨fragment, offset, len, trimmed, clen⟩ => ⟨fragment, offset, len, trimmed, clen⟩⟩

/-- What a fragment becomes in the queue. -/
def Packet.helper (packet : Packet) (clen : Nat) : Helper :=
  ⟨packet.offset * 8, packet.offset * 8 + packet.data.length, packet.data, clen⟩

/-- All fragments are there. -/
def Complete (ipr : Reassdata) (packet : Packet) (queue : List Helper) : Prop :=
  (packet.mf = false ∨ ipr.lastFrag = true) ∧ ∃ last, queued.Joined 0 queue last

theorem joined_iff_meeting {iprh : Helper} {front next : List Helper} :
    (∃ last, queued.Joined 0 (front ++ iprh :: next) last) ↔
      Meeting (front ++ [iprh]) ∧
        ((front ++ iprh :: next).head?.any fun first => first.start = 0) = true ∧
        Meeting (iprh :: next) := by
  have split : Meeting (front ++ iprh :: next) ↔
      Meeting (front ++ [iprh]) ∧ Meeting (iprh :: next) := List.isChain_split
  obtain ⟨first, rest, same⟩ : ∃ first rest, front ++ iprh :: next = first :: rest := by
    cases front with
    | nil => exact ⟨_, _, rfl⟩
    | cons first rest => exact ⟨_, _, rfl⟩
  rw [same] at split ⊢
  rw [Layout.exists_joined_iff, List.head?_cons, Option.any_some, decide_eq_true_eq,
    and_left_comm, ← split]
  exact Iff.rfl

section Complete

variable {ipr : Reassdata} {packet : Packet} {clen : Nat} {front next queue : List Helper}

/-- What the validation looks at. -/
theorem complete_iff {valid : Bool}
    (inserted : Inserted (packet.helper clen) ipr.p front next queue)
    (valid_iff : valid = true ↔ Meeting (front ++ [packet.helper clen])) :
    Complete ipr packet queue ↔ (!packet.mf || ipr.lastFrag) = true ∧
      (valid && (queue.head?.any fun first => first.start = 0) &&
        noHoles (packet.helper clen) next) = true := by
  rw [Complete, inserted.queue_eq, joined_iff_meeting, Bool.or_eq_true, Bool.and_eq_true,
    Bool.and_eq_true, noHoles_iff, valid_iff, and_assoc]
  simp

/-- A datagram is never complete with one fragment alone. -/
theorem Complete.two_le_length (complete : Complete ipr packet queue)
    (inserted : Inserted (packet.helper clen) ipr.p front next queue)
    (known : ipr.lastFrag = true → ipr.p ≠ []) (received : Received packet clen) :
    2 ≤ queue.length := by
  by_contra short
  rw [inserted.queue_eq, List.length_append, List.length_cons] at short
  have noFront : front = [] := List.eq_nil_of_length_eq_zero (by omega)
  have noNext : next = [] := List.eq_nil_of_length_eq_zero (by omega)
  have empty : ipr.p = [] := by rw [inserted.old_eq, noFront, noNext, List.nil_append]
  obtain ⟨last, _, joined⟩ := complete
  have alone : packet.mf = false := last.resolve_right fun last => known last empty
  rw [inserted.queue_eq, noFront] at joined
  have first : packet.offset * 8 = 0 := joined.1
  rcases received.fragment with more | behind
  · exact absurd (alone.symm.trans more) Bool.false_ne_true
  · omega

end Complete

/-- A fragment is thrown away if it is invalid or overlaps with another one.  Otherwise it
is put in its place, and the datagram is finished exactly if it is complete. -/
theorem chain_spec {ipr : Reassdata} {packet : Packet} {clen : Nat} (sound : Sound ipr.p)
    (known : ipr.lastFrag = true → ipr.p ≠ []) (received : Received packet clen) :
    (chainFragIntoDatagramAndValidate ipr packet clen (!packet.mf) = .pbufDropped ∧
      (packet.len < packet.hlBytes ∨ 2 ^ 16 ≤ (packet.helper clen).stop ∨
        Overlaps (packet.helper clen) ipr.p)) ∨
      (packet.helper clen).stop < 2 ^ 16 ∧
        ∃ front next queue, Inserted (packet.helper clen) ipr.p front next queue ∧
        (chainFragIntoDatagramAndValidate ipr packet clen (!packet.mf) =
            .pbufQueued queue ∧ ¬ Complete ipr packet queue ∨
          chainFragIntoDatagramAndValidate ipr packet clen (!packet.mf) =
            .telegramFinished queue ∧ Complete ipr packet queue) := by
  rw [chainFragIntoDatagramAndValidate]
  by_cases invalid : packet.len < packet.hlBytes
  · rw [if_pos invalid]
    exact .inl ⟨rfl, .inl invalid⟩
  have offset := received.offset_lt
  have len := received.len_lt
  have stop : (packet.helper clen).stop =
      packet.offset * 8 + (packet.len - packet.hlBytes) := by
    rw [← received.trimmed]
    rfl
  rw [if_neg invalid]
  dsimp only
  by_cases wraps : (packet.offset * 8 + (packet.len - packet.hlBytes)) % 2 ^ 16 <
      packet.offset * 8
  · rw [if_pos wraps]
    exact .inl ⟨rfl, .inr (.inl (by omega))⟩
  have same : (⟨packet.offset * 8,
      (packet.offset * 8 + (packet.len - packet.hlBytes)) % 2 ^ 16, packet.data, clen⟩ :
        Helper) = packet.helper clen := by
    rw [Packet.helper, received.trimmed, Nat.mod_eq_of_lt (by omega)]
  rw [if_neg wraps, same]
  have forwards : (packet.helper clen).start ≤ (packet.helper clen).stop :=
    Nat.le_add_right _ _
  rcases placeLoop_spec none true sound forwards nofun with
    ⟨dropped, overlaps⟩ | ⟨front, next, queue, valid, found, inserted, valid_iff⟩
  · rw [dropped]
    exact .inl ⟨rfl, .inr (.inr overlaps)⟩
  rw [found]
  refine .inr ⟨by omega, front, next, queue, inserted, ?_⟩
  have complete := complete_iff inserted (valid_iff.trans (and_iff_right rfl))
  dsimp only
  by_cases last : (!packet.mf || ipr.lastFrag) = true
  · rw [if_pos last]
    by_cases valid : (valid && (queue.head?.any fun first => first.start = 0) &&
        noHoles (packet.helper clen) next) = true
    · have all := complete.mpr ⟨last, valid⟩
      have long := all.two_le_length inserted known received
      rw [if_pos valid, if_neg (Nat.not_lt.mpr long)]
      exact .inr ⟨rfl, all⟩
    · rw [if_neg valid]
      exact .inl ⟨rfl, fun all => valid (complete.mp all).2⟩
  · rw [if_neg last]
    exact .inl ⟨rfl, fun all => last (complete.mp all).1⟩

end EmbeddedRtps.Ip
