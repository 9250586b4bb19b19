import EmbeddedRtps.Buffers.Ownership

/-!
# What users see of their packets

A packet is the string of bytes in the chain from a `pbuf` on.  However packets share
their ends, linking appends one string to another, trimming takes the beginning of one,
and all other packets keep their bytes.
-/

namespace EmbeddedRtps.Buffers

open Foundation Linked

universe u

variable {Id : Type u} [DecidableEq Id] [Fintype Id] {heap after : Heap Id}
variable {held : Id → Nat} {ids tailIds : List Id} {h t p last : Id}
variable {record tail : Record Id}

/-- The bytes from a `pbuf` to the end of its chain. -/
def packet (heap : Heap Id) (p : Id) : List UInt8 :=
  bytes heap (chainOf heap p)

omit [DecidableEq Id] in
theorem packet_eq (chain : Chain Record.next heap (some p) ids) :
    packet heap p = bytes heap ids := by
  rw [packet, chainOf_eq chain]

/-- A `pbuf` that is left has the packet it had. -/
theorem Survives.packet (survives : Survives heap after) (sound : Sound after held)
    (live : (after p).isSome = true) : packet after p = packet heap p := by
  obtain ⟨chain, equal⟩ := survives.chain (sound.chain_chainOf live)
  rw [packet_eq chain, Buffers.packet, equal]

/-! ## Linking -/

theorem packet_catHeap (chain : Chain Record.next heap (some h) (ids ++ [last]))
    (chain' : Chain Record.next heap (some t) tailIds) (here : heap last = some record)
    (disjoint : ∀ id ∈ ids ++ [last], id ∉ tailIds) :
    packet (catHeap heap ids last t record tail) h = packet heap h ++ packet heap t := by
  rw [packet_eq (catHeap_chain chain chain' disjoint), packet_eq chain, packet_eq chain',
    bytes_congr fun id _ => catHeap_payload here id, bytes_append]

theorem packet_catHeap_of_not_mem (sound : Sound heap held)
    (whole : Whole heap (ids ++ [last])) (live : (heap p).isSome = true)
    (outside : p ∉ ids ++ [last]) :
    packet (catHeap heap ids last t record tail) p = packet heap p := by
  have chain := sound.chain_chainOf live
  have away := whole.chain_outside chain fun _ same => by
    cases same
    exact outside
  have chain' : Chain Record.next (catHeap heap ids last t record tail) (some p)
      (chainOf heap p) :=
    chain.frame fun id member => by rw [catHeap_of_not_mem (away id member)]
  rw [packet_eq chain', packet]
  exact bytes_congr fun id member => by rw [catHeap_of_not_mem (away id member)]

variable {cfg : Config} {state final : State Id} {event : Event Id}

/-- `pbuf_cat` and `pbuf_chain` by what they do to the memory. -/
theorem exists_catHeap (sound : Sound state.heap state.owned)
    (linking : event = .cat h t ∨ event = .chain h t)
    (permitted : Permitted cfg state event) (run : state.call cfg event = some final) :
    ∃ ids last record tail, chainOf state.heap h = ids ++ [last] ∧
      Chain Record.next state.heap (some h) (ids ++ [last]) ∧
      Chain Record.next state.heap (some t) (chainOf state.heap t) ∧
      Linkable state.heap h t ∧ state.heap last = some record ∧
      Survives (catHeap state.heap ids last t record tail) final.heap ∧
      ∀ id, (final.heap id).isSome = (state.heap id).isSome := by
  have sameLive : ∀ {ids last} {record tail : Record Id}, state.heap last = some record →
      ∀ id, (catHeap state.heap ids last t record tail id).isSome =
        (state.heap id).isSome := by
    intro ids last record tail here id
    rw [← Option.isSome_map, catHeap_payload here, Option.isSome_map]
  obtain rfl | rfl := linking
  · obtain ⟨positive, linkable⟩ := permitted
    rw [← withRef_withoutRef positive] at sound
    obtain ⟨_, found⟩ := sound.counted.live_of_held
    obtain ⟨front, last, split, chain, chain'⟩ := linkable.chains sound (by simp [found])
    obtain ⟨record, tail, here, _, made, _⟩ := pbufCat_sound sound chain chain'
      (split ▸ linkable.whole) (split ▸ linkable.disjoint) linkable.small
    rw [State.call, made] at run
    cases run
    exact ⟨front, last, record, tail, split, chain, chain', linkable, here, .refl _,
      sameLive here⟩
  · obtain ⟨room, linkable⟩ := permitted
    obtain ⟨tail, found, few⟩ := room.exists_record
    obtain ⟨front, last, split, chain, chain'⟩ := linkable.chains sound (by simp [found])
    obtain ⟨record, here, made, _⟩ := pbufChain_sound sound chain chain'
      (split ▸ linkable.whole) (split ▸ linkable.disjoint) linkable.small found few
    rw [State.call, made] at run
    cases run
    have absent : t ∉ front ++ [last] := fun member => by
      obtain ⟨_, rest, _, equal, _⟩ := chain'.of_some
      exact (split ▸ linkable.disjoint) t member (by simp [equal])
    have kept : catHeap state.heap front last t record tail t = some tail := by
      rw [catHeap_of_not_mem absent, found]
    refine ⟨front, last, record, tail, split, chain, chain', linkable, here,
      .setRef kept, fun id => ?_⟩
    by_cases same : id = t
    · subst same
      simp [found]
    · simp only [Function.update_of_ne same, sameLive here]

/-- In every run, `pbuf_cat` and `pbuf_chain` append the second packet to the first, and
no packet changes but those that begin within the first one. -/
theorem packet_of_link (reached : (machine cfg).Reaches Machine.AnyStep (.init Id) state)
    (linking : event = .cat h t ∨ event = .chain h t)
    (permitted : Permitted cfg state event) :
    ∃ final, state.call cfg event = some final ∧
      packet final.heap h = packet state.heap h ++ packet state.heap t ∧
      ∀ p, (state.heap p).isSome = true → p ∉ chainOf state.heap h →
        packet final.heap p = packet state.heap p := by
  have sound : Sound state.heap state.owned := inOrder_of_reaches reached
  obtain ⟨final, run, sound'⟩ := call_sound sound permitted
  refine ⟨final, run, ?_⟩
  obtain ⟨ids, last, record, tail, split, chain, chain', linkable, here, survives, live⟩ :=
    exists_catHeap sound linking permitted run
  constructor
  · rw [survives.packet sound' (by rw [live, linkable.live]),
      packet_catHeap chain chain' here (split ▸ linkable.disjoint)]
  · intro p alive outside
    rw [survives.packet sound' (by rw [live, alive]),
      packet_catHeap_of_not_mem sound (split ▸ linkable.whole) alive (split ▸ outside)]

theorem packet_of_link_two : ∃ state final : State (Fin 3),
    (packet state.heap 0 = [7, 7] ∧ packet state.heap 1 = [1, 2, 3]) ∧
      state.call smallConfig (.cat 0 1) = some final ∧
      packet final.heap 0 = [7, 7, 1, 2, 3] := by
  obtain ⟨state, reached, property, permitted⟩ : ∃ state : State (Fin 3),
      (machine smallConfig).Reaches Machine.AnyStep (.init (Fin 3)) state ∧
        (packet state.heap 0 = [7, 7] ∧ packet state.heap 1 = [1, 2, 3]) ∧
        Permitted smallConfig state (.cat 0 1) :=
    Machine.exists_reaches_of_exec (twoPbufs.take 2) (by decide +kernel)
  obtain ⟨final, run, appended, _⟩ := packet_of_link reached (.inl rfl) permitted
  rw [property.1, property.2] at appended
  exact ⟨state, final, property, run, appended⟩

/-! ## Trimming -/

omit [Fintype Id] in
/-- A chain that does not run into the part that is kept. -/
theorem chain_cutHeap {newLen shrink remLen : Nat} {front rest : List Id} {q : Id}
    (cut : Cut heap ids newLen shrink front q rest record remLen)
    (chain : Chain Record.next heap (some p) ids) (whole : Whole heap ids)
    {others : List Id} (other : Chain Record.next heap (some h) others)
    (outside : h ∉ front ++ [q]) :
    Chain Record.next (cutHeap heap front q record shrink remLen) (some h) others ∧
      bytes (cutHeap heap front q record shrink remLen) others = bytes heap others := by
  have split := cut.ids_eq
  have away := ((split ▸ whole).front (split ▸ chain)).chain_outside other fun _ same => by
    cases same
    exact outside
  exact ⟨other.frame fun id member => by rw [cutHeap_of_not_mem (away id member)],
    bytes_congr fun id member => by rw [cutHeap_of_not_mem (away id member)]⟩

section Trimmed

variable {newLen shrink remLen : Nat} {front rest : List Id} {q : Id}
variable (cut : Cut heap ids newLen shrink front q rest record remLen)
variable (trimmed : Trimmed heap after held front q rest record shrink remLen)
variable (chain : Chain Record.next heap (some p) ids)

include cut trimmed chain

/-- The chain ends at the cut. -/
theorem Trimmed.chain_kept : Chain Record.next after (some p) (front ++ [q]) := by
  have disjoint := (cut.chain_rest chain).2
  exact (cut.chain_kept chain).frame fun id member => by
    rw [trimmed.untouched id (disjoint id member)]

theorem Trimmed.packet_eq : packet after p = (packet heap p).take newLen := by
  have disjoint := (cut.chain_rest chain).2
  rw [Buffers.packet_eq (trimmed.chain_kept cut chain), Buffers.packet_eq chain,
    ← cut.bytes_eq chain]
  exact bytes_congr fun id member => by rw [trimmed.untouched id (disjoint id member)]

/-- A `pbuf` elsewhere, or of the rest, keeps its chain and its bytes. -/
theorem Trimmed.chainOf_eq (sound : Sound heap held) (whole : Whole heap ids)
    (live : (after h).isSome = true) (outside : h ∉ front ++ [q]) :
    chainOf after h = chainOf heap h ∧ packet after h = packet heap h := by
  obtain ⟨_, here⟩ := Option.isSome_iff_exists.mp live
  obtain ⟨before, found, _⟩ := trimmed.survives h _ here
  rw [cutHeap_of_not_mem outside] at found
  have old := sound.chain_chainOf (show (heap h).isSome = true by simp [found])
  obtain ⟨same, equal⟩ := chain_cutHeap cut chain whole old outside
  have left := trimmed.survives.chain (trimmed.sound.chain_chainOf live)
  refine ⟨left.1.unique same, ?_⟩
  rw [trimmed.survives.packet trimmed.sound live, Buffers.packet_eq same, equal, packet]

/-- Of the rest that is left which a user holds a reference to, with what comes after
it. -/
theorem Trimmed.isSome_iff (sound : Sound heap held) (whole : Whole heap ids) {id : Id}
    (member : id ∈ rest) :
    (after id).isSome = true ↔
      ∃ holder ∈ rest, 0 < held holder ∧ id ∈ chainOf heap holder := by
  have disjoint := (cut.chain_rest chain).2
  have kept := trimmed.chain_kept cut chain
  constructor
  · intro live
    obtain ⟨_, found⟩ := Option.isSome_iff_exists.mp live
    obtain ⟨holder, others, positive, chain', passes⟩ :=
      trimmed.sound.counted.exists_holder trimmed.sound.grounded found
    have holderLive : (after holder).isSome = true := by
      obtain ⟨_, _, here, _⟩ := chain'.of_some
      simp [here]
    -- what is kept does not lead to the rest
    have outside : holder ∉ front ++ [q] := by
      intro inside
      obtain ⟨before, tail, equal, chain''⟩ := kept.split inside
      rw [chain''.unique chain'] at equal
      exact disjoint id (equal ▸ List.mem_append_right _ passes) member
    have same := (trimmed.chainOf_eq cut chain sound whole holderLive outside).1
    rw [← Buffers.chainOf_eq chain', same] at passes
    refine ⟨holder, ?_, positive, passes⟩
    -- nor does what is elsewhere
    have inside : holder ∈ ids := by
      by_contra away
      have old := sound.chain_chainOf (p := holder) ?_
      · exact whole.chain_outside old (fun _ same => by cases same; exact away) id passes
          (by simp [cut.ids_eq, member])
      · obtain ⟨_, here⟩ := Option.isSome_iff_exists.mp holderLive
        obtain ⟨before, found', _⟩ := trimmed.survives holder _ here
        rw [cutHeap_of_not_mem outside] at found'
        simp [found']
    rw [cut.ids_eq, List.append_cons] at inside
    exact (List.mem_append.mp inside).resolve_left outside
  · rintro ⟨holder, inRest, positive, passes⟩
    obtain ⟨_, here⟩ := trimmed.sound.counted.live_of_pos (Nat.add_pos_left positive _)
    have live : (after holder).isSome = true := by simp [here]
    have outside : holder ∉ front ++ [q] := fun inside => disjoint holder inside inRest
    rw [← (trimmed.chainOf_eq cut chain sound whole live outside).1] at passes
    obtain ⟨_, found⟩ := (trimmed.sound.chain_chainOf live).live passes
    simp [found]

end Trimmed

/-- In every run, `pbuf_realloc` keeps the first `newLen` bytes of a packet.  Its chain
ends with the `pbuf` that has the last of them, the rest loses the reference of the
chain, and what users do not hold of it is deallocated.  What else is left has the packet
it had. -/
theorem packet_of_realloc
    (reached : (machine cfg).Reaches Machine.AnyStep (.init Id) state) {newLen : UInt16}
    (permitted : Permitted cfg state (.realloc p newLen)) :
    ∃ final rest, state.call cfg (.realloc p newLen) = some final ∧
      packet final.heap p = (packet state.heap p).take newLen.toNat ∧
      chainOf state.heap p = chainOf final.heap p ++ rest ∧
      (newLen.toNat < (packet state.heap p).length →
        ∀ front last, chainOf final.heap p = front ++ [last] →
          front = [] ∨ (bytes state.heap front).length < newLen.toNat) ∧
      (∀ first ∈ rest.head?, counter Record.ref state.heap first =
        counter Record.ref final.heap first + 1) ∧
      (∀ id ∈ rest, (final.heap id).isSome = true ↔
        ∃ holder ∈ rest, 0 < state.owned holder ∧ id ∈ chainOf state.heap holder) ∧
      ∀ other, (final.heap other).isSome = true → other ∉ chainOf final.heap p →
        packet final.heap other = packet state.heap other := by
  have sound : Sound state.heap state.owned := inOrder_of_reaches reached
  obtain ⟨live, whole⟩ := permitted
  have chain := sound.chain_chainOf live
  have length := sound.measured.totLenOf_eq chain
  by_cases short : totLenOf state.heap (some p) ≤ newLen.toNat
  · obtain ⟨record, _, found, _, _⟩ := chain.of_some
    have unchanged := pbufRealloc_of_le found short
    rw [length] at short
    refine ⟨state, [], by rw [State.call, unchanged]; rfl, ?_, ?_,
      fun long => absurd short (Nat.not_le.mpr long),
      fun _ first => absurd first (Option.not_mem_none _), List.forall_mem_nil _,
      fun _ _ _ => rfl⟩
    · exact (List.take_of_length_le short).symm
    · rw [List.append_nil]
  · obtain ⟨after, front, q, rest, record, remLen, shrink, made, cut, trimmed⟩ :=
      pbufRealloc_cut sound chain whole (Nat.lt_of_not_le short)
    have kept := chainOf_eq (trimmed.chain_kept cut chain)
    refine ⟨⟨after, state.owned⟩, rest, by rw [State.call, made]; rfl,
      trimmed.packet_eq cut chain, ?_, ?_, trimmed.released,
      fun id => trimmed.isSome_iff cut chain sound whole, ?_⟩
    · rw [kept, cut.ids_eq, List.append_cons]
    · intro _ front' last equal
      rw [kept] at equal
      obtain ⟨rfl, _⟩ := List.append_inj' equal rfl
      have total := cut.newLen_eq
      exact cut.needed.imp_right fun positive => by omega
    · intro other alive outside
      rw [kept] at outside
      exact (trimmed.chainOf_eq cut chain sound whole alive outside).2

/-- The cut is in the first `pbuf`; the second is left, as there is another reference to
it. -/
theorem packet_of_realloc_two : ∃ state final : State (Fin 3),
    (packet state.heap 0 = [7, 7, 1, 2, 3] ∧ 0 < state.owned 1) ∧
      state.call smallConfig (.realloc 0 1) = some final ∧
      packet final.heap 0 = [7] ∧ packet final.heap 1 = [1, 2, 3] := by
  obtain ⟨state, reached, property, permitted⟩ : ∃ state : State (Fin 3),
      (machine smallConfig).Reaches Machine.AnyStep (.init (Fin 3)) state ∧
        ((packet state.heap 0 = [7, 7, 1, 2, 3] ∧ 0 < state.owned 1) ∧
          packet state.heap 1 = [1, 2, 3] ∧ chainOf state.heap 0 = [0, 1] ∧
          chainOf state.heap 1 = [1] ∧
          (state.call smallConfig (.realloc 0 1)).map (chainOf ·.heap 0) = some [0]) ∧
        Permitted smallConfig state (.realloc 0 1) :=
    Machine.exists_reaches_of_exec twoPbufs (by decide +kernel)
  obtain ⟨final, rest, run, kept, split, _, _, left, others⟩ :=
    packet_of_realloc reached permitted
  obtain ⟨⟨first, held⟩, second, chain, own, cut⟩ := property
  obtain ⟨_, run', cut⟩ := Option.map_eq_some_iff.mp cut
  cases run.symm.trans run'
  obtain rfl : [1] = rest := by simpa [chain, cut] using split
  have live := (left 1 (by simp)).mpr ⟨1, by simp, held, by simp [own]⟩
  refine ⟨state, final, ⟨first, held⟩, run, ?_, ?_⟩
  · rw [kept, first]
    rfl
  · rw [others 1 live (by simp [cut]), second]

/-! ## Allocation -/

/-- In every run, `pbuf_alloc` for `PBUF_POOL` gives a packet of the length asked for if
there are enough `pbuf`s in the pool, all of them new, without touching anything else, and
otherwise leaves everything as it was. -/
theorem packet_of_allocPool
    (reached : (machine cfg).Reaches Machine.AnyStep (.init Id) state)
    {memory : Id → Nat → UInt8} {offset length : UInt16} {pool : List Id}
    (permitted : Permitted cfg state (.allocPool memory offset length pool)) :
    ∃ final, state.call cfg (.allocPool memory offset length pool) = some final ∧
      if pool ≠ [] ∧ cfg.memAlignSize offset.toNat + length.toNat ≤
          pool.length * cfg.poolBufsizeAligned then
        ∃ p, state.heap p = none ∧ final.owned = withRef state.owned (some p) ∧
          (packet final.heap p).length = length.toNat ∧
          (∀ id ∈ chainOf final.heap p, state.heap id = none) ∧
          ∀ id, id ∉ chainOf final.heap p → final.heap id = state.heap id
      else
        final = state := by
  have sound : Sound state.heap state.owned := inOrder_of_reaches reached
  obtain ⟨fits, narrow, nodup, fresh⟩ := permitted
  obtain ⟨result, made, allocated⟩ := pbufAllocPool_spec sound fits narrow nodup fresh
  refine ⟨⟨result.1, withRef state.owned result.2⟩, by rw [State.call, made]; rfl, ?_⟩
  obtain ⟨little, rfl⟩ | ⟨enough, p, ids, place, chain, unused, outside, sound', total⟩ :=
    allocated
  · rw [if_neg little]
    simp
  · rw [if_pos enough]
    obtain ⟨_, _, _, equal, _⟩ := chain.of_some
    refine ⟨p, unused p (by simp [equal]), by simp [place], ?_, ?_, ?_⟩
    · rw [packet_eq chain, ← sound'.measured.totLenOf_eq chain, total]
    · rwa [chainOf_eq chain]
    · rwa [chainOf_eq chain]

/-- Two `pbuf`s are enough for twelve bytes, and not for eighteen. -/
theorem packet_of_allocPool_two : ∃ state more same : State (Fin 3),
    packet state.heap 0 = [7, 7] ∧
      (∃ p, state.heap p = none ∧ (packet more.heap p).length = 12) ∧
      more.heap 0 = state.heap 0 ∧ same = state := by
  obtain ⟨state, reached, property, enough, little⟩ : ∃ state : State (Fin 3),
      (machine smallConfig).Reaches Machine.AnyStep (.init (Fin 3)) state ∧
        (packet state.heap 0 = [7, 7] ∧ (state.heap 0).isSome = true) ∧
        Permitted smallConfig state (.allocPool (fun _ _ => 0) 2 12 [1, 2]) ∧
        Permitted smallConfig state (.allocPool (fun _ _ => 0) 2 18 [1, 2]) :=
    Machine.exists_reaches_of_exec (twoPbufs.take 1) (by decide +kernel)
  obtain ⟨more, _, allocated⟩ := packet_of_allocPool reached enough
  obtain ⟨same, _, unchanged⟩ := packet_of_allocPool reached little
  rw [if_neg (by decide)] at unchanged
  rw [if_pos (by decide)] at allocated
  obtain ⟨p, fresh, _, length, new, outside⟩ := allocated
  have untouched : more.heap 0 = state.heap 0 := by
    refine outside 0 fun member => ?_
    rw [new 0 member] at property
    cases property.2
  exact ⟨state, more, same, property.1, ⟨p, fresh, length⟩, untouched, unchanged⟩

end EmbeddedRtps.Buffers
