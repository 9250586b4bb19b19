import EmbeddedRtps.Buffers.Linking

/-!
# Trimming chains

`pbuf_realloc` cuts a chain to a length: it walks over the `pbuf`s that are kept, cuts
the payload of the last one and frees the others.  `pbuf_add_header` and
`pbuf_remove_header` move the beginning of the payload.
-/

namespace EmbeddedRtps.Buffers

open Foundation Linked

universe u

variable {Id : Type u} {heap : Heap Id} {id p q : Id}
variable {record : Record Id} {start : Option Id} {ids : List Id}

/-! ## The walk of `pbuf_realloc` -/

/-- Where the loop stops: `q` keeps `remLen` bytes of its payload. -/
structure Cut (heap : Heap Id) (ids : List Id) (newLen shrink : Nat) (front : List Id)
    (q : Id) (rest : List Id) (record : Record Id) (remLen : Nat) : Prop where
  ids_eq : ids = front ++ q :: rest
  found : heap q = some record
  remLen_le : remLen ≤ record.len
  totLen_eq : record.totLen = remLen + shrink
  totLen_ge : ∀ id ∈ front, ∀ before, heap id = some before → shrink ≤ before.totLen
  newLen_eq : (bytes heap front).length + remLen = newLen
  /-- No `pbuf` is kept for none of its bytes but the first one. -/
  needed : front = [] ∨ 0 < remLen

/-- A `pbuf` before that is kept as a whole. -/
theorem Cut.cons {newLen shrink remLen : Nat} {front rest : List Id} {last : Record Id}
    (cut : Cut heap ids (newLen - record.len) shrink front q rest last remLen)
    (found : heap p = some record) (enough : shrink ≤ record.totLen)
    (long : record.len < newLen) :
    Cut heap (p :: ids) newLen shrink (p :: front) q rest last remLen where
  ids_eq := congrArg (p :: ·) cut.ids_eq
  found := cut.found
  remLen_le := cut.remLen_le
  totLen_eq := cut.totLen_eq
  totLen_ge id member before found' := by
    rcases List.mem_cons.mp member with rfl | member
    · cases found.symm.trans found'
      exact enough
    · exact cut.totLen_ge id member before found'
  newLen_eq := by
    have remaining := cut.newLen_eq
    simp only [bytes, List.flatMap_cons, found, Option.elim_some, List.length_append,
      Record.len] at remaining long ⊢
    omega
  needed := by
    refine .inr (cut.needed.elim (fun first => ?_) id)
    have remaining := cut.newLen_eq
    rw [first] at remaining
    simp only [bytes, List.flatMap_nil, List.length_nil] at remaining
    omega

variable [DecidableEq Id]

/-- The loop works on a memory that differs from the one before the call in `pbuf`s it
has passed. -/
theorem reallocLoop_eq {current : Heap Id} {fuel newLen shrink : Nat}
    (measured : Measured heap) (chain : Chain Record.next heap (some p) ids)
    (agree : ∀ id ∈ ids, current id = heap id)
    (total : totLenOf heap (some p) = newLen + shrink) (enough : ids.length ≤ fuel) :
    ∃ front q rest record remLen, Cut heap ids newLen shrink front q rest record remLen ∧
      reallocLoop shrink fuel current (some p) newLen =
        some (adjust current front (·.subTotLen shrink), q, remLen) := by
  induction ids generalizing current p fuel newLen with
  | nil =>
      obtain ⟨_, _, _, impossible, _⟩ := chain.of_some
      cases impossible
  | cons first rest ih =>
      obtain ⟨fuel, rfl⟩ := Nat.exists_eq_succ_of_ne_zero (Nat.ne_zero_of_lt enough)
      have fresh := (List.nodup_cons.mp chain.nodup).1
      obtain ⟨same, record, found, chain'⟩ := chain.of_cons
      cases same
      have here : current first = some record := by
        rw [agree first List.mem_cons_self, found]
      rw [totLenOf_some found] at total
      by_cases long : record.len < newLen
      · have sum := measured.totLen_eq first record found
        cases next : record.next with
        | none =>
            rw [next, totLenOf_none] at sum
            omega
        | some following =>
            rw [next] at sum chain'
            have agree' : ∀ id ∈ rest,
                Function.update current first (some (record.subTotLen shrink)) id =
                  heap id := by
              intro id member
              rw [Function.update_of_ne (ne_of_mem_of_not_mem member fresh),
                agree id (List.mem_cons_of_mem first member)]
            have total' : totLenOf heap (some following) =
                newLen - record.len + shrink := by
              omega
            obtain ⟨front, q, tail, last, remLen, cut, run⟩ :=
              ih chain' agree' total' (Nat.le_of_succ_le_succ enough)
            have absent : first ∉ front := fun member =>
              fresh (cut.ids_eq ▸ List.mem_append_left _ member)
            refine ⟨first :: front, q, tail, last, remLen,
              cut.cons found (by omega) long, ?_⟩
            simp only [reallocLoop, here, if_pos long, next, run]
            exact congrArg (fun heap => some (heap, q, remLen)) (adjust_cons here absent)
      · refine ⟨[], first, rest, record, newLen,
          ⟨rfl, found, Nat.le_of_not_lt long, total, by simp, by simp [bytes], .inl rfl⟩, ?_⟩
        simp [reallocLoop, here, long]

/-! ## The cut -/

variable {newLen shrink remLen : Nat} {front rest : List Id} {held : Id → Nat}

/-- The last `pbuf` that is kept. -/
def Record.cutTo (record : Record Id) (remLen : Nat) : Record Id :=
  { record with payload := record.payload.take remLen, totLen := remLen, next := none }

/-- The memory after the walk, when `q` has been cut off from the others. -/
def cutHeap (heap : Heap Id) (front : List Id) (q : Id) (record : Record Id)
    (shrink remLen : Nat) : Heap Id :=
  Function.update (adjust heap front (·.subTotLen shrink)) q (some (record.cutTo remLen))

theorem cutHeap_self :
    cutHeap heap front q record shrink remLen q = some (record.cutTo remLen) :=
  Function.update_self _ _ _

theorem cutHeap_of_mem (fresh : q ∉ front) (member : id ∈ front) :
    cutHeap heap front q record shrink remLen id = (heap id).map (·.subTotLen shrink) := by
  rw [cutHeap, Function.update_of_ne (ne_of_mem_of_not_mem member fresh),
    adjust_of_mem member]

theorem cutHeap_of_not_mem (outside : id ∉ front ++ [q]) :
    cutHeap heap front q record shrink remLen id = heap id := by
  obtain ⟨absent, different⟩ := not_or.mp (mt List.mem_append.mpr outside)
  rw [cutHeap, Function.update_of_ne (mt List.mem_singleton.mpr different),
    adjust_of_not_mem absent]

section Cut

variable (cut : Cut heap ids newLen shrink front q rest record remLen)
  (chain : Chain Record.next heap (some p) ids)

include cut chain

omit [DecidableEq Id] in
theorem Cut.not_mem_front : q ∉ front := by
  rw [cut.ids_eq] at chain
  exact fun member => (List.nodup_append.mp chain.nodup).2.2 q member q
    List.mem_cons_self rfl

/-- The chain that is kept. -/
theorem Cut.chain_kept :
    Chain Record.next (cutHeap heap front q record shrink remLen) (some p)
      (front ++ [q]) := by
  have fresh := cut.not_mem_front chain
  rw [cut.ids_eq] at chain
  refine chain.redirect (fun current member => ?_) cutHeap_self .nil
  rw [cutHeap_of_mem fresh member, Option.map_map]
  rfl

theorem Cut.bytes_eq :
    bytes (cutHeap heap front q record shrink remLen) (front ++ [q]) =
      (bytes heap ids).take newLen := by
  have fresh := cut.not_mem_front chain
  have kept : bytes (cutHeap heap front q record shrink remLen) front = bytes heap front := by
    refine bytes_congr fun current member => ?_
    rw [cutHeap_of_mem fresh member, Option.map_map]
    rfl
  have whole : bytes heap ids = bytes heap front ++ (record.payload ++ bytes heap rest) := by
    rw [cut.ids_eq]
    simp [bytes, cut.found]
  have fits := cut.remLen_le
  rw [whole, ← cut.newLen_eq, List.take_length_add_append,
    List.take_append_of_le_length fits, ← kept]
  simp [bytes, cutHeap_self, Record.cutTo]

/-- The lengths up to the cut shrink by the same amount. -/
theorem Cut.totLen_add {before : Record Id}
    (member : id ∈ front ++ [q]) (found : heap id = some before) :
    totLenOf (cutHeap heap front q record shrink remLen) (some id) + shrink =
      before.totLen := by
  rcases List.mem_append.mp member with inner | final
  · have changed : cutHeap heap front q record shrink remLen id =
        some (before.subTotLen shrink) := by
      rw [cutHeap_of_mem (cut.not_mem_front chain) inner, found, Option.map_some]
    have enough := cut.totLen_ge id inner before found
    rw [totLenOf_some changed, totLen_subTotLen before shrink enough]
    omega
  · obtain rfl := List.mem_singleton.mp final
    cases cut.found.symm.trans found
    rw [totLenOf_some cutHeap_self, cut.totLen_eq]
    rfl

theorem Cut.measured (measured : Measured heap) (whole : Whole heap ids) :
    Measured (cutHeap heap front q record shrink remLen) := by
  have fresh := cut.not_mem_front chain
  have kept := cut.chain_kept chain
  have split := cut.ids_eq
  refine measured.of_whole ((split ▸ whole).front (split ▸ chain))
    (fun id => cutHeap_of_not_mem) ?_
  intro id member after changed
  rcases List.mem_append.mp member with inner | final
  · obtain ⟨before, found⟩ := chain.live (split ▸ List.mem_append_left _ inner)
    obtain ⟨target, member', linked⟩ := exists_next kept inner changed
    have own := cut.totLen_add chain member found
    rw [totLenOf_some changed] at own
    have equal := changed
    rw [cutHeap_of_mem fresh inner, found, Option.map_some] at equal
    cases equal
    have inside : target ∈ ids := by
      rw [split]
      simp only [List.mem_append, List.mem_cons, List.not_mem_nil, or_false] at member' ⊢
      tauto
    obtain ⟨following, found'⟩ := chain.live inside
    have other := cut.totLen_add chain member' found'
    have total := measured.totLen_eq id before found
    rw [next_subTotLen] at linked
    rw [linked, totLenOf_some found'] at total
    have small := measured.totLen_lt id before found
    rw [next_subTotLen, linked, len_subTotLen]
    exact ⟨by omega, by omega, measured.ref_lt id before found⟩
  · obtain rfl := List.mem_singleton.mp final
    rw [cutHeap_self] at changed
    cases changed
    have fits := cut.remLen_le
    have small := measured.totLen_lt id record cut.found
    have total := cut.totLen_eq
    refine ⟨?_, ?_, measured.ref_lt id record cut.found⟩
    · simp only [Record.cutTo, Record.len, List.length_take, totLenOf_none] at fits ⊢
      omega
    · simp only [Record.cutTo]
      omega

end Cut

variable [Fintype Id]

/-- The cut turns the link to the others into a reference. -/
theorem Cut.sound (cut : Cut heap ids newLen shrink front q rest record remLen)
    (chain : Chain Record.next heap (some p) ids) (sound : Sound heap held)
    (whole : Whole heap ids) :
    Sound (cutHeap heap front q record shrink remLen) (withRef held record.next) := by
  have links : ∀ id, (adjust heap front (·.subTotLen shrink) id).map Record.next =
      (heap id).map Record.next := map_adjust fun record => next_subTotLen record _
  have here : adjust heap front (·.subTotLen shrink) q = some record := by
    rw [adjust_of_not_mem (cut.not_mem_front chain), cut.found]
  constructor
  · exact (sound.counted.of_same links (map_adjust fun record => rfl)).detach here rfl rfl
  · exact (sound.grounded.of_same_links links).redirect here .nil List.not_mem_nil
  · exact cut.measured chain sound.measured whole

omit [Fintype Id] in
/-- What is cut off is a chain of its own. -/
theorem Cut.chain_rest (cut : Cut heap ids newLen shrink front q rest record remLen)
    (chain : Chain Record.next heap (some p) ids) :
    Chain Record.next (cutHeap heap front q record shrink remLen) record.next rest ∧
      ∀ id ∈ front ++ [q], id ∉ rest := by
  rw [cut.ids_eq, List.append_cons] at chain
  have apart := (List.nodup_append.mp chain.nodup).2.2
  have disjoint : ∀ id ∈ front ++ [q], id ∉ rest := fun id member member' =>
    apart id member id member' rfl
  rw [← List.append_cons] at chain
  obtain ⟨_, chain⟩ := chain.drop
  obtain ⟨_, record', found, chain⟩ := chain.of_cons
  cases cut.found.symm.trans found
  refine ⟨chain.frame fun id member => ?_, disjoint⟩
  rw [cutHeap_of_not_mem fun member' => disjoint id member' member]

/-- The end of `pbuf_realloc`.  It clears `next` after the others have been freed, which
is as good as before. -/
theorem Cut.finish (cut : Cut heap ids newLen shrink front q rest record remLen)
    (chain : Chain Record.next heap (some p) ids) {next : Id}
    (linked : record.next = some next) (trimmed : Record Id)
    (same : { trimmed with next := none } = record.cutTo remLen)
    {result : Heap Id × Nat}
    (run : pbufFree (cutHeap heap front q record shrink remLen) next = some result) :
    (∀ id, id ∉ rest → result.1 id = cutHeap heap front q record shrink remLen id) ∧
      (pbufFree (Function.update (adjust heap front (·.subTotLen shrink)) q (some trimmed))
          next).map (fun result => Function.update result.1 q
            ((result.1 q).map fun last => { last with next := none })) =
        some result.1 := by
  obtain ⟨chain', disjoint⟩ := cut.chain_rest chain
  rw [linked] at chain'
  have untouched : ∀ id, id ∉ rest →
      result.1 id = cutHeap heap front q record shrink remLen id := fun id outside =>
    (freeLoop_update chain' outside none run).1
  refine ⟨untouched, ?_⟩
  obtain ⟨_, run'⟩ := freeLoop_update chain' (disjoint q (by simp)) (some trimmed) run
  rw [cutHeap, Function.update_idem] at run'
  rw [pbufFree, run', Option.map_some]
  simp only [Function.update_self, Option.map_some, same, Function.update_idem]
  rw [← cutHeap_self, ← untouched q (disjoint q (by simp)), Function.update_eq_self]

/-- The memory after a chain has been cut and the rest has been freed. -/
structure Trimmed (heap after : Heap Id) (held : Id → Nat) (front : List Id) (q : Id)
    (rest : List Id) (record : Record Id) (shrink remLen : Nat) : Prop where
  sound : Sound after held
  survives : Survives (cutHeap heap front q record shrink remLen) after
  untouched : ∀ id, id ∉ rest → after id = cutHeap heap front q record shrink remLen id
  released : ∀ first ∈ rest.head?,
    counter Record.ref heap first = counter Record.ref after first + 1

/-- `pbuf_realloc` of a packet that is too long cuts it and frees what it does not need
any more. -/
theorem pbufRealloc_cut (sound : Sound heap held)
    (chain : Chain Record.next heap (some p) ids) (whole : Whole heap ids) {newLen : Nat}
    (long : newLen < totLenOf heap (some p)) :
    ∃ after front q rest record remLen shrink, pbufRealloc heap p newLen = some after ∧
      Cut heap ids newLen shrink front q rest record remLen ∧
      Trimmed heap after held front q rest record shrink remLen := by
  obtain ⟨first, _, found, _, _⟩ := chain.of_some
  rw [totLenOf_some found] at long
  have total : totLenOf heap (some p) = newLen + (first.totLen - newLen) := by
    rw [totLenOf_some found]
    omega
  obtain ⟨front, q, rest, last, remLen, cut, run⟩ :=
    reallocLoop_eq sound.measured chain (fun _ _ => rfl) total chain.length_le
  have here : adjust heap front (·.subTotLen (first.totLen - newLen)) q = some last := by
    rw [adjust_of_not_mem (cut.not_mem_front chain), cut.found]
  have sound' := cut.sound chain sound whole
  obtain ⟨chain', disjoint⟩ := cut.chain_rest chain
  simp only [pbufRealloc, found, if_neg (Nat.not_le.mpr long), run, here]
  cases linked : last.next with
  | none =>
      rw [linked] at sound' chain'
      rw [withRef_none] at sound'
      obtain rfl := chain'.eq_nil
      refine ⟨_, front, q, [], last, remLen, _, ?_, cut, sound', .refl _, fun _ _ => rfl,
        fun _ first => absurd first (Option.not_mem_none _)⟩
      simp only [cutHeap, Record.cutTo]
  | some next =>
      rw [linked] at sound' chain'
      obtain ⟨result, free, sound'', survives⟩ := pbufFree_sound sound'
      obtain ⟨_, others, _, rfl, _⟩ := chain'.of_some
      obtain ⟨untouched, finished⟩ := cut.finish chain linked
        { last with payload := last.payload.take remLen, totLen := remLen, next := some next }
        rfl free
      refine ⟨result.1, front, q, next :: others, last, remLen, _, finished, cut, sound'',
        survives, untouched, ?_⟩
      rintro _ ⟨⟩
      have outside : next ∉ front ++ [q] := fun member =>
        disjoint next member List.mem_cons_self
      have first := freeLoop_first chain' free
      rwa [counter, cutHeap_of_not_mem outside] at first

/-- A packet that is not too long stays as it is. -/
theorem pbufRealloc_of_le (found : heap p = some record) {newLen : Nat}
    (short : totLenOf heap (some p) ≤ newLen) : pbufRealloc heap p newLen = some heap := by
  rw [totLenOf_some found] at short
  simp [pbufRealloc, found, short]

theorem pbufRealloc_sound (sound : Sound heap held)
    (chain : Chain Record.next heap (some p) ids) (whole : Whole heap ids) (newLen : Nat) :
    ∃ after, pbufRealloc heap p newLen = some after ∧ Sound after held := by
  by_cases short : totLenOf heap (some p) ≤ newLen
  · obtain ⟨record, _, found, _, _⟩ := chain.of_some
    exact ⟨heap, pbufRealloc_of_le found short, sound⟩
  · obtain ⟨after, _, _, _, _, _, _, run, _, trimmed⟩ :=
      pbufRealloc_cut sound chain whole (Nat.lt_of_not_le short)
    exact ⟨after, run, trimmed.sound⟩

/-! ## Headers -/

/-- The payload of one `pbuf` that nothing links to changes its length. -/
theorem Sound.setPayload {changed : Record Id} (sound : Sound heap held)
    (found : heap p = some record) (whole : Whole heap [p])
    (next : changed.next = record.next) (ref : changed.ref = record.ref)
    (total : changed.totLen + record.len = record.totLen + changed.len)
    (small : changed.totLen < 2 ^ 16) :
    Sound (Function.update heap p (some changed)) held := by
  have away : record.next ≠ some p := by
    intro linked
    obtain ⟨ids, chain⟩ := sound.grounded p record found
    obtain ⟨record', rest, found', rfl, chain'⟩ := chain.of_some
    cases found.symm.trans found'
    rw [linked] at chain'
    obtain ⟨_, _, _, rfl, _⟩ := chain'.of_some
    exact (List.nodup_cons.mp chain.nodup).1 List.mem_cons_self
  have before := sound.measured.totLen_eq p record found
  refine ⟨sound.counted.of_same (map_update found next) (map_update found ref),
    sound.grounded.of_same_links (map_update found next),
    sound.measured.update whole (next ▸ away) ?_ small
      (ref ▸ sound.measured.ref_lt p record found)⟩
  rw [next]
  omega

theorem pbufAddHeader_sound (sound : Sound heap held) (found : heap p = some record)
    (whole : Whole heap [p]) (increment : Nat) :
    ∃ result, pbufAddHeader heap p increment = some result ∧ Sound result.1 held := by
  have small := sound.measured.totLen_lt p record found
  simp only [pbufAddHeader, found]
  split
  next => exact ⟨_, rfl, sound⟩
  next wide =>
    split
    next => exact ⟨_, rfl, sound⟩
    next =>
      split
      next => exact ⟨_, rfl, sound⟩
      next fits =>
        split
        next => exact ⟨_, rfl, sound⟩
        next room =>
          have within := Nat.le_of_not_lt (not_or.mp room).2
          have sum : record.totLen + increment < 2 ^ 16 := by omega
          refine ⟨_, rfl, sound.setPayload found whole rfl rfl ?_ ?_⟩
          · simp only [totLen_addTotLen record increment sum, Record.len, List.length_append,
              List.length_drop]
            omega
          · simpa only [totLen_addTotLen record increment sum] using sum

theorem pbufRemoveHeader_sound (sound : Sound heap held) (found : heap p = some record)
    (whole : Whole heap [p]) {decrement : Nat} (fits : decrement ≤ record.len) :
    ∃ result, pbufRemoveHeader heap p decrement = some result ∧ Sound result.1 held := by
  have small := sound.measured.totLen_lt p record found
  have total := sound.measured.totLen_eq p record found
  simp only [pbufRemoveHeader, found]
  split
  next => exact ⟨_, rfl, sound⟩
  next =>
    split
    next => exact ⟨_, rfl, sound⟩
    next =>
      have enough : decrement ≤ record.totLen := by omega
      rw [if_neg (Nat.not_lt.mpr fits)]
      refine ⟨_, rfl, sound.setPayload found whole rfl rfl ?_ ?_⟩
      · simp only [totLen_subTotLen record decrement enough, Record.len,
          List.length_drop] at fits ⊢
        omega
      · simp only [totLen_subTotLen record decrement enough]
        omega

end EmbeddedRtps.Buffers
