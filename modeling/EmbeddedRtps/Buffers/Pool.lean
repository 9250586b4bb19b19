import EmbeddedRtps.Buffers.Linking

/-!
# Allocation from the pool

`pbuf_alloc` takes `pbuf`s from the pool until their payloads are long enough.  When the
pool is empty before that, it frees what it has taken: it allocates a packet as a whole
or leaves the memory as it was.
-/

namespace EmbeddedRtps.Buffers

open Foundation Linked

universe u

variable {Id : Type u} [DecidableEq Id] [Fintype Id] {origin heap : Heap Id}
variable {held : Id → Nat} {head last q : Id} {front : List Id} {record : Record Id}
variable {remLen length : Nat}

/-- The memory in the loop: the new `pbuf`s are a chain of their own, and what the last
one lacks in length is still to come. -/
structure Growing (origin : Heap Id) (held : Id → Nat) (length : Nat) (heap : Heap Id)
    (head last : Id) (front : List Id) (remLen : Nat) : Prop where
  chain : Chain Record.next heap (some head) (front ++ [last])
  counted : Counted Record.next Record.ref heap (withRef held (some head))
  grounded : Grounded Record.next heap
  outside : ∀ id, id ∉ front ++ [last] → heap id = origin id
  fresh : ∀ id ∈ front ++ [last], origin id = none
  exclusive : ∀ id ∈ front ++ [last], ∀ record, heap id = some record → record.ref = 1
  small : ∀ id ∈ front ++ [last], ∀ record, heap id = some record → record.totLen < 2 ^ 16
  lengths : ∀ id ∈ front, ∀ record, heap id = some record →
    record.totLen = record.len + totLenOf heap record.next
  missing : ∀ record, heap last = some record → record.totLen = record.len + remLen
  total : totLenOf heap (some head) = length

/-- The first `pbuf`. -/
theorem Growing.start (sound : Sound origin held) (fresh : origin q = none)
    (new : record.next = none ∧ record.ref = 1)
    (missing : record.totLen = record.len + remLen) (small : record.totLen < 2 ^ 16) :
    Growing origin held record.totLen (Function.update origin q (some record)) q q []
      remLen := by
  have here : Function.update origin q (some record) q = some record :=
    Function.update_self _ _ _
  have only : ∀ {property : Record Id → Prop}, property record →
      ∀ id ∈ [] ++ [q], ∀ after, Function.update origin q (some record) id = some after →
        property after := by
    intro property holds id member after found
    obtain rfl := List.mem_singleton.mp member
    cases here.symm.trans found
    exact holds
  refine ⟨.cons here (new.1 ▸ .nil), sound.counted.create fresh new.1 new.2,
    sound.grounded.create fresh new.1, ?_, ?_, only new.2, only small, by simp, ?_,
    totLenOf_some here⟩
  · intro id outside
    exact Function.update_of_ne (mt List.mem_singleton.mpr outside) _ _
  · intro id member
    obtain rfl := List.mem_singleton.mp member
    exact fresh
  · intro after found
    cases here.symm.trans found
    exact missing

/-- The memory with one more `pbuf` at the end. -/
def extended (heap : Heap Id) (last q : Id) (previous record : Record Id) : Heap Id :=
  Function.update (Function.update heap q (some record)) last
    (some { previous with next := some q })

section Extended

variable {previous : Record Id} {id : Id}

omit [Fintype Id] in
theorem linkLast_eq (found : heap last = some previous) (different : last ≠ q) :
    linkLast (Function.update heap q (some record)) (some (head, last)) q =
      extended heap last q previous record := by
  simp only [linkLast, extended, Function.update_of_ne different, found, Option.map_some]

omit [Fintype Id] in
theorem extended_new (different : last ≠ q) :
    extended heap last q previous record q = some record := by
  rw [extended, Function.update_of_ne (Ne.symm different), Function.update_self]

omit [Fintype Id] in
theorem extended_last :
    extended heap last q previous record last = some { previous with next := some q } :=
  Function.update_self _ _ _

omit [Fintype Id] in
theorem extended_of_ne (notLast : id ≠ last) (notNew : id ≠ q) :
    extended heap last q previous record id = heap id := by
  rw [extended, Function.update_of_ne notLast, Function.update_of_ne notNew]

omit [Fintype Id] in
theorem totLenOf_extended (found : heap last = some previous) (notNew : id ≠ q) :
    totLenOf (extended heap last q previous record) (some id) = totLenOf heap (some id) := by
  by_cases same : id = last
  · subst same
    rw [totLenOf_some extended_last, totLenOf_some found]
  · exact totLenOf_congr fun _ equal => by
      cases equal
      exact extended_of_ne same notNew

omit [Fintype Id] in
theorem extended_of_mem (absent : q ∉ front ++ [last]) (distinct : last ∉ front)
    (member : id ∈ front) : extended heap last q previous record id = heap id :=
  extended_of_ne (ne_of_mem_of_not_mem member distinct)
    (ne_of_mem_of_not_mem (List.mem_append_left [last] member) absent)

omit [Fintype Id] in
/-- What holds of the `pbuf`s before, of the last of them and of the new one. -/
theorem forall_extended {property : Record Id → Prop} (absent : q ∉ front ++ [last])
    (distinct : last ∉ front)
    (before : ∀ id ∈ front ++ [last], ∀ record, heap id = some record → property record)
    (atLast : property { previous with next := some q }) (atNew : property record) :
    ∀ id ∈ front ++ [last] ++ [q], ∀ after,
      extended heap last q previous record id = some after → property after := by
  have different : last ≠ q := fun same => absent (by simp [same])
  intro id member after changed
  simp only [List.mem_append, List.mem_singleton] at member
  obtain (member | rfl) | rfl := member
  · rw [extended_of_mem absent distinct member] at changed
    exact before id (List.mem_append_left [last] member) after changed
  · cases extended_last.symm.trans changed
    exact atLast
  · cases (extended_new different).symm.trans changed
    exact atNew

end Extended

theorem Growing.next_eq_none {previous : Record Id}
    (growing : Growing origin held length heap head last front remLen)
    (found : heap last = some previous) : previous.next = none := by
  obtain ⟨_, here, ended⟩ := next_last growing.chain
  cases found.symm.trans here
  exact ended

/-- What the last `pbuf` lacked is the length of the new one. -/
theorem Growing.lengths_extended {previous : Record Id}
    (growing : Growing origin held length heap head last front remLen)
    (found : heap last = some previous) (absent : q ∉ front ++ [last])
    (totLen : record.totLen = remLen) :
    ∀ id ∈ front ++ [last], ∀ after,
      extended heap last q previous record id = some after →
        after.totLen =
          after.len + totLenOf (extended heap last q previous record) after.next := by
  have different : last ≠ q := fun same => absent (by simp [same])
  intro id member after changed
  rcases List.mem_append.mp member with member | member
  · rw [extended_of_mem absent (last_not_mem growing.chain) member] at changed
    obtain ⟨target, member', linked⟩ := exists_next growing.chain member changed
    rw [linked, totLenOf_extended found (ne_of_mem_of_not_mem member' absent), ← linked]
    exact growing.lengths id member after changed
  · obtain rfl := List.mem_singleton.mp member
    cases extended_last.symm.trans changed
    simp only [totLenOf_some (extended_new different), totLen]
    exact growing.missing previous found

/-- One more `pbuf` at the end. -/
theorem Growing.extend {previous : Record Id}
    (growing : Growing origin held length heap head last front remLen)
    (found : heap last = some previous) (fresh : origin q = none)
    (absent : q ∉ front ++ [last]) (new : record.next = none ∧ record.ref = 1)
    (totLen : record.totLen = remLen) {left : Nat}
    (missing : record.totLen = record.len + left) :
    Growing origin held length (extended heap last q previous record) head q
      (front ++ [last]) left := by
  have different : last ≠ q := fun same => absent (by simp [same])
  have distinct := last_not_mem growing.chain
  have unused : heap q = none := by rw [growing.outside q absent, fresh]
  have found' : Function.update heap q (some record) last = some previous := by
    rw [Function.update_of_ne different, found]
  have single : Chain Record.next (extended heap last q previous record) (some q) [q] :=
    .cons (extended_new different) (new.1 ▸ .nil)
  have lastMember : last ∈ front ++ [last] := by simp
  constructor
  case chain =>
    rw [List.append_assoc]
    exact growing.chain.redirect
      (fun id member => by rw [extended_of_mem absent distinct member]) extended_last single
  case counted =>
    exact (growing.counted.create unused new.1 new.2).attach found'
      (growing.next_eq_none found) rfl
  case grounded =>
    have alone : Chain Record.next (Function.update heap q (some record)) (some q) [q] :=
      .cons (Function.update_self _ _ _) (new.1 ▸ .nil)
    exact (growing.grounded.create unused new.1).redirect found' alone (by simpa)
  case outside =>
    intro id outside
    obtain ⟨outside, notNew⟩ := not_or.mp (mt List.mem_append.mpr outside)
    rw [extended_of_ne (fun same => outside (by simp [same]))
      (mt List.mem_singleton.mpr notNew), growing.outside id outside]
  case fresh =>
    intro id member
    rcases List.mem_append.mp member with member | member
    · exact growing.fresh id member
    · obtain rfl := List.mem_singleton.mp member
      exact fresh
  case exclusive =>
    exact forall_extended absent distinct growing.exclusive
      (growing.exclusive last lastMember previous found) new.2
  case small =>
    have small := growing.small last lastMember previous found
    have whole := growing.missing previous found
    exact forall_extended absent distinct growing.small small (by omega)
  case lengths => exact growing.lengths_extended found absent totLen
  case missing =>
    intro after changed
    cases (extended_new different).symm.trans changed
    exact missing
  case total =>
    obtain ⟨_, _, _, equal, _⟩ := growing.chain.of_some
    have member : head ∈ front ++ [last] := by simp [equal]
    rw [totLenOf_extended found (ne_of_mem_of_not_mem member absent), growing.total]

/-- The loop ends when nothing is missing. -/
theorem Growing.sound (growing : Growing origin held length heap head last front 0)
    (sound : Sound origin held) : Sound heap (withRef held (some head)) := by
  refine ⟨growing.counted, growing.grounded, sound.measured.of_whole ?_ growing.outside ?_⟩
  · -- nothing links to a place that was not in use
    intro id record found target linked member
    obtain ⟨_, live⟩ := sound.counted.live_of_link found linked
    rw [growing.fresh target member] at live
    cases live
  · intro id member record found
    have one := growing.exclusive id member record found
    refine ⟨?_, growing.small id member record found, by omega⟩
    rcases List.mem_append.mp member with inner | final
    · exact growing.lengths id inner record found
    · obtain rfl := List.mem_singleton.mp final
      rw [growing.next_eq_none found, totLenOf_none]
      exact growing.missing record found

/-- When the pool is empty, the memory becomes what it was. -/
theorem Growing.pbufFree_eq
    (growing : Growing origin held length heap head last front remLen) :
    ∃ count, pbufFree heap head = some (origin, count) := by
  refine ⟨_, (freeLoop_exclusive growing.chain growing.chain.length_le
    growing.exclusive).trans (congrArg (fun heap => some (heap, _)) ?_)⟩
  funext id
  by_cases member : id ∈ front ++ [last]
  · rw [clear, if_pos member, growing.fresh id member]
  · rw [clear, if_neg member, growing.outside id member]

/-! ## The loop -/

/-- There is a packet of the given length in new `pbuf`s, and nothing else has changed; or,
if there is not enough memory, nothing has changed at all. -/
def Allocated (origin : Heap Id) (held : Id → Nat) (length : Nat) (enough : Prop)
    (result : Heap Id × Option Id) : Prop :=
  (¬ enough ∧ result = (origin, none)) ∨
    enough ∧ ∃ p ids, result.2 = some p ∧ Chain Record.next result.1 (some p) ids ∧
      (∀ id ∈ ids, origin id = none) ∧ (∀ id, id ∉ ids → result.1 id = origin id) ∧
      Sound result.1 (withRef held (some p)) ∧ totLenOf result.1 (some p) = length

/-- The loop is done. -/
theorem Growing.allocated (growing : Growing origin held length heap head last front 0)
    (sound : Sound origin held) {enough : Prop} (holds : enough) :
    Allocated origin held length enough (heap, some head) :=
  .inr ⟨holds, head, front ++ [last], rfl, growing.chain, growing.fresh, growing.outside,
    growing.sound sound, growing.total⟩

theorem memAlignSize_zero (cfg : Config) : cfg.memAlignSize 0 = 0 := by
  cases positive : cfg.memAlignment with
  | zero => simp [Config.memAlignSize, positive]
  | succ alignment => simp [Config.memAlignSize, positive]

@[simp] theorem length_chunk (memory : Nat → UInt8) (start size : Nat) :
    (chunk memory start size).length = size := by
  simp [chunk]

variable {cfg : Config} {memory : Id → Nat → UInt8} {pool : List Id}

omit [DecidableEq Id] [Fintype Id] in
/-- A `pbuf` of the pool holds what it can, and its `tot_len` is what was left. -/
theorem totLen_poolRecord (cfg : Config) (memory : Nat → UInt8) (room remLen : Nat) :
    (poolRecord cfg memory room remLen : Record Id).totLen =
      (poolRecord cfg memory room remLen : Record Id).len +
        (remLen - cfg.poolLen room remLen) := by
  have fits : cfg.poolLen room remLen ≤ remLen := Nat.min_le_left _ _
  simp only [poolRecord, pbufInitAllocedPbuf, Record.len, length_chunk]
  omega

theorem allocPoolLoop_spec (sized : 0 < cfg.poolBufsizeAligned)
    (narrow : cfg.poolBufsizeAligned < 2 ^ 16) (sound : Sound origin held)
    (growing : Growing origin held length heap head last front remLen) (more : 0 < remLen)
    (nodup : pool.Nodup) (unused : ∀ id ∈ pool, origin id = none)
    (apart : ∀ id ∈ pool, id ∉ front ++ [last]) :
    ∃ result, allocPoolLoop cfg memory heap (some (head, last)) remLen 0 pool = some result ∧
      Allocated origin held length (remLen ≤ pool.length * cfg.poolBufsizeAligned) result := by
  induction pool generalizing heap last front remLen with
  | nil =>
      obtain ⟨count, freed⟩ := growing.pbufFree_eq
      exact ⟨(origin, none), by simp [allocPoolLoop, freed], .inl ⟨by simpa using more.ne', rfl⟩⟩
  | cons q pool ih =>
      obtain ⟨absent, nodup⟩ := List.nodup_cons.mp nodup
      obtain ⟨here, unused⟩ := List.forall_mem_cons.mp unused
      obtain ⟨outside, apart⟩ := List.forall_mem_cons.mp apart
      obtain ⟨previous, found, _⟩ := next_last growing.chain
      have different : last ≠ q := fun same => outside (by simp [same])
      have grown := growing.extend found here outside ⟨rfl, rfl⟩ rfl
        (totLen_poolRecord cfg (memory q) 0 remLen)
      have held_here : cfg.poolLen 0 remLen = min remLen cfg.poolBufsizeAligned := by
        rw [Config.poolLen]
        omega
      simp only [allocPoolLoop, memAlignSize_zero, if_neg sized.ne,
        linkLast_eq found different, Option.elim_some, List.length_cons, Nat.succ_mul]
      split
      next left =>
        have same : (remLen ≤ pool.length * cfg.poolBufsizeAligned + cfg.poolBufsizeAligned) =
            (remLen - cfg.poolLen 0 remLen ≤ pool.length * cfg.poolBufsizeAligned) := by
          rw [held_here] at left ⊢
          exact propext (by omega)
        rw [same]
        refine ih grown left nodup unused fun id member => ?_
        rw [List.mem_append, not_or]
        exact ⟨apart id member,
          mt List.mem_singleton.mp (ne_of_mem_of_not_mem member absent)⟩
      next done =>
        rw [Nat.eq_zero_of_not_pos done] at grown
        exact ⟨_, rfl, grown.allocated sound (by omega)⟩

/-- `pbuf_alloc` for `PBUF_POOL` allocates a whole packet, or nothing if the pool has too
few `pbuf`s left. -/
theorem pbufAllocPool_spec {offset length : UInt16} (sound : Sound heap held)
    (fits : cfg.memAlignSize offset.toNat < cfg.poolBufsizeAligned)
    (narrow : cfg.poolBufsizeAligned < 2 ^ 16) (nodup : pool.Nodup)
    (unused : ∀ id ∈ pool, heap id = none) :
    ∃ result, pbufAllocPool cfg memory heap offset length pool = some result ∧
      Allocated heap held length.toNat
        (pool ≠ [] ∧ cfg.memAlignSize offset.toNat + length.toNat ≤
          pool.length * cfg.poolBufsizeAligned) result := by
  cases pool with
  | nil => exact ⟨(heap, none), rfl, .inl ⟨by simp, rfl⟩⟩
  | cons q pool =>
      obtain ⟨absent, nodup⟩ := List.nodup_cons.mp nodup
      obtain ⟨here, unused⟩ := List.forall_mem_cons.mp unused
      have started := Growing.start sound here ⟨rfl, rfl⟩
        (totLen_poolRecord cfg (memory q) (cfg.memAlignSize offset.toNat) length.toNat)
        length.toNat_lt
      have held_here : cfg.poolLen (cfg.memAlignSize offset.toNat) length.toNat =
          min length.toNat (cfg.poolBufsizeAligned - cfg.memAlignSize offset.toNat) := by
        rw [Config.poolLen]
        omega
      simp only [pbufAllocPool, allocPoolLoop, if_neg fits.ne, linkLast, Option.elim_none,
        List.length_cons, Nat.succ_mul, ne_eq, reduceCtorEq, not_false_eq_true, true_and]
      split
      next left =>
        have same : (cfg.memAlignSize offset.toNat + length.toNat ≤
              pool.length * cfg.poolBufsizeAligned + cfg.poolBufsizeAligned) =
            (length.toNat - cfg.poolLen (cfg.memAlignSize offset.toNat) length.toNat ≤
              pool.length * cfg.poolBufsizeAligned) := by
          rw [held_here] at left ⊢
          exact propext (by omega)
        rw [same]
        refine allocPoolLoop_spec (by omega) narrow sound started left nodup unused
          fun id member => ?_
        exact mt List.mem_singleton.mp (ne_of_mem_of_not_mem member absent)
      next done =>
        rw [Nat.eq_zero_of_not_pos done] at started
        rw [held_here] at done
        exact ⟨_, rfl, started.allocated sound (by omega)⟩

end EmbeddedRtps.Buffers
