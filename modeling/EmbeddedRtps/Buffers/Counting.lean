import EmbeddedRtps.Buffers.Heap

/-!
# Freeing `pbuf`s

What holds of the memory between any two calls: the counters are right, every chain
has an end, and `tot_len` is the length from a `pbuf` to the end of its chain.
`pbuf_free` gives up one reference, deallocates what nobody refers to any more and
leaves all else as it is.
-/

namespace EmbeddedRtps.Buffers

open Foundation Linked

universe u

variable {Id : Type u} {heap after : Heap Id} {id p q : Id} {record : Record Id}
variable {start : Option Id} {ids : List Id}

/-! ## Lengths -/

/-- The total length from a link on. -/
def totLenOf (heap : Heap Id) (start : Option Id) : Nat :=
  start.elim 0 (counter Record.totLen heap)

@[simp] theorem totLenOf_none : totLenOf heap none = 0 := rfl

theorem totLenOf_some (found : heap id = some record) :
    totLenOf heap (some id) = record.totLen := by
  simp [totLenOf, counter, found]

theorem totLenOf_congr (same : ∀ id, start = some id → after id = heap id) :
    totLenOf after start = totLenOf heap start := by
  cases start with
  | none => rfl
  | some id => simp [totLenOf, counter, same id rfl]

/-- The lengths and counters of all `pbuf`s. -/
structure Measured (heap : Heap Id) : Prop where
  totLen_eq : ∀ id record, heap id = some record →
    record.totLen = record.len + totLenOf heap record.next
  totLen_lt : ∀ id record, heap id = some record → record.totLen < 2 ^ 16
  ref_lt : ∀ id record, heap id = some record → record.ref < 2 ^ 8

/-- The payload of a chain in one piece. -/
def bytes (heap : Heap Id) (ids : List Id) : List UInt8 :=
  ids.flatMap fun id => (heap id).elim [] Record.payload

theorem bytes_append (ids others : List Id) :
    bytes heap (ids ++ others) = bytes heap ids ++ bytes heap others :=
  List.flatMap_append

theorem bytes_congr
    (same : ∀ id ∈ ids, (after id).map Record.payload = (heap id).map Record.payload) :
    bytes after ids = bytes heap ids := by
  refine List.flatMap_congr fun id member => ?_
  have equal := same id member
  cases here : after id <;> cases there : heap id <;> simp_all

/-- `tot_len` is the number of bytes in the chain. -/
theorem Measured.totLenOf_eq (measured : Measured heap)
    (chain : Chain Record.next heap start ids) :
    totLenOf heap start = (bytes heap ids).length := by
  induction chain with
  | nil => rfl
  | @cons id record rest found _ ih =>
      rw [totLenOf_some found, measured.totLen_eq id record found, ih]
      simp [bytes, found, Record.len]

theorem Measured.totLen_le (measured : Measured heap)
    (chain : Chain Record.next heap start ids) (member : id ∈ ids)
    (found : heap id = some record) : record.totLen ≤ totLenOf heap start := by
  obtain ⟨front, rest, rfl, chain'⟩ := chain.split member
  rw [measured.totLenOf_eq chain, ← totLenOf_some found, measured.totLenOf_eq chain', bytes,
    bytes, List.flatMap_append, List.length_append]
  exact Nat.le_add_left _ _

/-- What is left is as it was, but for its counter. -/
def Survives (heap after : Heap Id) : Prop :=
  ∀ id record, after id = some record →
    ∃ before, heap id = some before ∧ record = { before with ref := record.ref }

theorem Survives.refl (heap : Heap Id) : Survives heap heap :=
  fun _ record found => ⟨record, found, rfl⟩

theorem Survives.trans {middle : Heap Id} (first : Survives heap middle)
    (second : Survives middle after) : Survives heap after := by
  intro id record found
  obtain ⟨between, found', equal⟩ := second id record found
  obtain ⟨before, found'', equal'⟩ := first id between found'
  exact ⟨before, found'', by rw [equal, equal']⟩

/-- Chains of what is left are the same, and so are their bytes. -/
theorem Survives.chain (survives : Survives heap after)
    (chain : Chain Record.next after start ids) :
    Chain Record.next heap start ids ∧ bytes after ids = bytes heap ids := by
  induction chain with
  | nil => exact ⟨.nil, rfl⟩
  | @cons id record rest found _ ih =>
      obtain ⟨before, found', equal⟩ := survives id record found
      have next : record.next = before.next := by rw [equal]
      have payload : record.payload = before.payload := by rw [equal]
      refine ⟨.cons found' (next ▸ ih.1), ?_⟩
      have rest := ih.2
      simp only [bytes, List.flatMap_cons, found, found', Option.elim_some, payload] at rest ⊢
      rw [rest]

variable [DecidableEq Id]

theorem totLenOf_setRef {ref : Nat} (found : heap id = some record) (start : Option Id) :
    totLenOf (Function.update heap id (some { record with ref := ref })) start =
      totLenOf heap start := by
  cases start with
  | none => rfl
  | some current =>
      by_cases equal : current = id
      · subst equal
        simp [totLenOf, counter, found]
      · simp [totLenOf, counter, equal]

/-- A `pbuf` changes its counter only. -/
theorem Measured.setRef {ref : Nat} (measured : Measured heap) (found : heap id = some record)
    (small : ref < 2 ^ 8) :
    Measured (Function.update heap id (some { record with ref := ref })) := by
  have origin : ∀ current record',
      Function.update heap id (some { record with ref := ref }) current = some record' →
      ∃ old, heap current = some old ∧ record'.totLen = old.totLen ∧
        record'.payload = old.payload ∧ record'.next = old.next ∧ record'.ref < 2 ^ 8 := by
    intro current record' found'
    by_cases equal : current = id
    · subst equal
      obtain rfl : { record with ref := ref } = record' := by simpa using found'
      exact ⟨record, found, rfl, rfl, rfl, small⟩
    · rw [Function.update_of_ne equal] at found'
      exact ⟨record', found', rfl, rfl, rfl, measured.ref_lt current record' found'⟩
  constructor
  · intro current record' found'
    obtain ⟨old, found'', totLen, payload, next, _⟩ := origin current record' found'
    rw [totLenOf_setRef found, totLen, next, Record.len, payload]
    exact measured.totLen_eq current old found''
  · intro current record' found'
    obtain ⟨old, found, totLen, _⟩ := origin current record' found'
    rw [totLen]
    exact measured.totLen_lt current old found
  · intro current record' found'
    obtain ⟨_, _, _, _, _, small⟩ := origin current record' found'
    exact small

theorem Survives.setRef {ref : Nat} (found : heap id = some record) :
    Survives heap (Function.update heap id (some { record with ref := ref })) := by
  intro current record' found'
  by_cases same : current = id
  · subst same
    obtain rfl : { record with ref := ref } = record' := by simpa using found'
    exact ⟨record, found, rfl⟩
  · exact ⟨record', by rwa [Function.update_of_ne same] at found', rfl⟩

theorem Survives.erase : Survives heap (Function.update heap id none) := by
  intro current record found
  by_cases same : current = id
  · simp [same] at found
  · exact ⟨record, by rwa [Function.update_of_ne same] at found, rfl⟩

/-! ## The loop of `pbuf_free` by its chain -/

@[simp] theorem freeLoop_none {fuel : Nat} : freeLoop fuel heap none = some (heap, 0) := by
  cases fuel <;> rfl

/-- The rest of a chain after its first `pbuf` has been deallocated. -/
theorem chain_erase {rest : List Id} (chain : Chain Record.next heap (some p) (p :: rest))
    (found : heap p = some record) :
    Chain Record.next (Function.update heap p none) record.next rest := by
  have absent := (List.nodup_cons.mp chain.nodup).1
  cases chain with
  | cons found' chain =>
      cases found.symm.trans found'
      refine chain.frame fun current member => ?_
      rw [Function.update_of_ne (ne_of_mem_of_not_mem member absent)]

/-- It leaves alone what is not in the chain. -/
theorem freeLoop_update {fuel count : Nat} (chain : Chain Record.next heap start ids)
    (outside : q ∉ ids) (changed : Option (Record Id))
    (run : freeLoop fuel heap start = some (after, count)) :
    after q = heap q ∧
      freeLoop fuel (Function.update heap q changed) start =
        some (Function.update after q changed, count) := by
  induction ids generalizing fuel heap start after count with
  | nil =>
      cases chain
      rw [freeLoop_none] at run ⊢
      cases run
      exact ⟨rfl, rfl⟩
  | cons p rest ih =>
      obtain ⟨different, outside⟩ := not_or.mp (mt List.mem_cons.mpr outside)
      have whole := chain
      cases chain with
      | @cons _ record _ found _ =>
          cases fuel with
          | zero => cases run
          | succ fuel =>
              have elsewhere : Function.update heap q changed p = some record := by
                rw [Function.update_of_ne (Ne.symm different), found]
              simp only [freeLoop, found, elsewhere] at run ⊢
              split at run
              next => cases run
              next positive =>
                rw [if_neg positive]
                split at run
                next last =>
                  rw [if_pos last]
                  obtain ⟨⟨middle, turns⟩, inner, equal⟩ := Option.map_eq_some_iff.mp run
                  cases equal
                  obtain ⟨kept, run'⟩ := ih (chain_erase whole found) outside inner
                  rw [Function.update_of_ne different] at kept
                  rw [Function.update_comm different, run']
                  exact ⟨kept, rfl⟩
                next shared =>
                  cases run
                  rw [if_neg shared, Function.update_comm different,
                    Function.update_of_ne different]
                  exact ⟨rfl, rfl⟩

/-- The first `pbuf` of the chain loses a reference, with the last one its memory. -/
theorem freeLoop_first {fuel count : Nat} {rest : List Id}
    (chain : Chain Record.next heap (some p) (p :: rest))
    (run : freeLoop fuel heap (some p) = some (after, count)) :
    counter Record.ref heap p = counter Record.ref after p + 1 := by
  have absent := (List.nodup_cons.mp chain.nodup).1
  obtain ⟨_, record, found, _⟩ := chain.of_cons
  cases fuel with
  | zero => cases run
  | succ fuel =>
      simp only [freeLoop, found] at run
      split at run
      next => cases run
      next positive =>
        split at run
        next last =>
          obtain ⟨⟨middle, turns⟩, inner, equal⟩ := Option.map_eq_some_iff.mp run
          cases equal
          have gone := (freeLoop_update (chain_erase chain found) absent none inner).1
          rw [Function.update_self] at gone
          simp only [counter, found, gone, Option.elim_some, Option.elim_none]
          omega
        next =>
          cases run
          simp only [counter, found, Function.update_self, Option.elim_some]
          omega

/-- The memory without the `pbuf`s of a list. -/
def clear (heap : Heap Id) (ids : List Id) : Heap Id :=
  fun id => if id ∈ ids then none else heap id

/-- A chain that nobody else refers to is deallocated as a whole. -/
theorem freeLoop_exclusive {fuel : Nat} (chain : Chain Record.next heap start ids)
    (enough : ids.length ≤ fuel)
    (exclusive : ∀ id ∈ ids, ∀ record, heap id = some record → record.ref = 1) :
    freeLoop fuel heap start = some (clear heap ids, ids.length % 2 ^ 8) := by
  induction ids generalizing fuel heap start with
  | nil =>
      cases chain
      rw [freeLoop_none]
      rfl
  | cons p rest ih =>
      have whole := chain
      have absent := (List.nodup_cons.mp chain.nodup).1
      cases chain with
      | @cons _ record _ found _ =>
          cases fuel with
          | zero => cases enough
          | succ fuel =>
              have one := exclusive p List.mem_cons_self record found
              have inner := ih (chain_erase whole found) (Nat.le_of_succ_le_succ enough) ?_
              · simp only [freeLoop, found, one, inner, Option.map_some]
                refine congrArg some (Prod.ext ?_ ?_)
                · funext id
                  by_cases same : id = p
                  · simp [clear, same]
                  · simp [clear, same]
                · simp [Nat.add_mod]
              · intro id member record' found'
                rw [Function.update_of_ne (ne_of_mem_of_not_mem member absent)] at found'
                exact exclusive id (List.mem_cons_of_mem p member) record' found'

variable [Fintype Id]

/-- A `pbuf` nothing links to is deallocated. -/
theorem Measured.erase (measured : Measured heap)
    (unlinked : pointers Record.next heap id = 0) :
    Measured (Function.update heap id none) := by
  have origin : ∀ current record, Function.update heap id none current = some record →
      heap current = some record := by
    intro current record found
    by_cases same : current = id
    · simp [same] at found
    · rwa [Function.update_of_ne same] at found
  constructor
  · intro current record found
    rw [measured.totLen_eq current record (origin current record found)]
    congr 1
    refine (totLenOf_congr fun target linked => ?_).symm
    rw [Function.update_of_ne]
    rintro rfl
    exact not_linked_of_pointers_eq_zero unlinked (origin current record found) linked
  · exact fun current record found =>
      measured.totLen_lt current record (origin current record found)
  · exact fun current record found =>
      measured.ref_lt current record (origin current record found)

/-! ## The invariant -/

variable {held : Id → Nat}

/-- The memory between two calls, when the users hold the references `held`. -/
structure Sound (heap : Heap Id) (held : Id → Nat) : Prop where
  counted : Counted Record.next Record.ref heap held
  grounded : Grounded Record.next heap
  measured : Measured heap

/-! ## `pbuf_free` -/

/-- The loop of `pbuf_free` uses no `pbuf` that has been deallocated, and gives up the
reference it was called with. -/
theorem freeLoop_sound {fuel : Nat} (sound : Sound heap (withRef held start))
    (enough : countIn Option.isSome heap ≤ fuel) :
    ∃ result, freeLoop fuel heap start = some result ∧ Sound result.1 held ∧
      Survives heap result.1 := by
  induction fuel generalizing heap start with
  | zero =>
      cases start with
      | none => exact ⟨_, rfl, by simpa using sound, .refl heap⟩
      | some p =>
          obtain ⟨record, found⟩ := sound.counted.live_of_held
          have positive : 0 < countIn Option.isSome heap :=
            countIn_pos (show (heap p).isSome = true by rw [found]; rfl)
          omega
  | succ fuel ih =>
      cases start with
      | none => exact ⟨_, rfl, by simpa using sound, .refl heap⟩
      | some p =>
          obtain ⟨record, found⟩ := sound.counted.live_of_held
          have positive := sound.counted.positive p record found
          by_cases last : record.ref = 1
          · obtain ⟨unlinked, counted⟩ := sound.counted.release found last
            have fewer := countIn_update Option.isSome heap p none
            simp only [found, Option.isSome_some, Option.isSome_none, Bool.toNat_true,
              Bool.toNat_false] at fewer
            obtain ⟨result, run, sound', survives⟩ := ih
              ⟨counted, sound.grounded.erase unlinked, sound.measured.erase unlinked⟩
              (by omega)
            refine ⟨(result.1, (result.2 + 1) % 2 ^ 8), ?_, sound',
              Survives.erase.trans survives⟩
            simp [freeLoop, found, last, run]
          · have small := sound.measured.ref_lt p record found
            have shared : record.ref - 1 ≠ 0 := by omega
            refine ⟨(Function.update heap p (some { record with ref := record.ref - 1 }), 0),
              by simp [freeLoop, found, positive.ne', shared],
              ⟨sound.counted.decrement found last rfl rfl,
                sound.grounded.of_same_links (map_update found rfl),
                sound.measured.setRef found (by omega)⟩,
              .setRef found⟩

/-- `pbuf_free` of a reference that is held. -/
theorem pbufFree_sound (sound : Sound heap (withRef held (some p))) :
    ∃ result, pbufFree heap p = some result ∧ Sound result.1 held ∧
      Survives heap result.1 :=
  freeLoop_sound sound countIn_le_card

end EmbeddedRtps.Buffers
