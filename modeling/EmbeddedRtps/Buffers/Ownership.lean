import EmbeddedRtps.Buffers.Pool
import EmbeddedRtps.Buffers.Trimming

/-!
# Users of `pbuf`s

Users allocate packets, hold references to `pbuf`s, and call the functions in any order.
Those who keep to the rules of `Permitted` get what the reference counts are for: no call
uses a `pbuf` that has been deallocated, none fails an assertion or runs for ever, and
when all references have been given up, no memory is lost.  The source documents some of
the rules only; that a chain is changed by whoever holds all of it is the condition under
which its lengths stay right.
-/

namespace EmbeddedRtps.Buffers

open Foundation Linked

universe u

/-- The memory and the number of references that users hold to each `pbuf`. -/
structure State (Id : Type u) where
  heap : Heap Id
  owned : Id → Nat

inductive Event (Id : Type u) where
  | allocRam (memory : Id → Nat → UInt8) (offset length : UInt16) (place : Option Id)
  | allocReference (payload : List UInt8) (kind : PbufType) (place : Option Id)
  | allocPool (memory : Id → Nat → UInt8) (offset length : UInt16) (pool : List Id)
  | ref (p : Id)
  | free (p : Id)
  | cat (h t : Id)
  | chain (h t : Id)
  | dechain (p : Id)
  | realloc (p : Id) (newLen : UInt16)
  | addHeader (p : Id) (increment : Nat)
  | removeHeader (p : Id) (decrement : Nat)

variable {Id : Type u} [DecidableEq Id]

/-- One reference less. -/
def withoutRef (held : Id → Nat) (p id : Id) : Nat :=
  held id - (p == id).toNat

/-- Before the first call. -/
def State.init (Id : Type u) : State Id where
  heap _ := none
  owned _ := 0

variable [Fintype Id]

/-- A call.  It has no result where the code would go wrong. -/
def State.call (cfg : Config) (state : State Id) : Event Id → Option (State Id)
  | .allocRam memory offset length place =>
      let result := pbufAllocRam cfg memory state.heap offset length place
      some ⟨result.1, withRef state.owned result.2⟩
  | .allocReference payload kind place =>
      (pbufAllocReference state.heap payload kind place).map fun result =>
        ⟨result.1, withRef state.owned result.2⟩
  | .allocPool memory offset length pool =>
      (pbufAllocPool cfg memory state.heap offset length pool).map fun result =>
        ⟨result.1, withRef state.owned result.2⟩
  | .ref p => (pbufRef state.heap p).map fun heap => ⟨heap, withRef state.owned (some p)⟩
  | .free p =>
      (pbufFree state.heap p).map fun result => ⟨result.1, withoutRef state.owned p⟩
  | .cat h t => (pbufCat state.heap h t).map fun heap => ⟨heap, withoutRef state.owned t⟩
  | .chain h t => (pbufChain state.heap h t).map fun heap => ⟨heap, state.owned⟩
  | .dechain p => (pbufDechain state.heap p).map fun result => ⟨result.1, state.owned⟩
  | .realloc p newLen =>
      (pbufRealloc state.heap p newLen.toNat).map fun heap => ⟨heap, state.owned⟩
  | .addHeader p increment =>
      (pbufAddHeader state.heap p increment).map fun result => ⟨result.1, state.owned⟩
  | .removeHeader p decrement =>
      (pbufRemoveHeader state.heap p decrement).map fun result => ⟨result.1, state.owned⟩

/-! ## The rules -/

/-- The chain from a `pbuf` on. -/
def chainOf (heap : Heap Id) (p : Id) : List Id :=
  walk Record.next heap (Fintype.card Id) (some p)

/-- When the second chain may be put behind the first one: nothing else runs into the
first, they have nothing in common, and the length fits 16 bits. -/
structure Linkable (heap : Heap Id) (h t : Id) : Prop where
  live : (heap h).isSome = true
  whole : Whole heap (chainOf heap h)
  disjoint : ∀ id ∈ chainOf heap h, id ∉ chainOf heap t
  small : totLenOf heap (some h) + totLenOf heap (some t) < 2 ^ 16

/-- Another reference fits the counter. -/
def HasRoom (heap : Heap Id) (p : Id) : Prop :=
  (heap p).any (fun record => record.ref + 1 < 2 ^ 8) = true

/-- Nothing links to the `pbuf`. -/
def IsHead (heap : Heap Id) (p : Id) : Prop :=
  (heap p).isSome = true ∧ Whole heap [p]

/-- The payload of the `pbuf` is not shorter than that. -/
def Holds (heap : Heap Id) (p : Id) (size : Nat) : Prop :=
  (heap p).any (fun record => size ≤ record.len) = true

/-- What the allocators and the callers have to keep to. -/
def Permitted (cfg : Config) (state : State Id) : Event Id → Prop
  | .allocRam _ _ _ place => ∀ p ∈ place, state.heap p = none
  | .allocReference payload kind place =>
      payload.length < 2 ^ 16 ∧ (kind = .ref ∨ kind = .rom) ∧
        ∀ p ∈ place, state.heap p = none
  | .allocPool _ offset _ pool =>
      cfg.memAlignSize offset.toNat < cfg.poolBufsizeAligned ∧
        cfg.poolBufsizeAligned < 2 ^ 16 ∧ pool.Nodup ∧ ∀ p ∈ pool, state.heap p = none
  | .ref p => HasRoom state.heap p
  | .free p => 0 < state.owned p
  | .cat h t => 0 < state.owned t ∧ Linkable state.heap h t
  | .chain h t => HasRoom state.heap t ∧ Linkable state.heap h t
  | .dechain p => IsHead state.heap p
  | .realloc p _ => (state.heap p).isSome = true ∧ Whole state.heap (chainOf state.heap p)
  | .addHeader p _ => IsHead state.heap p
  | .removeHeader p decrement => IsHead state.heap p ∧ Holds state.heap p decrement

/-- Users that keep to the rules. -/
def machine (cfg : Config) : Machine (State Id) (Event Id) where
  Enabled := Permitted cfg
  apply state event := (state.call cfg event).getD state

section Decidability

variable {heap : Heap Id} {ids : List Id} {h t p : Id}

instance : Decidable (Whole heap ids) :=
  inferInstanceAs (Decidable (∀ id, ∀ record ∈ heap id, ∀ target ∈ record.next,
    target ∈ ids → id ∈ ids))

instance : Decidable (Linkable heap h t) :=
  decidable_of_iff ((heap h).isSome = true ∧ Whole heap (chainOf heap h) ∧
      (∀ id ∈ chainOf heap h, id ∉ chainOf heap t) ∧
      totLenOf heap (some h) + totLenOf heap (some t) < 2 ^ 16)
    ⟨fun ⟨live, whole, disjoint, small⟩ => ⟨live, whole, disjoint, small⟩,
      fun ⟨live, whole, disjoint, small⟩ => ⟨live, whole, disjoint, small⟩⟩

instance : Decidable (HasRoom heap p) := inferInstanceAs (Decidable (_ = _))

instance : Decidable (IsHead heap p) := inferInstanceAs (Decidable (_ ∧ _))

instance {size : Nat} : Decidable (Holds heap p size) := inferInstanceAs (Decidable (_ = _))

instance (cfg : Config) (state : State Id) (event : Event Id) :
    Decidable (Permitted cfg state event) :=
  match event with
  | .allocRam _ _ _ place => inferInstanceAs (Decidable (∀ p ∈ place, state.heap p = none))
  | .allocReference payload kind place =>
      inferInstanceAs (Decidable (payload.length < 2 ^ 16 ∧ (kind = .ref ∨ kind = .rom) ∧
        ∀ p ∈ place, state.heap p = none))
  | .allocPool _ offset _ pool =>
      inferInstanceAs (Decidable (cfg.memAlignSize offset.toNat < cfg.poolBufsizeAligned ∧
        cfg.poolBufsizeAligned < 2 ^ 16 ∧ pool.Nodup ∧ ∀ p ∈ pool, state.heap p = none))
  | .ref p => inferInstanceAs (Decidable (HasRoom state.heap p))
  | .free p => inferInstanceAs (Decidable (0 < state.owned p))
  | .cat h t => inferInstanceAs (Decidable (0 < state.owned t ∧ Linkable state.heap h t))
  | .chain h t => inferInstanceAs (Decidable (HasRoom state.heap t ∧ Linkable state.heap h t))
  | .dechain p => inferInstanceAs (Decidable (IsHead state.heap p))
  | .realloc p _ =>
      inferInstanceAs (Decidable ((state.heap p).isSome = true ∧
        Whole state.heap (chainOf state.heap p)))
  | .addHeader p _ => inferInstanceAs (Decidable (IsHead state.heap p))
  | .removeHeader p decrement =>
      inferInstanceAs (Decidable (IsHead state.heap p ∧ Holds state.heap p decrement))

instance (cfg : Config) (state : State Id) (event : Event Id) :
    Decidable ((machine cfg).Enabled state event) :=
  inferInstanceAs (Decidable (Permitted cfg state event))

end Decidability

/-! ## The calls -/

variable {heap : Heap Id} {held : Id → Nat} {ids : List Id} {h t p : Id}
variable {record : Record Id}

omit [Fintype Id] in
theorem withRef_withoutRef (positive : 0 < held p) :
    withRef (withoutRef held p) (some p) = held := by
  funext id
  simp only [withRef, withoutRef]
  by_cases same : p = id
  · subst same
    simp
    omega
  · simp [beq_eq_false_iff_ne.mpr same]

omit [DecidableEq Id] in
theorem chainOf_eq {ids : List Id} (chain : Chain Record.next heap (some p) ids) :
    chainOf heap p = ids :=
  chain.walk_eq chain.length_le

theorem Sound.chain_chainOf (sound : Sound heap held) (live : (heap p).isSome = true) :
    Chain Record.next heap (some p) (chainOf heap p) := by
  obtain ⟨record, found⟩ := Option.isSome_iff_exists.mp live
  obtain ⟨ids, chain⟩ := sound.grounded p record found
  rwa [chainOf_eq chain]

theorem Sound.init : Sound (State.init Id).heap (State.init Id).owned where
  counted :=
    { total := fun id => by
        rw [State.init, counter, pointers, countIn_const pointsTo_none]
        rfl
      positive := fun _ _ found => by cases found }
  grounded := fun _ _ found => by cases found
  measured :=
    { totLen_eq := fun _ _ found => by cases found
      totLen_lt := fun _ _ found => by cases found
      ref_lt := fun _ _ found => by cases found }

/-- A single `pbuf` is allocated. -/
theorem Sound.create (sound : Sound heap held) (fresh : heap p = none)
    (new : record.next = none ∧ record.ref = 1) (whole : record.totLen = record.len)
    (small : record.totLen < 2 ^ 16) :
    Sound (Function.update heap p (some record)) (withRef held (some p)) :=
  (Growing.start sound fresh new whole small).sound sound

theorem pbufAllocRam_sound (cfg : Config) (memory : Id → Nat → UInt8)
    (offset length : UInt16) {place : Option Id} (sound : Sound heap held)
    (fresh : ∀ p ∈ place, heap p = none) :
    Sound (pbufAllocRam cfg memory heap offset length place).1
      (withRef held (pbufAllocRam cfg memory heap offset length place).2) := by
  simp only [pbufAllocRam]
  split
  next => simpa using sound
  next =>
    cases place with
    | none => simpa using sound
    | some p =>
        exact sound.create (fresh p rfl) ⟨rfl, rfl⟩
          (by simp [pbufInitAllocedPbuf, Record.len]) length.toNat_lt

theorem Allocated.sound {length : Nat} {enough : Prop} {result : Heap Id × Option Id}
    (allocated : Allocated heap held length enough result) (sound : Sound heap held) :
    Sound result.1 (withRef held result.2) := by
  obtain ⟨_, rfl⟩ | ⟨_, p, _, place, _, _, _, sound', _⟩ := allocated
  · simpa using sound
  · rwa [place]

/-- A chain that can be put before another one, with its last `pbuf`. -/
theorem Linkable.chains (linkable : Linkable heap h t) (sound : Sound heap held)
    (live : (heap t).isSome = true) :
    ∃ front last, chainOf heap h = front ++ [last] ∧
      Chain Record.next heap (some h) (front ++ [last]) ∧
      Chain Record.next heap (some t) (chainOf heap t) := by
  have chain := sound.chain_chainOf linkable.live
  have nonempty : chainOf heap h ≠ [] := by
    obtain ⟨_, rest, _, equal, _⟩ := chain.of_some
    simp [equal]
  have split := (List.dropLast_append_getLast nonempty).symm
  exact ⟨_, _, split, split ▸ chain, sound.chain_chainOf live⟩

omit [DecidableEq Id] [Fintype Id] in
theorem HasRoom.exists_record (room : HasRoom heap p) :
    ∃ record, heap p = some record ∧ record.ref + 1 < 2 ^ 8 := by
  rw [HasRoom] at room
  cases found : heap p with
  | none => simp [found] at room
  | some record => exact ⟨record, rfl, by simpa [found] using room⟩

variable {cfg : Config} {state : State Id} {event : Event Id}

/-- A call that keeps to the rules has a result and leaves the memory in order. -/
theorem call_sound (sound : Sound state.heap state.owned)
    (permitted : Permitted cfg state event) :
    ∃ after, state.call cfg event = some after ∧ Sound after.heap after.owned := by
  cases event with
  | allocRam memory offset length place =>
      exact ⟨_, rfl, pbufAllocRam_sound cfg memory offset length sound permitted⟩
  | allocReference payload kind place =>
      obtain ⟨small, kinds, fresh⟩ := permitted
      have valid : ¬ (kind ≠ .ref ∧ kind ≠ .rom) := by tauto
      cases place with
      | none =>
          exact ⟨_, by simp only [State.call, pbufAllocReference, if_neg valid]; rfl,
            by simpa using sound⟩
      | some p =>
          exact ⟨_, by simp only [State.call, pbufAllocReference, if_neg valid]; rfl,
            sound.create (fresh p rfl) ⟨rfl, rfl⟩ rfl small⟩
  | allocPool memory offset length pool =>
      obtain ⟨fits, narrow, nodup, fresh⟩ := permitted
      obtain ⟨result, run, allocated⟩ := pbufAllocPool_spec sound fits narrow nodup fresh
      exact ⟨_, by rw [State.call, run]; rfl, allocated.sound sound⟩
  | ref p =>
      obtain ⟨record, found, few⟩ := HasRoom.exists_record permitted
      exact ⟨_, by rw [State.call, pbufRef_eq found few]; rfl, sound.addRef found few⟩
  | free p =>
      rw [← withRef_withoutRef permitted] at sound
      obtain ⟨result, run, sound', _⟩ := pbufFree_sound sound
      exact ⟨_, by rw [State.call, run]; rfl, sound'⟩
  | cat h t =>
      obtain ⟨positive, linkable⟩ := permitted
      rw [← withRef_withoutRef positive] at sound
      obtain ⟨tail, found⟩ := sound.counted.live_of_held
      obtain ⟨front, last, split, chain, chain'⟩ := linkable.chains sound (by simp [found])
      obtain ⟨_, _, _, _, run, sound'⟩ := pbufCat_sound sound chain chain'
        (split ▸ linkable.whole) (split ▸ linkable.disjoint) linkable.small
      exact ⟨_, by rw [State.call, run]; rfl, sound'⟩
  | chain h t =>
      obtain ⟨room, linkable⟩ := permitted
      obtain ⟨tail, found, few⟩ := room.exists_record
      obtain ⟨front, last, split, chain, chain'⟩ := linkable.chains sound (by simp [found])
      obtain ⟨_, _, run, sound'⟩ := pbufChain_sound sound chain chain'
        (split ▸ linkable.whole) (split ▸ linkable.disjoint) linkable.small found few
      exact ⟨_, by rw [State.call, run]; rfl, sound'⟩
  | dechain p =>
      obtain ⟨live, whole⟩ := permitted
      obtain ⟨record, found⟩ := Option.isSome_iff_exists.mp live
      obtain ⟨result, run, sound'⟩ := pbufDechain_sound sound found whole
      exact ⟨_, by rw [State.call, run]; rfl, sound'⟩
  | realloc p newLen =>
      obtain ⟨live, whole⟩ := permitted
      obtain ⟨after, run, sound'⟩ :=
        pbufRealloc_sound sound (sound.chain_chainOf live) whole newLen.toNat
      exact ⟨_, by rw [State.call, run]; rfl, sound'⟩
  | addHeader p increment =>
      obtain ⟨live, whole⟩ := permitted
      obtain ⟨record, found⟩ := Option.isSome_iff_exists.mp live
      obtain ⟨result, run, sound'⟩ := pbufAddHeader_sound sound found whole increment
      exact ⟨_, by rw [State.call, run]; rfl, sound'⟩
  | removeHeader p decrement =>
      obtain ⟨⟨live, whole⟩, holds⟩ := permitted
      obtain ⟨record, found⟩ := Option.isSome_iff_exists.mp live
      have fits : decrement ≤ record.len := by simpa [Holds, found] using holds
      obtain ⟨result, run, sound'⟩ := pbufRemoveHeader_sound sound found whole fits
      exact ⟨_, by rw [State.call, run]; rfl, sound'⟩

/-! ## Over whole runs -/

/-- The references of the users and the memory fit together. -/
def State.InOrder (state : State Id) : Prop := Sound state.heap state.owned

theorem inOrder_of_reaches
    (reached : (machine cfg).Reaches Machine.AnyStep (.init Id) state) : state.InOrder := by
  refine Machine.Reaches.invariant Sound.init ?_ reached
  intro state event _ inOrder permitted _
  obtain ⟨after, run, sound⟩ := call_sound inOrder permitted
  simp only [machine, run, Option.getD_some]
  exact sound

/-- In every run, every call that keeps to the rules returns: it fails no assertion, uses
no `pbuf` that has been deallocated, and follows no chain for ever. -/
theorem call_returns (reached : (machine cfg).Reaches Machine.AnyStep (.init Id) state)
    (permitted : Permitted cfg state event) : (state.call cfg event).isSome = true := by
  obtain ⟨after, run, _⟩ := call_sound (inOrder_of_reaches reached) permitted
  simp [run]

/-- `pbuf`s of eight bytes on a machine without alignment. -/
def smallConfig : Config where
  memAlignment := 1
  poolBufsizeAligned := 8
  sizeofStructPbuf := 24
  memSizeBits := 16

/-- A packet of two `pbuf`s, the second of which is referred to once more. -/
def twoPbufs : List (Event (Fin 3)) :=
  [.allocRam (fun _ _ => 7) 4 2 (some 0), .allocReference [1, 2, 3] .rom (some 1), .chain 0 1]

theorem call_returns_two : ∃ state : State (Fin 3),
    (chainOf state.heap 0 = [0, 1] ∧ state.owned 1 = 1) ∧
      (state.call smallConfig (.free 0)).isSome = true := by
  obtain ⟨state, reached, property, permitted⟩ : ∃ state : State (Fin 3),
      (machine smallConfig).Reaches Machine.AnyStep (.init (Fin 3)) state ∧
        (chainOf state.heap 0 = [0, 1] ∧ state.owned 1 = 1) ∧
        Permitted smallConfig state (.free 0) :=
    Machine.exists_reaches_of_exec twoPbufs (by decide +kernel)
  exact ⟨state, property, call_returns reached permitted⟩

/-- In every run, `ref` is the number of references that users hold to a `pbuf` and of
links to it, and what is referred to has not been deallocated. -/
theorem ref_eq_references
    (reached : (machine cfg).Reaches Machine.AnyStep (.init Id) state) (p : Id) :
    (∀ record, state.heap p = some record →
        record.ref = state.owned p + pointers Record.next state.heap p) ∧
      ((state.heap p).isSome = true ↔
        0 < state.owned p + pointers Record.next state.heap p) := by
  have counted := (inOrder_of_reaches reached).counted
  refine ⟨fun record found => counted.ref_eq found, fun live => ?_, fun positive => ?_⟩
  · obtain ⟨record, found⟩ := Option.isSome_iff_exists.mp live
    rw [← counted.ref_eq found]
    exact counted.positive p record found
  · exact Option.isSome_iff_exists.mpr (counted.live_of_pos positive)

theorem ref_eq_references_two : ∃ state : State (Fin 3),
    state.owned 1 = 1 ∧ ∃ record, state.heap 1 = some record ∧
      record.ref = 1 + pointers Record.next state.heap 1 := by
  obtain ⟨state, reached, owned, live⟩ : ∃ state : State (Fin 3),
      (machine smallConfig).Reaches Machine.AnyStep (.init (Fin 3)) state ∧
        state.owned 1 = 1 ∧ (state.heap 1).isSome = true :=
    Machine.exists_reaches_of_exec twoPbufs (by decide +kernel)
  obtain ⟨record, found⟩ := Option.isSome_iff_exists.mp live
  exact ⟨state, owned, record, found, owned ▸ (ref_eq_references reached 1).1 record found⟩

/-- In every run, once the users have given up all their references, all memory has been
returned. -/
theorem heap_empty_of_unowned
    (reached : (machine cfg).Reaches Machine.AnyStep (.init Id) state)
    (unowned : ∀ p, state.owned p = 0) (p : Id) : state.heap p = none := by
  have sound : Sound state.heap state.owned := inOrder_of_reaches reached
  rw [show state.owned = fun _ => 0 from funext unowned] at sound
  exact sound.counted.eq_none_of_unheld sound.grounded p

/-- Both `pbuf`s have been given back, the shared one last. -/
theorem heap_empty_of_unowned_two : ∃ state : State (Fin 3),
    (∀ p, state.owned p = 0) ∧ state.heap 1 = none := by
  obtain ⟨state, reached, unowned⟩ : ∃ state : State (Fin 3),
      (machine smallConfig).Reaches Machine.AnyStep (.init (Fin 3)) state ∧
        ∀ p, state.owned p = 0 :=
    Machine.exists_reaches_of_exec (twoPbufs ++ [.free 0, .free 1]) (by decide +kernel)
  exact ⟨state, unowned, heap_empty_of_unowned reached unowned 1⟩

/-- In every run, `tot_len` is the number of bytes from a `pbuf` to the end of its
chain. -/
theorem totLen_eq_length_bytes
    (reached : (machine cfg).Reaches Machine.AnyStep (.init Id) state) (p : Id)
    (record : Record Id) (found : state.heap p = some record) :
    record.totLen = (bytes state.heap (chainOf state.heap p)).length := by
  have sound : Sound state.heap state.owned := inOrder_of_reaches reached
  have chain := sound.chain_chainOf (show (state.heap p).isSome = true by simp [found])
  rw [← sound.measured.totLenOf_eq chain, totLenOf_some found]

theorem totLen_eq_length_bytes_two : ∃ state : State (Fin 3),
    chainOf state.heap 0 = [0, 1] ∧ ∃ record, state.heap 0 = some record ∧
      record.totLen = (bytes state.heap (chainOf state.heap 0)).length := by
  obtain ⟨state, reached, chain, live⟩ : ∃ state : State (Fin 3),
      (machine smallConfig).Reaches Machine.AnyStep (.init (Fin 3)) state ∧
        chainOf state.heap 0 = [0, 1] ∧ (state.heap 0).isSome = true :=
    Machine.exists_reaches_of_exec twoPbufs (by decide +kernel)
  obtain ⟨record, found⟩ := Option.isSome_iff_exists.mp live
  exact ⟨state, chain, record, found, totLen_eq_length_bytes reached 0 record found⟩

end EmbeddedRtps.Buffers
