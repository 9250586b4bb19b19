import EmbeddedRtps.Foundation.Linked
import EmbeddedRtps.Foundation.Machine
import Mathlib.Algebra.Ring.Nat

/-!
# `pbuf`s in memory

Packets are chains of `pbuf`s that may share their ends.  Each `pbuf` counts the
pointers to it, and the functions below allocate, link, cut and free them.  A function
returns nothing here where the code would fail an assertion, use a `pbuf` that has been
deallocated, or follow `next` without an end.

The memory of a `pbuf` is divided at `payload`: the bytes before it are room for
headers, the `len` bytes from there are the payload.
-/

namespace EmbeddedRtps.Buffers

open Foundation Linked

universe u

/-- `pbuf_type`. -/
inductive PbufType where
  | ram
  | rom
  | ref
  | pool
  deriving DecidableEq, Repr

/-- `PBUF_TYPE_FLAG_STRUCT_DATA_CONTIGUOUS`. -/
def PbufType.structDataContiguous : PbufType → Bool
  | .ram | .pool => true
  | .rom | .ref => false

/-- `struct pbuf`. -/
structure Record (Id : Type u) where
  next : Option Id
  /-- The memory between the structure and `payload`. -/
  front : List UInt8
  /-- The `len` bytes at `payload`. -/
  payload : List UInt8
  totLen : Nat
  kind : PbufType
  /-- Eight bits wide. -/
  ref : Nat
  deriving DecidableEq, Repr

/-- The memory that holds `pbuf`s. -/
abbrev Heap (Id : Type u) := Id → Option (Record Id)

variable {Id : Type u}

def Record.len (record : Record Id) : Nat := record.payload.length

/-- `p->tot_len += amount`. -/
def Record.addTotLen (record : Record Id) (amount : Nat) : Record Id :=
  { record with totLen := (record.totLen + amount) % 2 ^ 16 }

/-- Subtraction of `u16_t`. -/
def u16Sub (left right : Nat) : Nat :=
  if right ≤ left then left - right else left + 2 ^ 16 - right

/-- `p->tot_len -= amount`. -/
def Record.subTotLen (record : Record Id) (amount : Nat) : Record Id :=
  { record with totLen := u16Sub record.totLen amount }

section Lengths

variable (record : Record Id) (amount : Nat)

@[simp] theorem next_addTotLen : (record.addTotLen amount).next = record.next := rfl

@[simp] theorem payload_addTotLen : (record.addTotLen amount).payload = record.payload := rfl

@[simp] theorem len_addTotLen : (record.addTotLen amount).len = record.len := rfl

@[simp] theorem next_subTotLen : (record.subTotLen amount).next = record.next := rfl

@[simp] theorem len_subTotLen : (record.subTotLen amount).len = record.len := rfl

theorem totLen_addTotLen (small : record.totLen + amount < 2 ^ 16) :
    (record.addTotLen amount).totLen = record.totLen + amount :=
  Nat.mod_eq_of_lt small

theorem totLen_subTotLen (enough : amount ≤ record.totLen) :
    (record.subTotLen amount).totLen = record.totLen - amount :=
  if_pos enough

end Lengths

/-- `pbuf_init_alloced_pbuf`. -/
def pbufInitAllocedPbuf (front payload : List UInt8) (totLen : Nat) (kind : PbufType) :
    Record Id where
  next := none
  front := front
  payload := payload
  totLen := totLen
  kind := kind
  ref := 1

/-! ## Reference counts -/

variable [DecidableEq Id]

/-- The loop of `pbuf_free`.  It returns the number of `pbuf`s that it deallocated, in
eight bits.  Each turn but the last deallocates one, so a `pbuf` that is left after as
many turns as there are places is deallocated, too. -/
def freeLoop : Nat → Heap Id → Option Id → Option (Heap Id × Nat)
  | _, heap, none => some (heap, 0)
  | 0, _, some _ => none
  | fuel + 1, heap, some p =>
      match heap p with
      | none => none
      | some record =>
          -- "pbuf_free: p->ref > 0"
          if record.ref = 0 then
            none
          else if record.ref - 1 = 0 then
            (freeLoop fuel (Function.update heap p none) record.next).map fun result =>
              (result.1, (result.2 + 1) % 2 ^ 8)
          else
            some (Function.update heap p (some { record with ref := record.ref - 1 }), 0)

/-- `pbuf_free`. -/
def pbufFree [Fintype Id] (heap : Heap Id) (p : Id) : Option (Heap Id × Nat) :=
  freeLoop (Fintype.card Id) heap (some p)

/-- `pbuf_ref`. -/
def pbufRef (heap : Heap Id) (p : Id) : Option (Heap Id) :=
  match heap p with
  | none => none
  | some record =>
      let ref := (record.ref + 1) % 2 ^ 8
      -- "pbuf ref overflow"
      if ref = 0 then none
      else some (Function.update heap p (some { record with ref := ref }))

/-! ## Linking and cutting -/

/-- The loop of `pbuf_cat`: the last `pbuf` of the chain, and the memory with the length
of `t` added to all before it. -/
def catLoop : Nat → Heap Id → Id → Id → Option (Heap Id × Id)
  | 0, _, _, _ => none
  | fuel + 1, heap, p, t =>
      match heap p, heap t with
      | some record, some tail =>
          match record.next with
          | none => some (heap, p)
          | some next =>
              catLoop fuel (Function.update heap p (some (record.addTotLen tail.totLen)))
                next t
      | _, _ => none

/-- `pbuf_cat`. -/
def pbufCat [Fintype Id] (heap : Heap Id) (h t : Id) : Option (Heap Id) :=
  match catLoop (Fintype.card Id) heap h t with
  | none => none
  | some (heap, p) =>
      match heap p, heap t with
      | some record, some tail =>
          -- "p->tot_len == p->len (of last pbuf in chain)"
          if record.totLen ≠ record.len then
            none
          else
            some (Function.update heap p
              (some { record.addTotLen tail.totLen with next := some t }))
      | _, _ => none

/-- `pbuf_chain`. -/
def pbufChain [Fintype Id] (heap : Heap Id) (h t : Id) : Option (Heap Id) :=
  (pbufCat heap h t).bind fun heap => pbufRef heap t

/-- `pbuf_dechain`, with the remainder of the chain that it returns. -/
def pbufDechain [Fintype Id] (heap : Heap Id) (p : Id) : Option (Heap Id × Option Id) :=
  match heap p with
  | none => none
  | some record =>
      match record.next with
      | none =>
          -- "p->tot_len == p->len"
          if record.totLen ≠ record.len then none else some (heap, none)
      | some q =>
          match heap q with
          | none => none
          | some tail =>
              -- "p->tot_len == p->len + q->tot_len"
              if tail.totLen + record.len ≠ record.totLen then
                none
              else
                let heap := Function.update heap q
                  (some { tail with totLen := (record.totLen - record.len) % 2 ^ 16 })
                let heap := Function.update heap p
                  (some { record with next := none, totLen := record.len })
                (pbufFree heap q).map fun result =>
                  (result.1, if 0 < result.2 then none else some q)

/-- The loop of `pbuf_realloc`: the new last `pbuf` and the length it keeps. -/
def reallocLoop (shrink : Nat) : Nat → Heap Id → Option Id → Nat → Option (Heap Id × Id × Nat)
  | fuel + 1, heap, some q, remLen =>
      match heap q with
      | none => none
      | some record =>
          if record.len < remLen then
            reallocLoop shrink fuel
              (Function.update heap q (some (record.subTotLen shrink))) record.next
              (remLen - record.len)
          else
            some (heap, q, remLen)
  -- "pbuf_realloc: q != NULL"
  | _, _, _, _ => none

/-- `pbuf_realloc`. -/
def pbufRealloc [Fintype Id] (heap : Heap Id) (p : Id) (newLen : Nat) : Option (Heap Id) :=
  match heap p with
  | none => none
  | some record =>
      if record.totLen ≤ newLen then
        some heap
      else
        match reallocLoop (record.totLen - newLen) (Fintype.card Id) heap (some p) newLen with
        | none => none
        | some (heap, q, remLen) =>
            match heap q with
            | none => none
            | some last =>
                let last := { last with payload := last.payload.take remLen, totLen := remLen }
                let heap := Function.update heap q (some last)
                match last.next with
                | none => some heap
                | some next =>
                    (pbufFree heap next).map fun result =>
                      Function.update result.1 q
                        ((result.1 q).map fun last => { last with next := none })

/-! ## Headers -/

/-- `pbuf_add_header`; the flag says whether it returned zero. -/
def pbufAddHeader (heap : Heap Id) (p : Id) (increment : Nat) : Option (Heap Id × Bool) :=
  match heap p with
  | none => none
  | some record =>
      if 0xffff < increment then
        some (heap, false)
      else if increment = 0 then
        some (heap, true)
      else if (increment + record.totLen) % 2 ^ 16 < increment then
        some (heap, false)
      else if record.kind.structDataContiguous = false ∨ record.front.length < increment then
        some (heap, false)
      else
        let room := record.front.length - increment
        some (Function.update heap p
          (some { record.addTotLen increment with
            front := record.front.take room
            payload := record.front.drop room ++ record.payload }), true)

/-- `pbuf_remove_header`. -/
def pbufRemoveHeader (heap : Heap Id) (p : Id) (decrement : Nat) :
    Option (Heap Id × Bool) :=
  match heap p with
  | none => none
  | some record =>
      if 0xffff < decrement then
        some (heap, false)
      else if decrement = 0 then
        some (heap, true)
      -- "increment_magnitude <= p->len", where `LWIP_ERROR` is an assertion
      else if record.len < decrement then
        none
      else
        some (Function.update heap p
          (some { record.subTotLen decrement with
            front := record.front ++ record.payload.take decrement
            payload := record.payload.drop decrement }), true)

/-! ## Allocation -/

/-- The settings of a build. -/
structure Config where
  /-- `MEM_ALIGNMENT`. -/
  memAlignment : Nat
  /-- `PBUF_POOL_BUFSIZE_ALIGNED`. -/
  poolBufsizeAligned : Nat
  /-- `LWIP_MEM_ALIGN_SIZE(SIZEOF_STRUCT_PBUF)`. -/
  sizeofStructPbuf : Nat
  /-- The width of `mem_size_t`. -/
  memSizeBits : Nat

/-- `LWIP_MEM_ALIGN_SIZE`. -/
def Config.memAlignSize (cfg : Config) (size : Nat) : Nat :=
  (size + cfg.memAlignment - 1) / cfg.memAlignment * cfg.memAlignment

/-- Bytes of memory that has not been written. -/
def chunk (memory : Nat → UInt8) (start size : Nat) : List UInt8 :=
  (List.range size).map fun index => memory (start + index)

/-- `pbuf_alloc` for `PBUF_RAM`, when `mem_malloc` returns `place`. -/
def pbufAllocRam (cfg : Config) (memory : Id → Nat → UInt8) (heap : Heap Id)
    (offset length : UInt16) (place : Option Id) : Heap Id × Option Id :=
  let aligned := cfg.memAlignSize length.toNat
  let payloadLen := (cfg.memAlignSize offset.toNat + aligned) % 2 ^ 16
  let allocLen := (cfg.sizeofStructPbuf + payloadLen) % 2 ^ cfg.memSizeBits
  if payloadLen < aligned ∨ allocLen < aligned then
    (heap, none)
  else
    match place with
    | none => (heap, none)
    | some p =>
        let room := cfg.memAlignSize offset.toNat
        let record := pbufInitAllocedPbuf (chunk (memory p) 0 room)
          (chunk (memory p) room length.toNat) length.toNat .ram
        (Function.update heap p (some record), some p)

/-- `pbuf_alloc_reference`, when `memp_malloc` returns `place`.  The payload is memory of
the caller. -/
def pbufAllocReference (heap : Heap Id) (payload : List UInt8) (kind : PbufType)
    (place : Option Id) : Option (Heap Id × Option Id) :=
  -- "invalid pbuf_type"
  if kind ≠ .ref ∧ kind ≠ .rom then
    none
  else
    match place with
    | none => some (heap, none)
    | some p =>
        let record := pbufInitAllocedPbuf [] payload payload.length kind
        some (Function.update heap p (some record), some p)

/-- `last->next = q`, once there is a chain. -/
def linkLast (heap : Heap Id) (chain : Option (Id × Id)) (q : Id) : Heap Id :=
  match chain with
  | none => heap
  | some (_, last) =>
      Function.update heap last
        ((heap last).map fun record => { record with next := some q })

/-- `qlen` in `pbuf_alloc`. -/
def Config.poolLen (cfg : Config) (room remLen : Nat) : Nat :=
  min remLen ((cfg.poolBufsizeAligned + 2 ^ 32 - room) % 2 ^ 16)

/-- A `pbuf` from the pool. -/
def poolRecord (cfg : Config) (memory : Nat → UInt8) (room remLen : Nat) : Record Id :=
  pbufInitAllocedPbuf (chunk memory 0 room) (chunk memory room (cfg.poolLen room remLen))
    remLen .pool

/-- The loop of `pbuf_alloc` for `PBUF_POOL`.  The pool has the places of the list to
give; `chain` is the first and the last `pbuf` so far. -/
def allocPoolLoop [Fintype Id] (cfg : Config) (memory : Id → Nat → UInt8) :
    Heap Id → Option (Id × Id) → Nat → Nat → List Id → Option (Heap Id × Option Id)
  | heap, none, _, _, [] => some (heap, none)
  | heap, some (p, _), _, _, [] => (pbufFree heap p).map fun result => (result.1, none)
  | heap, chain, remLen, offset, q :: pool =>
      let room := cfg.memAlignSize offset
      -- "PBUF_POOL_BUFSIZE must be bigger than MEM_ALIGNMENT", as a comparison with zero
      if room = cfg.poolBufsizeAligned then
        none
      else
        let qlen := cfg.poolLen room remLen
        let record := poolRecord cfg (memory q) room remLen
        let heap := linkLast (Function.update heap q (some record)) chain q
        let first := chain.elim q Prod.fst
        if 0 < remLen - qlen then
          allocPoolLoop cfg memory heap (some (first, q)) (remLen - qlen) 0 pool
        else
          some (heap, some first)

/-- `pbuf_alloc` for `PBUF_POOL`. -/
def pbufAllocPool [Fintype Id] (cfg : Config) (memory : Id → Nat → UInt8) (heap : Heap Id)
    (offset length : UInt16) (pool : List Id) : Option (Heap Id × Option Id) :=
  allocPoolLoop cfg memory heap none length.toNat offset.toNat pool

end EmbeddedRtps.Buffers
