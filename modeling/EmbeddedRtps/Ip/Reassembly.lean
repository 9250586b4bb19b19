import EmbeddedRtps.Foundation.Machine
import EmbeddedRtps.Ip.Fragmentation

/-!
# IP reassembly

`ip4_reass` collects the fragments of datagrams until all are there.  The fragments of
several datagrams arrive in any order, more than once or not at all; the memory for them
is limited, so that a datagram may have to make room for another one, and a timer gives up
those that are not completed.

A function has no result where the code would fail an assertion.
-/

namespace EmbeddedRtps.Ip

open Foundation

/-- `IP_REASS_MAX_PBUFS`, `MEMP_NUM_REASSDATA` and `IP_REASS_MAXAGE`. -/
structure Config where
  maxPbufs : Nat
  numReassdata : Nat
  maxAge : Nat
  deriving DecidableEq, Repr

/-- `struct ip_reass_helper` with the `pbuf`s it stands in: their data behind the header
and their number. -/
structure Helper where
  start : Nat
  stop : Nat
  data : List UInt8
  clen : Nat
  deriving DecidableEq, Repr

/-- `struct ip_reassdata`, without its link. -/
structure Reassdata where
  p : List Helper
  iphdr : Header
  /-- The offset in `iphdr`. -/
  iphdrOffset : Nat
  datagramLen : Nat
  /-- `IP_REASS_FLAG_LASTFRAG`. -/
  lastFrag : Bool
  timer : Nat
  deriving DecidableEq, Repr

structure State where
  reassdatagrams : List Reassdata
  /-- `ip_reass_pbufcount`. -/
  pbufcount : Nat
  deriving DecidableEq, Repr

/-- What is passed on: the header with its length field, and the data. -/
structure Datagram where
  header : Header
  len : Nat
  data : List UInt8
  deriving DecidableEq, Repr

/-- What `IP_ADDRESSES_AND_ID_MATCH` compares. -/
def Header.key (header : Header) : Nat × Nat × Nat :=
  (header.src, header.dest, header.id)

/-- `pbuf_clen` of all fragments. -/
def clens (p : List Helper) : Nat := (p.map Helper.clen).sum

/-! ## Giving up -/

/-- `ip_reass_free_complete_datagram` for the datagram at an index. -/
def freeCompleteDatagram (state : State) (index : Nat) : Option (State × Nat) :=
  match state.reassdatagrams[index]? with
  | none => none
  | some ipr =>
      let pbufsFreed := clens ipr.p
      if ipr.p = [] ∨ 0xffff < pbufsFreed ∨ state.pbufcount < pbufsFreed then none
      else
        some (⟨state.reassdatagrams.eraseIdx index, state.pbufcount - pbufsFreed⟩,
          pbufsFreed)

/-- The search for the datagram with the least time left, of the others than that of the
fragment: its index and timer, if any, from an index on. -/
def oldestLoop (fraghdr : Header) :
    List Reassdata → Nat → Option (Nat × Nat) → Option (Nat × Nat)
  | [], _, oldest => oldest
  | r :: next, index, oldest =>
      oldestLoop fraghdr next (index + 1) <|
        if r.iphdr.key = fraghdr.key then oldest
        else if oldest.all fun oldest => r.timer ≤ oldest.2 then some (index, r.timer)
        else oldest

/-- The loop of `ip_reass_remove_oldest_datagram`.  It has no result if it does not end
within so many turns. -/
def removeOldestLoop (fraghdr : Header) (pbufsNeeded : Nat) :
    Nat → State → Nat → Option (State × Nat)
  | 0, _, _ => none
  | turns + 1, state, pbufsFreed =>
      let otherDatagrams :=
        state.reassdatagrams.countP fun r => r.iphdr.key ≠ fraghdr.key
      match oldestLoop fraghdr state.reassdatagrams 0 none with
      | none => some (state, pbufsFreed)
      | some (oldest, _) =>
          match freeCompleteDatagram state oldest with
          | none => none
          | some (state, current) =>
              if pbufsFreed + current < pbufsNeeded ∧ 1 < otherDatagrams then
                removeOldestLoop fraghdr pbufsNeeded turns state (pbufsFreed + current)
              else
                some (state, pbufsFreed + current)

/-- `ip_reass_remove_oldest_datagram`. -/
def removeOldestDatagram (state : State) (fraghdr : Header) (pbufsNeeded : Nat) :
    Option (State × Nat) :=
  removeOldestLoop fraghdr pbufsNeeded (state.reassdatagrams.length + 1) state 0

/-- The loop of `ip_reass_tmr` from an index on. -/
def tmrLoop : Nat → Nat → State → Option State
  | 0, _, state => some state
  | turns + 1, index, state =>
      match state.reassdatagrams[index]? with
      | none => some state
      | some r =>
          if 0 < r.timer then
            tmrLoop turns (index + 1)
              { state with
                reassdatagrams :=
                  state.reassdatagrams.set index { r with timer := r.timer - 1 } }
          else
            match freeCompleteDatagram state index with
            | none => none
            | some (state, _) => tmrLoop turns index state

/-- `ip_reass_tmr`. -/
def ipReassTmr (state : State) : Option State :=
  tmrLoop state.reassdatagrams.length 0 state

/-! ## Putting together -/

/-- What the search for the place of a fragment finds: an assertion that fails, a fragment
that is thrown away, or the new queue with what follows the fragment, and whether there is
no hole before it. -/
inductive Place where
  | failed
  | dropped
  | found (queue next : List Helper) (valid : Bool)
  deriving DecidableEq, Repr

/-- An entry that has been passed. -/
def Place.after (tmp : Helper) : Place → Place
  | .found queue next valid => .found (tmp :: queue) next valid
  | other => other

/-- No hole between the entry before and this one. -/
def follows (prev : Option Helper) (iprh : Helper) : Bool :=
  prev.all fun prev => prev.stop = iprh.start

/-- The loop of `ip_reass_chain_frag_into_datagram_and_validate` over the queue. -/
def placeLoop (iprh : Helper) : Option Helper → Bool → List Helper → Place
  | prev, valid, [] =>
      if prev.any fun prev => iprh.start < prev.stop then .failed
      else .found [iprh] [] (valid && follows prev iprh)
  | prev, valid, tmp :: rest =>
      if iprh.start < tmp.start then
        if (prev.any fun prev => iprh.start < prev.stop) || tmp.start < iprh.stop then
          .dropped
        else .found (iprh :: tmp :: rest) (tmp :: rest) (valid && follows prev iprh)
      else if iprh.start = tmp.start then .dropped
      else if iprh.start < tmp.stop then .dropped
      else (placeLoop iprh (some tmp) (valid && follows prev tmp) rest).after tmp

/-- There is no hole after an entry. -/
def noHoles : Helper → List Helper → Bool
  | _, [] => true
  | prev, iprh :: rest => if prev.stop ≠ iprh.start then false else noHoles iprh rest

/-- The three results `IP_REASS_VALIDATE_*`, with the queue, or an assertion that fails. -/
inductive Validated where
  | failed
  | pbufDropped
  | pbufQueued (queue : List Helper)
  | telegramFinished (queue : List Helper)
  deriving DecidableEq, Repr

/-- `ip_reass_chain_frag_into_datagram_and_validate`. -/
def chainFragIntoDatagramAndValidate (ipr : Reassdata) (newP : Packet) (clen : Nat)
    (isLast : Bool) : Validated :=
  if newP.len < newP.hlBytes then .pbufDropped
  else
    let len := newP.len - newP.hlBytes
    let offset := newP.offset * 8
    let stop := (offset + len) % 2 ^ 16
    if stop < offset then .pbufDropped
    else
      let iprh : Helper := ⟨offset, stop, newP.data, clen⟩
      match placeLoop iprh none true ipr.p with
      | .failed => .failed
      | .dropped => .pbufDropped
      | .found queue next valid =>
          if isLast || ipr.lastFrag then
            if valid && (queue.head?.any fun first => first.start = 0) &&
                noHoles iprh next then
              -- the sanity check: the last entry is not the first one
              if queue.length < 2 then .failed else .telegramFinished queue
            else .pbufQueued queue
          else .pbufQueued queue

/-- `ip_reass_enqueue_new_datagram`: the queue, and whether it has a new datagram in
front. -/
def enqueueNewDatagram (cfg : Config) (state : State) (fraghdr : Header)
    (fraghdrOffset clen : Nat) : Option (State × Bool) :=
  let enqueue (state : State) : State :=
    { state with
      reassdatagrams :=
        { p := []
          iphdr := fraghdr
          iphdrOffset := fraghdrOffset
          datagramLen := 0
          lastFrag := false
          timer := cfg.maxAge } :: state.reassdatagrams }
  if state.reassdatagrams.length < cfg.numReassdata then some (enqueue state, true)
  else
    match removeOldestDatagram state fraghdr clen with
    | none => none
    | some (state, freed) =>
        if clen ≤ freed ∧ state.reassdatagrams.length < cfg.numReassdata then
          some (enqueue state, true)
        else some (state, false)

/-- `nullreturn_ipr`: a new entry is removed again. -/
def nullreturnIpr (pbufcount : Nat) (before : List Reassdata) (ipr : Reassdata)
    (after : List Reassdata) : Option (State × Option Datagram) :=
  if ipr.p = [] then
    if before = [] then some (⟨after, pbufcount⟩, none) else none
  else some (⟨before ++ ipr :: after, pbufcount⟩, none)

/-- An entry with a fragment more, which is perhaps the last one. -/
def Reassdata.enqueue (ipr : Reassdata) (isLast : Bool) (datagramLen : Nat)
    (queue : List Helper) : Reassdata :=
  { ipr with
    p := queue
    datagramLen := if isLast then datagramLen else ipr.datagramLen
    lastFrag := isLast || ipr.lastFrag }

/-- `ip4_reass` once the datagram of the fragment is known, with those before and after it
in the queue. -/
def addFragment (pbufcount : Nat) (before : List Reassdata) (ipr : Reassdata)
    (after : List Reassdata) (packet : Packet) (clen : Nat) :
    Option (State × Option Datagram) :=
  let offset := packet.offset * 8
  let len := packet.len - packet.hlBytes
  let isLast := !packet.mf
  let datagramLen := (offset + len) % 2 ^ 16
  if isLast ∧ (datagramLen < offset ∨ 0xffff - ipHlen < datagramLen) then
    nullreturnIpr pbufcount before ipr after
  else
    match chainFragIntoDatagramAndValidate ipr packet clen isLast with
    | .failed => none
    | .pbufDropped => nullreturnIpr pbufcount before ipr after
    | .pbufQueued queue =>
        some (⟨before ++ ipr.enqueue isLast datagramLen queue :: after,
          (pbufcount + clen) % 2 ^ 16⟩, none)
    | .telegramFinished queue =>
        let pbufcount := (pbufcount + clen) % 2 ^ 16
        let datagramLen := (ipr.enqueue isLast datagramLen queue).datagramLen
        if pbufcount < clens queue then none
        else
          some (⟨before ++ after, pbufcount - clens queue⟩,
            some ⟨ipr.iphdr, (datagramLen + ipHlen) % 2 ^ 16, queue.flatMap Helper.data⟩)

/-- The header of the first fragment replaces that of another one. -/
def Reassdata.copyHeader (ipr : Reassdata) (packet : Packet) : Reassdata :=
  if packet.offset = 0 ∧ ipr.iphdrOffset ≠ 0 then
    { ipr with iphdr := packet.header, iphdrOffset := packet.offset }
  else ipr

/-- `ip4_reass` once there is room for the fragment. -/
def findDatagram (cfg : Config) (state : State) (packet : Packet) (clen : Nat) :
    Option (State × Option Datagram) :=
  match state.reassdatagrams.span fun ipr => ipr.iphdr.key ≠ packet.header.key with
  | (before, ipr :: after) =>
      addFragment state.pbufcount before (ipr.copyHeader packet) after packet clen
  | (_, []) =>
      match enqueueNewDatagram cfg state packet.header packet.offset clen with
      | none => none
      | some (state, false) => some (state, none)
      | some (state, true) =>
          match state.reassdatagrams with
          | [] => none
          | ipr :: after => addFragment state.pbufcount [] ipr after packet clen

/-- `ip4_reass` of a packet in so many `pbuf`s. -/
def ip4Reass (cfg : Config) (state : State) (packet : Packet) (clen : Nat) :
    Option (State × Option Datagram) :=
  if packet.hlBytes ≠ ipHlen then some (state, none)
  else if packet.len < packet.hlBytes then some (state, none)
  else if cfg.maxPbufs < state.pbufcount + clen then
    match removeOldestDatagram state packet.header clen with
    | none => none
    | some (state, freed) =>
        if freed = 0 ∨ cfg.maxPbufs < state.pbufcount + clen then some (state, none)
        else findDatagram cfg state packet clen
  else findDatagram cfg state packet clen

end EmbeddedRtps.Ip
