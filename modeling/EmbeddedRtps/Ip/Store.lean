import EmbeddedRtps.Ip.Queue
import Mathlib.Algebra.Order.BigOperators.Group.List
import Mathlib.Algebra.Order.Group.Nat
import Mathlib.Data.List.Perm.Basic
import Mathlib.Data.List.TakeWhile

/-!
# The fragments of all datagrams

What a call of `ip4_reass` or of the timer can do to the store, said once, and the invariant
that both keep: there is one entry for each datagram, its queue is in order, and the number
of `pbuf`s is that of the fragments in all queues.
-/

namespace EmbeddedRtps.Ip

open Foundation

/-- The `pbuf`s in all queues. -/
def pbufs (datagrams : List Reassdata) : Nat :=
  (datagrams.map fun ipr => clens ipr.p).sum

/-- The store between calls. -/
structure Inv (cfg : Config) (state : State) : Prop where
  distinct : (state.reassdatagrams.map fun ipr => ipr.iphdr.key).Nodup
  nonempty : ∀ ipr ∈ state.reassdatagrams, ipr.p ≠ []
  sound : ∀ ipr ∈ state.reassdatagrams, Sound ipr.p
  count : state.pbufcount = pbufs state.reassdatagrams
  bound : state.pbufcount ≤ cfg.maxPbufs

/-- Datagrams have been given up, but not the one with the key. -/
structure Thinned (key : Nat × Nat × Nat) (state state' : State) : Prop where
  sublist : state'.reassdatagrams.Sublist state.reassdatagrams
  kept : ∀ ipr ∈ state.reassdatagrams, ipr.iphdr.key = key → ipr ∈ state'.reassdatagrams

theorem Thinned.refl (key : Nat × Nat × Nat) (state : State) : Thinned key state state :=
  ⟨.refl _, fun _ member _ => member⟩

theorem Thinned.trans {key : Nat × Nat × Nat} {state state' state'' : State}
    (first : Thinned key state state') (second : Thinned key state' state'') :
    Thinned key state state'' :=
  ⟨second.sublist.trans first.sublist, fun ipr member same =>
    second.kept ipr (first.kept ipr member same) same⟩

variable {cfg : Config} {state : State}

/-! ## Giving up -/

/-- The oldest datagram is not that of the fragment. -/
theorem oldestLoop_spec {fraghdr : Header} {datagrams : List Reassdata} {index : Nat}
    {oldest : Option (Nat × Nat)} {found : Nat × Nat}
    (search : oldestLoop fraghdr datagrams index oldest = some found) :
    oldest = some found ∨ ∃ ahead ipr, found.1 = index + ahead ∧
      datagrams[ahead]? = some ipr ∧ ipr.iphdr.key ≠ fraghdr.key := by
  induction datagrams generalizing index oldest with
  | nil => exact .inl search
  | cons r next ih =>
      rw [oldestLoop] at search
      rcases ih search with found | ⟨ahead, ipr, place, found, other⟩
      · split at found
        next => exact .inl found
        next other =>
          split at found
          next =>
            cases found
            exact .inr ⟨0, r, rfl, rfl, other⟩
          next => exact .inl found
      · exact .inr ⟨ahead + 1, ipr, by omega, found, other⟩

section Free

variable (inv : Inv cfg state) (narrow : cfg.maxPbufs ≤ 0xffff)

include inv narrow

/-- A datagram of the store can be given up. -/
theorem freeCompleteDatagram_spec {index : Nat} {ipr : Reassdata}
    (found : state.reassdatagrams[index]? = some ipr) :
    ∃ state', freeCompleteDatagram state index = some (state', clens ipr.p) ∧
      Inv cfg state' ∧ state'.reassdatagrams = state.reassdatagrams.eraseIdx index := by
  obtain ⟨inside, same⟩ := List.getElem?_eq_some_iff.mp found
  have member : ipr ∈ state.reassdatagrams := same ▸ List.getElem_mem inside
  have split : pbufs state.reassdatagrams =
      clens ipr.p + pbufs (state.reassdatagrams.eraseIdx index) := by
    have perm := (List.getElem_cons_eraseIdx_perm inside).map fun ipr => clens ipr.p
    rw [same] at perm
    exact perm.sum_eq.symm.trans List.sum_cons
  have count := inv.count
  have bound := inv.bound
  have valid : ¬ (ipr.p = [] ∨ 0xffff < clens ipr.p ∨ state.pbufcount < clens ipr.p) := by
    rintro (empty | large | few)
    · exact inv.nonempty ipr member empty
    · omega
    · omega
  rw [freeCompleteDatagram, found]
  dsimp only
  rw [if_neg valid]
  have sublist := List.eraseIdx_sublist state.reassdatagrams index
  refine ⟨_, rfl, ⟨inv.distinct.sublist (sublist.map _), fun ipr member => ?_, fun ipr member => ?_,
    ?_, ?_⟩, rfl⟩
  · exact inv.nonempty ipr (sublist.subset member)
  · exact inv.sound ipr (sublist.subset member)
  · show state.pbufcount - clens ipr.p = pbufs (state.reassdatagrams.eraseIdx index)
    omega
  · exact (Nat.sub_le _ _).trans bound

omit inv in
theorem removeOldestLoop_spec {fraghdr : Header} {pbufsNeeded turns : Nat} (state : State)
    (inv : Inv cfg state) (pbufsFreed : Nat)
    (enough : state.reassdatagrams.length < turns) :
    ∃ state' freed, removeOldestLoop fraghdr pbufsNeeded turns state pbufsFreed =
        some (state', freed) ∧
      Inv cfg state' ∧ Thinned fraghdr.key state state' := by
  induction turns generalizing state pbufsFreed with
  | zero => omega
  | succ turns ih =>
      rw [removeOldestLoop]
      cases search : oldestLoop fraghdr state.reassdatagrams 0 none with
      | none => exact ⟨state, pbufsFreed, rfl, inv, .refl _ _⟩
      | some found =>
          obtain ⟨oldest, timer⟩ := found
          obtain found | ⟨ahead, ipr, place, found, other⟩ := oldestLoop_spec search
          · cases found
          have place : oldest = ahead := by simpa using place
          subst place
          obtain ⟨state', freed, inv', erased⟩ := freeCompleteDatagram_spec inv narrow found
          obtain ⟨inside, same⟩ := List.getElem?_eq_some_iff.mp found
          have thinned : Thinned fraghdr.key state state' := by
            refine ⟨erased ▸ List.eraseIdx_sublist _ _, fun ipr' member own => ?_⟩
            rw [erased]
            have perm := List.getElem_cons_eraseIdx_perm inside
            rcases List.mem_cons.mp (perm.symm.subset member) with rfl | member
            · exact absurd (same ▸ own) other
            · exact member
          dsimp only
          rw [freed]
          dsimp only
          split
          next =>
            have shorter : state'.reassdatagrams.length < turns := by
              rw [erased, List.length_eraseIdx_of_lt inside]
              omega
            obtain ⟨final, total, looped, inv'', thinned'⟩ := ih state' inv' _ shorter
            exact ⟨final, total, looped, inv'', thinned.trans thinned'⟩
          next => exact ⟨state', _, rfl, inv', thinned⟩

theorem removeOldestDatagram_spec (fraghdr : Header) (pbufsNeeded : Nat) :
    ∃ state' freed, removeOldestDatagram state fraghdr pbufsNeeded = some (state', freed) ∧
      Inv cfg state' ∧ Thinned fraghdr.key state state' :=
  removeOldestLoop_spec narrow state inv 0 (Nat.lt_succ_self _)

end Free

/-! ## The timer -/

/-- Each entry was there before, with another timer. -/
structure Aged (state state' : State) : Prop where
  entries : ∀ ipr ∈ state'.reassdatagrams, ∃ old ∈ state.reassdatagrams,
    ipr = { old with timer := ipr.timer }
  length_le : state'.reassdatagrams.length ≤ state.reassdatagrams.length
  pbufcount_le : state'.pbufcount ≤ state.pbufcount

theorem Aged.refl (state : State) : Aged state state :=
  ⟨fun ipr member => ⟨ipr, member, rfl⟩, Nat.le_refl _, Nat.le_refl _⟩

theorem Aged.trans {state' state'' : State} (first : Aged state state')
    (second : Aged state' state'') : Aged state state'' := by
  refine ⟨fun ipr member => ?_, second.length_le.trans first.length_le,
    second.pbufcount_le.trans first.pbufcount_le⟩
  obtain ⟨middle, member, same⟩ := second.entries ipr member
  obtain ⟨old, member, same'⟩ := first.entries middle member
  refine ⟨old, member, ?_⟩
  rw [same, same']

theorem Inv.pbufcount_le {state' : State} (inv : Inv cfg state) (inv' : Inv cfg state')
    (sublist : state'.reassdatagrams.Sublist state.reassdatagrams) :
    state'.pbufcount ≤ state.pbufcount := by
  rw [inv.count, inv'.count]
  exact (sublist.map fun ipr : Reassdata => clens ipr.p).sum_le_sum fun _ _ => Nat.zero_le _

theorem Inv.aged_of_sublist {state' : State} (inv : Inv cfg state) (inv' : Inv cfg state')
    (sublist : state'.reassdatagrams.Sublist state.reassdatagrams) : Aged state state' :=
  ⟨fun ipr member => ⟨ipr, sublist.subset member, rfl⟩, sublist.length_le,
    inv.pbufcount_le inv' sublist⟩

theorem Inv.setTimer (inv : Inv cfg state) {index : Nat} {r : Reassdata}
    (found : state.reassdatagrams[index]? = some r) (timer : Nat) :
    Inv cfg { state with
        reassdatagrams := state.reassdatagrams.set index { r with timer := timer } } ∧
      Aged state { state with
        reassdatagrams := state.reassdatagrams.set index { r with timer := timer } } := by
  obtain ⟨inside, same⟩ := List.getElem?_eq_some_iff.mp found
  have member : r ∈ state.reassdatagrams := same ▸ List.getElem_mem inside
  -- no field that matters here changes
  have unchanged : ∀ {Value : Type} (field : Reassdata → Value),
      field { r with timer := timer } = field r →
      (state.reassdatagrams.set index { r with timer := timer }).map field =
        state.reassdatagrams.map field := by
    intro Value field fieldSame
    apply List.ext_getElem?
    intro position
    rw [List.getElem?_map, List.getElem?_map, List.getElem?_set]
    split
    next here =>
      rw [← here, found, Option.map_some, Option.map_some, fieldSame]
    next => rfl
  have entries : ∀ ipr ∈ state.reassdatagrams.set index { r with timer := timer },
      ∃ old ∈ state.reassdatagrams, ipr = { old with timer := ipr.timer } := by
    intro ipr changed
    rcases List.mem_or_eq_of_mem_set changed with old | rfl
    · exact ⟨ipr, old, rfl⟩
    · exact ⟨r, member, rfl⟩
  refine ⟨⟨?_, fun ipr changed => ?_, fun ipr changed => ?_, ?_, inv.bound⟩, entries,
    Nat.le_of_eq List.length_set, Nat.le_refl _⟩
  · exact (unchanged (fun ipr => ipr.iphdr.key) rfl) ▸ inv.distinct
  · obtain ⟨old, member, same⟩ := entries ipr changed
    rw [same]
    exact inv.nonempty old member
  · obtain ⟨old, member, same⟩ := entries ipr changed
    rw [same]
    exact inv.sound old member
  · rw [pbufs, unchanged (fun ipr => clens ipr.p) rfl]
    exact inv.count

theorem tmrLoop_spec (narrow : cfg.maxPbufs ≤ 0xffff) (inv : Inv cfg state)
    (turns index : Nat) :
    ∃ state', tmrLoop turns index state = some state' ∧ Inv cfg state' ∧
      Aged state state' := by
  induction turns generalizing state index with
  | zero => exact ⟨state, rfl, inv, .refl state⟩
  | succ turns ih =>
      rw [tmrLoop]
      cases found : state.reassdatagrams[index]? with
      | none => exact ⟨state, rfl, inv, .refl state⟩
      | some r =>
          dsimp only
          split
          next =>
            obtain ⟨inv', aged⟩ := inv.setTimer found (r.timer - 1)
            obtain ⟨final, looped, inv'', aged'⟩ := ih inv' (index + 1)
            exact ⟨final, looped, inv'', aged.trans aged'⟩
          next =>
            obtain ⟨state', freed, inv', erased⟩ := freeCompleteDatagram_spec inv narrow found
            rw [freed]
            obtain ⟨final, looped, inv'', aged⟩ := ih inv' index
            exact ⟨final, looped, inv'', (inv.aged_of_sublist inv'
              (erased ▸ List.eraseIdx_sublist _ _)).trans aged⟩

theorem ipReassTmr_spec (narrow : cfg.maxPbufs ≤ 0xffff) (inv : Inv cfg state) :
    ∃ state', ipReassTmr state = some state' ∧ Inv cfg state' ∧ Aged state state' :=
  tmrLoop_spec narrow inv _ 0

theorem freeCompleteDatagram_cons {base : State} {index : Nat} {result : State × Nat}
    (freed : freeCompleteDatagram base index = some result) (ipr : Reassdata) (extra : Nat) :
    freeCompleteDatagram ⟨ipr :: base.reassdatagrams, base.pbufcount + extra⟩ (index + 1) =
      some (⟨ipr :: result.1.reassdatagrams, result.1.pbufcount + extra⟩, result.2) := by
  rw [freeCompleteDatagram] at freed
  rw [freeCompleteDatagram, List.getElem?_cons_succ]
  cases found : base.reassdatagrams[index]? with
  | none => simp [found] at freed
  | some r =>
      rw [found] at freed
      dsimp only at freed ⊢
      split at freed
      next => cases freed
      next valid =>
        cases freed
        obtain ⟨used, short, enough⟩ := (not_or.mp valid).imp_right not_or.mp
        rw [if_neg (not_or.mpr ⟨used, not_or.mpr ⟨short, by omega⟩⟩),
          Nat.sub_add_comm (Nat.not_lt.mp enough)]
        rfl

/-- An entry in front does not matter to the others. -/
theorem tmrLoop_cons {base base' : State} {turns index : Nat}
    (looped : tmrLoop turns index base = some base') (ipr : Reassdata) (extra : Nat) :
    tmrLoop turns (index + 1) ⟨ipr :: base.reassdatagrams, base.pbufcount + extra⟩ =
      some ⟨ipr :: base'.reassdatagrams, base'.pbufcount + extra⟩ := by
  induction turns generalizing index base with
  | zero =>
      cases looped
      rfl
  | succ turns ih =>
      rw [tmrLoop, List.getElem?_cons_succ]
      rw [tmrLoop] at looped
      cases found : base.reassdatagrams[index]? with
      | none =>
          rw [found] at looped
          cases looped
          rfl
      | some r =>
          rw [found] at looped
          dsimp only at looped ⊢
          by_cases running : 0 < r.timer
          · rw [if_pos running] at looped ⊢
            exact ih looped
          · rw [if_neg running] at looped ⊢
            cases freed : freeCompleteDatagram base index with
            | none => simp [freed] at looped
            | some result =>
                rw [freed] at looped
                rw [freeCompleteDatagram_cons freed]
                exact ih looped

/-- The timer of an entry in front. -/
theorem ipReassTmr_cons {base base' : State} (called : ipReassTmr base = some base')
    {ipr : Reassdata} (running : 0 < ipr.timer) (extra : Nat) :
    ipReassTmr ⟨ipr :: base.reassdatagrams, base.pbufcount + extra⟩ =
      some ⟨{ ipr with timer := ipr.timer - 1 } :: base'.reassdatagrams,
        base'.pbufcount + extra⟩ := by
  rw [ipReassTmr, List.length_cons, tmrLoop, List.getElem?_cons_zero]
  dsimp only
  rw [if_pos running, List.set_cons_zero]
  exact tmrLoop_cons called _ extra

/-! ## Fragments -/

/-- A new entry. -/
def Reassdata.fresh (cfg : Config) (packet : Packet) : Reassdata where
  p := []
  iphdr := packet.header
  iphdrOffset := packet.offset
  datagramLen := 0
  lastFrag := false
  timer := cfg.maxAge

/-- An entry with a fragment more, if nothing wraps around. -/
def Reassdata.update (ipr : Reassdata) (packet : Packet) (queue : List Helper) : Reassdata :=
  ipr.enqueue (!packet.mf) (packet.offset * 8 + packet.data.length) queue

/-- The entry of the fragment, which was there or is new, with those before and after it. -/
inductive Focus (cfg : Config) (packet : Packet) (datagrams : List Reassdata) :
    List Reassdata → Reassdata → List Reassdata → Prop where
  | old {before : List Reassdata} {ipr : Reassdata} {after : List Reassdata}
      (split : datagrams = before ++ ipr :: after)
      (same : ipr.iphdr.key = packet.header.key) :
      Focus cfg packet datagrams before (ipr.copyHeader packet) after
  | new (none : ∀ ipr ∈ datagrams, ipr.iphdr.key ≠ packet.header.key) :
      Focus cfg packet datagrams [] (.fresh cfg packet) datagrams

/-- The fragment cannot be part of a datagram. -/
def Invalid (packet : Packet) : Prop :=
  packet.hlBytes ≠ ipHlen ∨ packet.len < packet.hlBytes ∨
    2 ^ 16 ≤ packet.offset * 8 + packet.data.length ∨
    packet.mf = false ∧ 0xffff - ipHlen < packet.offset * 8 + packet.data.length

/-- There is a place for the fragment without giving anything up. -/
def Roomy (cfg : Config) (state : State) (packet : Packet) (clen : Nat) : Prop :=
  state.pbufcount + clen ≤ cfg.maxPbufs ∧
    (state.reassdatagrams.length < cfg.numReassdata ∨
      ∃ ipr ∈ state.reassdatagrams, ipr.iphdr.key = packet.header.key)

/-- Datagrams have been given up, for lack of room only. -/
structure MadeRoom (cfg : Config) (packet : Packet) (clen : Nat) (state state' : State) :
    Prop where
  inv : Inv cfg state'
  thinned : Thinned packet.header.key state state'
  only : Roomy cfg state packet clen → state' = state

/-- What a call of `ip4_reass` can do. -/
inductive Reassembled (cfg : Config) (packet : Packet) (clen : Nat) (state : State) :
    State → Option Datagram → Prop where
  /-- There is no room, or the first fragment of a datagram is invalid. -/
  | ignored {state' : State} (madeRoom : MadeRoom cfg packet clen state state')
      (reason : Invalid packet ∨ ¬ Roomy cfg state packet clen) :
      Reassembled cfg packet clen state state' none
  /-- The fragment is invalid or overlaps. -/
  | refused {middle : State} {before after : List Reassdata} {ipr : Reassdata}
      (madeRoom : MadeRoom cfg packet clen state middle)
      (split : middle.reassdatagrams = before ++ ipr :: after)
      (same : ipr.iphdr.key = packet.header.key)
      (reason : Invalid packet ∨ Overlaps (packet.helper clen) ipr.p) :
      Reassembled cfg packet clen state
        ⟨before ++ ipr.copyHeader packet :: after, middle.pbufcount⟩ none
  | queued {middle : State} {before after : List Reassdata} {ipr : Reassdata}
      {front next queue : List Helper}
      (madeRoom : MadeRoom cfg packet clen state middle)
      (room : middle.pbufcount + clen ≤ cfg.maxPbufs) (valid : ¬ Invalid packet)
      (focus : Focus cfg packet middle.reassdatagrams before ipr after)
      (inserted : Inserted (packet.helper clen) ipr.p front next queue)
      (incomplete : ¬ Complete ipr packet queue) :
      Reassembled cfg packet clen state
        ⟨before ++ ipr.update packet queue :: after, middle.pbufcount + clen⟩ none
  | finished {middle : State} {before after : List Reassdata} {ipr : Reassdata}
      {front next queue : List Helper}
      (madeRoom : MadeRoom cfg packet clen state middle)
      (room : middle.pbufcount + clen ≤ cfg.maxPbufs) (valid : ¬ Invalid packet)
      (focus : Focus cfg packet middle.reassdatagrams before ipr after)
      (inserted : Inserted (packet.helper clen) ipr.p front next queue)
      (complete : Complete ipr packet queue) :
      Reassembled cfg packet clen state
        ⟨before ++ after, middle.pbufcount + clen - clens queue⟩
        (some ⟨ipr.iphdr, ((ipr.update packet queue).datagramLen + ipHlen) % 2 ^ 16,
          queue.flatMap Helper.data⟩)

@[simp] theorem Reassdata.p_copyHeader (ipr : Reassdata) (packet : Packet) :
    (ipr.copyHeader packet).p = ipr.p := by
  rw [copyHeader]
  split <;> rfl

@[simp] theorem Reassdata.lastFrag_copyHeader (ipr : Reassdata) (packet : Packet) :
    (ipr.copyHeader packet).lastFrag = ipr.lastFrag := by
  rw [copyHeader]
  split <;> rfl

@[simp] theorem Reassdata.timer_copyHeader (ipr : Reassdata) (packet : Packet) :
    (ipr.copyHeader packet).timer = ipr.timer := by
  rw [copyHeader]
  split <;> rfl

theorem Reassdata.key_copyHeader {ipr : Reassdata} {packet : Packet}
    (same : ipr.iphdr.key = packet.header.key) :
    (ipr.copyHeader packet).iphdr.key = packet.header.key := by
  rw [copyHeader]
  split
  · rfl
  · exact same

section Step

variable {packet : Packet} {clen : Nat} {middle : State} {before after : List Reassdata}
variable {ipr : Reassdata}

theorem Focus.sound (focus : Focus cfg packet middle.reassdatagrams before ipr after)
    (inv : Inv cfg middle) : Sound ipr.p ∧ (ipr.lastFrag = true → ipr.p ≠ []) := by
  cases focus with
  | @old _ ipr _ split _ =>
      have member : ipr ∈ middle.reassdatagrams := by simp [split]
      rw [Reassdata.p_copyHeader]
      exact ⟨inv.sound ipr member, fun _ => inv.nonempty ipr member⟩
  | new _ => exact ⟨⟨.nil, nofun⟩, nofun⟩

theorem Focus.clens_le (focus : Focus cfg packet middle.reassdatagrams before ipr after)
    (inv : Inv cfg middle) : clens ipr.p ≤ middle.pbufcount := by
  cases focus with
  | @old _ ipr _ split _ =>
      rw [Reassdata.p_copyHeader, inv.count, split, pbufs]
      simp only [List.map_append, List.map_cons, List.sum_append, List.sum_cons]
      omega
  | new _ => exact Nat.zero_le _

theorem Inserted.clens_eq {old front next queue : List Helper}
    (inserted : Inserted (packet.helper clen) old front next queue) :
    clens queue = clens old + clen := by
  simp only [inserted.old_eq, inserted.queue_eq, clens, List.map_append, List.map_cons,
    List.sum_append, List.sum_cons, Packet.helper]
  omega

theorem nullreturnIpr_spec (madeRoom : MadeRoom cfg packet clen state middle)
    (focus : Focus cfg packet middle.reassdatagrams before ipr after)
    (reason : Invalid packet ∨ Overlaps (packet.helper clen) ipr.p) :
    ∃ state' out, nullreturnIpr middle.pbufcount before ipr after = some (state', out) ∧
      Reassembled cfg packet clen state state' out := by
  rw [nullreturnIpr]
  cases focus with
  | @old _ ipr _ split same =>
      have member : ipr ∈ middle.reassdatagrams := by simp [split]
      rw [Reassdata.p_copyHeader, if_neg (madeRoom.inv.nonempty ipr member)]
      exact ⟨_, _, rfl, .refused madeRoom split same (by simpa using reason)⟩
  | new none =>
      have invalid : Invalid packet := reason.resolve_right nofun
      exact ⟨middle, _, rfl, .ignored madeRoom (.inl invalid)⟩

theorem addFragment_spec (narrow : cfg.maxPbufs ≤ 0xffff) (received : Received packet clen)
    (madeRoom : MadeRoom cfg packet clen state middle)
    (plain : packet.hlBytes = ipHlen) (header : ¬ packet.len < packet.hlBytes)
    (room : middle.pbufcount + clen ≤ cfg.maxPbufs)
    (focus : Focus cfg packet middle.reassdatagrams before ipr after) :
    ∃ state' out, addFragment middle.pbufcount before ipr after packet clen =
        some (state', out) ∧ Reassembled cfg packet clen state state' out := by
  obtain ⟨sound, known⟩ := focus.sound madeRoom.inv
  have offset := received.offset_lt
  have len := received.len_lt
  rw [addFragment, ← received.trimmed]
  dsimp only
  by_cases long : (!packet.mf) = true ∧
      ((packet.offset * 8 + packet.data.length) % 2 ^ 16 < packet.offset * 8 ∨
        0xffff - ipHlen < (packet.offset * 8 + packet.data.length) % 2 ^ 16)
  · rw [if_pos long]
    refine nullreturnIpr_spec madeRoom focus (.inl ?_)
    have last : packet.mf = false := by simpa using long.1
    rcases long.2 with wraps | long
    · exact .inr (.inr (.inl (by omega)))
    · exact .inr (.inr (.inr ⟨last, by omega⟩))
  rw [if_neg long, Nat.mod_eq_of_lt (show middle.pbufcount + clen < 2 ^ 16 by omega)]
  rcases chain_spec sound known received with
    ⟨dropped, reason⟩ | ⟨fits, front, next, queue, inserted, chained⟩
  · rw [dropped]
    refine nullreturnIpr_spec madeRoom focus ?_
    rcases reason with invalid | invalid | overlaps
    · exact .inl (.inr (.inl invalid))
    · exact .inl (.inr (.inr (.inl invalid)))
    · exact .inr overlaps
  have fits : packet.offset * 8 + packet.data.length < 2 ^ 16 := fits
  rw [Nat.mod_eq_of_lt fits] at long ⊢
  have valid : ¬ Invalid packet := by
    rintro (options | short | wraps | ⟨last, tooLong⟩)
    · exact options plain
    · exact header short
    · omega
    · exact long ⟨by rw [last, Bool.not_false], .inr tooLong⟩
  rcases chained with ⟨queued, incomplete⟩ | ⟨finished, complete⟩
  · rw [queued]
    exact ⟨_, _, rfl, .queued madeRoom room valid focus inserted incomplete⟩
  · have enough : ¬ middle.pbufcount + clen < clens queue := by
      have := focus.clens_le madeRoom.inv
      have := inserted.clens_eq
      omega
    rw [finished]
    dsimp only
    rw [if_neg enough]
    exact ⟨_, _, rfl, .finished madeRoom room valid focus inserted complete⟩

theorem span_spec (datagrams : List Reassdata) (key : Nat × Nat × Nat) :
    (∃ before ipr after, (datagrams.span fun ipr => ipr.iphdr.key ≠ key) =
        (before, ipr :: after) ∧
      datagrams = before ++ ipr :: after ∧ ipr.iphdr.key = key) ∨
      (∃ before, (datagrams.span fun ipr => ipr.iphdr.key ≠ key) = (before, [])) ∧
        ∀ ipr ∈ datagrams, ipr.iphdr.key ≠ key := by
  rw [List.span_eq_takeWhile_dropWhile]
  cases rest : datagrams.dropWhile fun ipr => ipr.iphdr.key ≠ key with
  | nil =>
      refine .inr ⟨⟨_, rfl⟩, ?_⟩
      rw [List.dropWhile_eq_nil_iff] at rest
      simpa using rest
  | cons ipr after =>
      refine .inl ⟨_, ipr, after, rfl, ?_, ?_⟩
      · rw [← rest, List.takeWhile_append_dropWhile]
      · have stopped := List.head?_dropWhile_not
          (fun ipr : Reassdata => decide (ipr.iphdr.key ≠ key)) datagrams
        rw [rest] at stopped
        simpa using stopped

theorem enqueueNewDatagram_spec (narrow : cfg.maxPbufs ≤ 0xffff)
    (madeRoom : MadeRoom cfg packet clen state middle)
    (none : ∀ ipr ∈ middle.reassdatagrams, ipr.iphdr.key ≠ packet.header.key) :
    ∃ middle', MadeRoom cfg packet clen state middle' ∧
      (∀ ipr ∈ middle'.reassdatagrams, ipr.iphdr.key ≠ packet.header.key) ∧
      (middle.pbufcount + clen ≤ cfg.maxPbufs → middle'.pbufcount + clen ≤ cfg.maxPbufs) ∧
      (enqueueNewDatagram cfg middle packet.header packet.offset clen =
          some (⟨.fresh cfg packet :: middle'.reassdatagrams, middle'.pbufcount⟩, true) ∨
        enqueueNewDatagram cfg middle packet.header packet.offset clen =
          some (middle', false) ∧ ¬ Roomy cfg state packet clen) := by
  rw [enqueueNewDatagram]
  dsimp only
  split
  next free => exact ⟨middle, madeRoom, none, id, .inl rfl⟩
  next full =>
    obtain ⟨middle', freed, removed, inv, thinned⟩ :=
      removeOldestDatagram_spec madeRoom.inv narrow packet.header clen
    have crowded : ¬ Roomy cfg state packet clen := by
      intro roomy
      rw [madeRoom.only roomy] at full none
      rcases roomy.2 with free | ⟨ipr, member, same⟩
      · exact full free
      · exact none ipr member same
    have madeRoom' : MadeRoom cfg packet clen state middle' :=
      ⟨inv, madeRoom.thinned.trans thinned, fun roomy => absurd roomy crowded⟩
    refine ⟨middle', madeRoom', fun ipr member => none ipr (thinned.sublist.subset member),
      ?_, ?_⟩
    · have fewer := madeRoom.inv.pbufcount_le inv thinned.sublist
      omega
    · rw [removed]
      dsimp only
      split
      next => exact .inl rfl
      next => exact .inr ⟨rfl, crowded⟩

theorem findDatagram_spec (narrow : cfg.maxPbufs ≤ 0xffff) (received : Received packet clen)
    (madeRoom : MadeRoom cfg packet clen state middle)
    (plain : packet.hlBytes = ipHlen) (header : ¬ packet.len < packet.hlBytes)
    (room : middle.pbufcount + clen ≤ cfg.maxPbufs) :
    ∃ state' out, findDatagram cfg middle packet clen = some (state', out) ∧
      Reassembled cfg packet clen state state' out := by
  rw [findDatagram]
  rcases span_spec middle.reassdatagrams packet.header.key with
    ⟨before, ipr, after, found, split, same⟩ | ⟨⟨before, missing⟩, none⟩
  · rw [found]
    exact addFragment_spec narrow received madeRoom plain header room (.old split same)
  · rw [missing]
    obtain ⟨middle', madeRoom', none', room', enqueued | ⟨refused, crowded⟩⟩ :=
      enqueueNewDatagram_spec narrow madeRoom none
    · dsimp only
      rw [enqueued]
      have added := addFragment_spec narrow received madeRoom' plain header (room' room)
        (.new none')
      exact added
    · dsimp only
      rw [refused]
      exact ⟨middle', _, rfl, .ignored madeRoom' (.inr crowded)⟩

/-- A call returns, and does one of the four things. -/
theorem ip4Reass_spec (narrow : cfg.maxPbufs ≤ 0xffff) (inv : Inv cfg state)
    (received : Received packet clen) :
    ∃ state' out, ip4Reass cfg state packet clen = some (state', out) ∧
      Reassembled cfg packet clen state state' out := by
  have unchanged : MadeRoom cfg packet clen state state := ⟨inv, .refl _ _, fun _ => rfl⟩
  rw [ip4Reass]
  by_cases plain : packet.hlBytes = ipHlen
  · rw [if_neg (not_not.mpr plain)]
    by_cases header : packet.len < packet.hlBytes
    · rw [if_pos header]
      exact ⟨state, _, rfl, .ignored unchanged (.inl (.inr (.inl header)))⟩
    rw [if_neg header]
    by_cases crowded : cfg.maxPbufs < state.pbufcount + clen
    · rw [if_pos crowded]
      obtain ⟨middle, freed, removed, inv', thinned⟩ :=
        removeOldestDatagram_spec inv narrow packet.header clen
      have notRoomy : ¬ Roomy cfg state packet clen := fun roomy => Nat.not_lt.mpr roomy.1 crowded
      have madeRoom : MadeRoom cfg packet clen state middle :=
        ⟨inv', thinned, fun roomy => absurd roomy notRoomy⟩
      rw [removed]
      dsimp only
      split
      next => exact ⟨middle, _, rfl, .ignored madeRoom (.inr notRoomy)⟩
      next enough =>
        exact findDatagram_spec narrow received madeRoom plain header
          (Nat.not_lt.mp fun less => enough (.inr less))
    · rw [if_neg crowded]
      exact findDatagram_spec narrow received unchanged plain header (Nat.not_lt.mp crowded)
  · rw [if_pos plain]
    exact ⟨state, _, rfl, .ignored unchanged (.inl (.inl plain))⟩

/-! ## The invariant -/

theorem pbufs_append_cons (before after : List Reassdata) (ipr : Reassdata) :
    pbufs (before ++ ipr :: after) = pbufs (before ++ after) + clens ipr.p := by
  simp only [pbufs, List.map_append, List.map_cons, List.sum_append, List.sum_cons]
  omega

theorem Inv.remove (inv : Inv cfg middle)
    (split : middle.reassdatagrams = before ++ ipr :: after) {count : Nat}
    (counted : count + clens ipr.p = middle.pbufcount) : Inv cfg ⟨before ++ after, count⟩ := by
  have sublist : (before ++ after).Sublist middle.reassdatagrams :=
    split ▸ (List.sublist_cons_self ipr after).append_left before
  have total := inv.count
  rw [split, pbufs_append_cons] at total
  exact ⟨inv.distinct.sublist (sublist.map _),
    fun ipr member => inv.nonempty ipr (sublist.subset member),
    fun ipr member => inv.sound ipr (sublist.subset member),
    (by omega : count = pbufs (before ++ after)),
    (by have := inv.bound; omega : count ≤ cfg.maxPbufs)⟩

theorem Inv.insert {count : Nat} (inv : Inv cfg ⟨before ++ after, count⟩)
    (other : ∀ old ∈ before ++ after, old.iphdr.key ≠ ipr.iphdr.key)
    (nonempty : ipr.p ≠ []) (sound : Sound ipr.p)
    (bound : count + clens ipr.p ≤ cfg.maxPbufs) :
    Inv cfg ⟨before ++ ipr :: after, count + clens ipr.p⟩ := by
  have perm : (before ++ ipr :: after).Perm (ipr :: (before ++ after)) :=
    List.perm_middle
  refine ⟨?_, fun old member => ?_, fun old member => ?_, ?_, bound⟩
  · refine (perm.map _).nodup_iff.mpr (List.nodup_cons.mpr ⟨fun member => ?_, inv.distinct⟩)
    obtain ⟨old, member, same⟩ := List.mem_map.mp member
    exact other old member same
  · rcases List.mem_cons.mp (perm.subset member) with rfl | member
    · exact nonempty
    · exact inv.nonempty old member
  · rcases List.mem_cons.mp (perm.subset member) with rfl | member
    · exact sound
    · exact inv.sound old member
  · rw [pbufs_append_cons]
    exact congrArg (· + clens ipr.p) inv.count

/-- The store without the entry of a fragment. -/
theorem Focus.rest (focus : Focus cfg packet middle.reassdatagrams before ipr after)
    (inv : Inv cfg middle) :
    Inv cfg ⟨before ++ after, middle.pbufcount - clens ipr.p⟩ ∧
      (∀ old ∈ before ++ after, old.iphdr.key ≠ packet.header.key) ∧
      ipr.iphdr.key = packet.header.key := by
  have enough := focus.clens_le inv
  cases focus with
  | @old _ ipr _ split same =>
      rw [Reassdata.p_copyHeader] at enough ⊢
      refine ⟨inv.remove split (by omega), fun old member => ?_,
        Reassdata.key_copyHeader same⟩
      have distinct := inv.distinct
      rw [split, (List.perm_middle.map _).nodup_iff] at distinct
      rw [← same]
      exact fun equal => (List.nodup_cons.mp distinct).1
        (List.mem_map.mpr ⟨old, member, equal⟩)
  | new none => exact ⟨inv, none, rfl⟩

theorem Inserted.ne_nil {old front next queue : List Helper} {iprh : Helper}
    (inserted : Inserted iprh old front next queue) : queue ≠ [] := by
  rw [inserted.queue_eq]
  exact List.append_ne_nil_of_right_ne_nil _ (List.cons_ne_nil _ _)

theorem Reassembled.inv {state' : State} {out : Option Datagram}
    (step : Reassembled cfg packet clen state state' out) : Inv cfg state' := by
  cases step with
  | ignored madeRoom _ => exact madeRoom.inv
  | @refused middle before after ipr madeRoom split same _ =>
      have focus : Focus cfg packet middle.reassdatagrams before _ after := .old split same
      obtain ⟨inv, other, key⟩ := focus.rest madeRoom.inv
      have member : ipr ∈ middle.reassdatagrams := by simp [split]
      have enough := focus.clens_le madeRoom.inv
      have bound := madeRoom.inv.bound
      have restored := inv.insert (key ▸ other)
        (by simpa using madeRoom.inv.nonempty ipr member)
        (by simpa using madeRoom.inv.sound ipr member) (by omega)
      rwa [Nat.sub_add_cancel enough] at restored
  | @queued middle before after ipr front next queue madeRoom room _ focus inserted _ =>
      obtain ⟨inv, other, key⟩ := focus.rest madeRoom.inv
      have enough := focus.clens_le madeRoom.inv
      have counted := inserted.clens_eq
      have added : Inv cfg ⟨before ++ ipr.update packet queue :: after,
          middle.pbufcount - clens ipr.p + clens queue⟩ :=
        inv.insert (key ▸ other) inserted.ne_nil
          (inserted.sound (focus.sound madeRoom.inv).1 (Nat.le_add_right _ _))
          (show middle.pbufcount - clens ipr.p + clens queue ≤ cfg.maxPbufs by omega)
      have total : middle.pbufcount - clens ipr.p + clens queue =
          middle.pbufcount + clen := by omega
      exact total ▸ added
  | @finished middle before after ipr front next queue madeRoom _ _ focus inserted _ =>
      obtain ⟨inv, -, -⟩ := focus.rest madeRoom.inv
      have counted := inserted.clens_eq
      have total : middle.pbufcount + clen - clens queue =
          middle.pbufcount - clens ipr.p := by omega
      exact total ▸ inv

end Step

end EmbeddedRtps.Ip
