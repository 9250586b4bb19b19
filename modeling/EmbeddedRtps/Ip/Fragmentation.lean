import EmbeddedRtps.Foundation.Segments
import Mathlib.Algebra.Ring.Nat

/-!
# IP fragmentation

`ip4_frag` sends a packet that is too large for the network interface in fragments.  Each
is a header in a `pbuf` of its own, followed by `pbuf`s that refer to parts of the payload
of the packet.  The packet may be a fragment itself.

If the room that the interface leaves for payload is a multiple of eight bytes, then the
fragments are pieces of the datagram that say truly where they belong and whether more
follows.  Otherwise the flag for more fragments may be cleared too early.
-/

namespace EmbeddedRtps.Ip

open Foundation

/-- `IP_HLEN`. -/
def ipHlen : Nat := 20

/-- The fields of `struct ip_hdr` that all fragments of a datagram have in common. -/
structure Header where
  id : Nat
  ttl : Nat
  proto : Nat
  src : Nat
  dest : Nat
  deriving DecidableEq, Repr

/-- A packet as it is on the way. -/
structure Packet where
  header : Header
  /-- `IPH_HL_BYTES`. -/
  hlBytes : Nat
  /-- `IPH_LEN`. -/
  len : Nat
  /-- The offset, in units of eight bytes. -/
  offset : Nat
  /-- `IP_MF`. -/
  mf : Bool
  /-- What follows the header. -/
  data : List UInt8
  deriving DecidableEq, Repr

/-- Where the data of packets belongs. -/
def placement : Layout Packet UInt8 where
  start packet := packet.offset * 8
  stop packet := packet.offset * 8 + packet.data.length
  items packet := packet.data

/-! ## The code -/

/-- What `ip4_frag` returns. -/
inductive FragErr where
  | errOk
  | errVal
  | errMem
  deriving DecidableEq, Repr

/-- Where the inner loop has got to: out of memory, or with so many bytes mirrored at a
position in a chain. -/
inductive Mirrored where
  | memerr
  | done (pieces chain : List (List UInt8)) (poff allocs : Nat)
  deriving DecidableEq, Repr

/-- The inner loop: it mirrors `left` bytes of a chain from `poff` in its first `pbuf` on.
The first `allocs` allocations succeed.  There is no result where an assertion fails or the
chain ends. -/
def mirror : List (List UInt8) → Nat → Nat → Nat → Option Mirrored
  | [], poff, left, allocs => if left = 0 then some (.done [] [] poff allocs) else none
  | p :: next, poff, left, allocs =>
      if left = 0 then some (.done [] (p :: next) poff allocs)
      else if p.length < poff then none
      else
        let newpbuflen := min left (p.length - poff)
        if newpbuflen = 0 then mirror next 0 left allocs
        else
          match allocs with
          | 0 => some .memerr
          | allocs + 1 =>
              let newpbuf := (p.drop poff).take newpbuflen
              if left - newpbuflen = 0 then
                some (.done [newpbuf] (p :: next) (poff + newpbuflen) allocs)
              else
                match mirror next 0 (left - newpbuflen) allocs with
                | some (.done pieces chain poff allocs) =>
                    some (.done (newpbuf :: pieces) chain poff allocs)
                | other => other

/-- The fragment that one turn of the loop sends, by what is left and where it begins. -/
def fragment (mtu : Nat) (header : Header) (mfSet : Bool) (left ofo : Nat)
    (data : List UInt8) : Packet where
  header := header
  hlBytes := ipHlen
  len := min left ((mtu - ipHlen) / 8 * 8) + ipHlen
  offset := ofo % 2 ^ 13
  mf := !decide (left ≤ mtu - ipHlen) || mfSet
  data := data

/-- The loop of `ip4_frag`.  There is no result if it does not end within so many turns. -/
def fragLoop (mtu : Nat) (header : Header) (mfSet : Bool) :
    Nat → Nat → Nat → List (List UInt8) → Nat → Nat → Option (List Packet × FragErr)
  | 0, left, _, _, _, _ => if left = 0 then some ([], .errOk) else none
  | turns + 1, left, ofo, chain, poff, allocs =>
      if left = 0 then some ([], .errOk)
      else
        let nfb := (mtu - ipHlen) / 8
        let fragsize := min left (nfb * 8)
        match allocs with
        | 0 => some ([], .errMem)
        | allocs + 1 =>
            match mirror chain poff fragsize allocs with
            | none => none
            | some .memerr => some ([], .errMem)
            | some (.done pieces chain poff allocs) =>
                let packet := fragment mtu header mfSet left ofo pieces.flatten
                (fragLoop mtu header mfSet turns (left - fragsize) (ofo + nfb) chain poff
                  allocs).map fun (sent, err) => (packet :: sent, err)

/-- `ip4_frag` of a packet that is given by its header and a chain of `pbuf`s, with the
header in the first one.  What is handed to the interface, and the result. -/
def ip4Frag (mtu : Nat) (header : Header) (hlBytes ofo : Nat) (mfSet : Bool)
    (chain : List (List UInt8)) (allocs : Nat) : Option (List Packet × FragErr) :=
  if hlBytes ≠ ipHlen then some ([], .errVal)
  else if (chain.headD []).length < ipHlen then some ([], .errVal)
  else
    let left := chain.flatten.length - ipHlen
    fragLoop mtu header mfSet left left ofo chain ipHlen allocs

/-! ## Mirrors -/

/-- The position lies within the first `pbuf`. -/
def Within (chain : List (List UInt8)) (poff : Nat) : Prop :=
  poff ≤ (chain.headD []).length

/-- The inner loop mirrors the next bytes of the chain, however the chain is divided, and
stands behind them. -/
theorem mirror_spec {chain : List (List UInt8)} {poff left : Nat} (allocs : Nat)
    (within : Within chain poff) (enough : left ≤ (chain.flatten.drop poff).length) :
    mirror chain poff left allocs = some .memerr ∨
      ∃ pieces chain' poff' allocs',
        mirror chain poff left allocs = some (.done pieces chain' poff' allocs') ∧
        pieces.flatten = (chain.flatten.drop poff).take left ∧
        Within chain' poff' ∧
        chain'.flatten.drop poff' = (chain.flatten.drop poff).drop left := by
  induction chain generalizing poff left allocs with
  | nil =>
      have none_left : left = 0 := by simpa using enough
      exact .inr ⟨[], [], poff, allocs, if_pos none_left, by simp, within, by simp⟩
  | cons p next ih =>
      have inside : poff ≤ p.length := within
      rw [mirror]
      split
      next none_left =>
        exact .inr ⟨[], p :: next, poff, allocs, rfl, by simp [none_left], within,
          by simp [none_left]⟩
      next some_left =>
        have bytes : (p :: next).flatten.drop poff = p.drop poff ++ next.flatten :=
          List.drop_append_of_le_length inside
        have size : (p.drop poff).length = p.length - poff := List.length_drop
        rw [bytes, List.length_append] at enough
        rw [if_neg (Nat.not_lt.mpr inside), bytes]
        by_cases used : p.length - poff = 0
        · -- the loop goes on with the next `pbuf`
          have empty : p.drop poff = [] := List.eq_nil_of_length_eq_zero (size.trans used)
          simp only [used, Nat.min_zero, if_true, empty, List.nil_append]
          exact ih allocs (Nat.zero_le _) (by simpa [empty] using enough)
        · have some_new : min left (p.length - poff) ≠ 0 := by omega
          simp only [if_neg some_new]
          cases allocs with
          | zero => exact .inl rfl
          | succ allocs =>
              by_cases fits : left ≤ p.length - poff
              · have all : left - min left (p.length - poff) = 0 := by omega
                rw [Nat.min_eq_left fits] at all ⊢
                simp only [all, if_true]
                refine .inr ⟨_, _, _, _, rfl, ?_, ?_, ?_⟩
                · rw [List.flatten_singleton, List.take_append_of_le_length (size ▸ fits)]
                · exact (Nat.add_le_of_le_sub' inside fits : poff + left ≤ p.length)
                · rw [List.flatten_cons, List.drop_append_of_le_length (by omega),
                    List.drop_append_of_le_length (size ▸ fits), List.drop_drop]
              · have some_more : left - (p.length - poff) ≠ 0 := by omega
                rw [Nat.min_eq_right (by omega)]
                simp only [if_neg some_more]
                have piece : (p.drop poff).take (p.length - poff) = p.drop poff :=
                  List.take_of_length_le (Nat.le_of_eq size)
                have taken : (p.drop poff).take left = p.drop poff :=
                  List.take_of_length_le (by omega)
                have dropped : (p.drop poff).drop left = [] :=
                  List.drop_eq_nil_of_le (by omega)
                have more : left - (p.length - poff) ≤ (next.flatten.drop 0).length := by
                  rw [List.drop_zero]
                  omega
                rcases ih allocs (Nat.zero_le _) more with
                  failed | ⟨pieces, chain', poff', allocs', done, flat, within', rest⟩
                · exact .inl (by rw [failed])
                · refine .inr ⟨_, _, _, _, by rw [done], ?_, within', ?_⟩
                  · rw [List.flatten_cons, flat, piece, List.drop_zero, List.take_append, size,
                      taken]
                  · rw [rest, List.drop_zero, List.drop_append, size, dropped, List.nil_append]

/-! ## Fragments -/

/-- The packet is a piece of the datagram and says truly which. -/
structure Genuine (header : Header) (whole : List UInt8) (packet : Packet) : Prop where
  header_eq : packet.header = header
  hlBytes_eq : packet.hlBytes = ipHlen
  len_eq : packet.len = packet.data.length + ipHlen
  offset_lt : packet.offset < 2 ^ 13
  cut : placement.CutFrom whole packet
  mf_iff : packet.mf = true ↔ placement.stop packet < whole.length

instance (header : Header) (whole : List UInt8) (packet : Packet) :
    Decidable (Genuine header whole packet) :=
  decidable_of_iff
    (packet.header = header ∧ packet.hlBytes = ipHlen ∧
      packet.len = packet.data.length + ipHlen ∧ packet.offset < 2 ^ 13 ∧
      (placement.start packet ≤ placement.stop packet ∧
        placement.stop packet ≤ whole.length ∧ placement.items packet =
          (whole.drop (placement.start packet)).take
            (placement.stop packet - placement.start packet)) ∧
      (packet.mf = true ↔ placement.stop packet < whole.length))
    ⟨fun ⟨header, hlBytes, len, offset, ⟨start, stop, items⟩, mf⟩ =>
        ⟨header, hlBytes, len, offset, ⟨start, stop, items⟩, mf⟩,
      fun ⟨header, hlBytes, len, offset, ⟨start, stop, items⟩, mf⟩ =>
        ⟨header, hlBytes, len, offset, ⟨start, stop, items⟩, mf⟩⟩

section Loop

variable {mtu : Nat} {header : Header} {mfSet : Bool} {whole : List UInt8}

theorem fragLoop_zero (turns ofo : Nat) (chain : List (List UInt8)) (poff allocs : Nat) :
    fragLoop mtu header mfSet turns 0 ofo chain poff allocs = some ([], .errOk) := by
  cases turns <;> rfl

theorem blocks_eq (aligned : mtu % 8 = 4) (roomy : 28 ≤ mtu) :
    (mtu - ipHlen) / 8 * 8 = mtu - ipHlen := by
  rw [ipHlen]
  omega

theorem room_pos (roomy : 28 ≤ mtu) : 0 < mtu - ipHlen :=
  Nat.sub_pos_of_lt (Nat.lt_of_lt_of_le (by decide) roomy)

/-- One turn: the fragment is a piece of the datagram that begins at the offset. -/
theorem fragment_spec (aligned : mtu % 8 = 4) (roomy : 28 ≤ mtu)
    (small : whole.length ≤ 2 ^ 16) {left ofo : Nat} {data : List UInt8}
    (some_left : left ≠ 0) (inside : ofo * 8 + left ≤ whole.length)
    (more : mfSet = true ↔ ofo * 8 + left < whole.length)
    (bytes : data = (whole.drop (ofo * 8)).take (min left (mtu - ipHlen))) :
    Genuine header whole (fragment mtu header mfSet left ofo data) ∧
      placement.start (fragment mtu header mfSet left ofo data) = ofo * 8 ∧
      placement.stop (fragment mtu header mfSet left ofo data) =
        ofo * 8 + min left (mtu - ipHlen) ∧
      data ≠ [] ∧ (fragment mtu header mfSet left ofo data).len ≤ mtu := by
  have blocks := blocks_eq aligned roomy
  have some_room := room_pos roomy
  have size : data.length = min left (mtu - ipHlen) := by
    rw [bytes, List.length_take, List.length_drop]
    omega
  have offset : ofo % 2 ^ 13 = ofo := Nat.mod_eq_of_lt (by omega)
  have start : placement.start (fragment mtu header mfSet left ofo data) = ofo * 8 := by
    simp only [placement, fragment, offset]
  have stop : placement.stop (fragment mtu header mfSet left ofo data) =
      ofo * 8 + min left (mtu - ipHlen) := by
    simp only [placement, fragment, offset, size]
  refine ⟨⟨rfl, rfl, ?_, Nat.mod_lt _ (Nat.two_pow_pos 13), ⟨?_, ?_, ?_⟩, ?_⟩, start, stop,
    ?_, ?_⟩
  · simp only [fragment, blocks, size]
  · rw [start, stop]
    omega
  · rw [stop]
    omega
  · rw [start, stop, Nat.add_sub_cancel_left]
    exact bytes
  · rw [stop]
    simp only [fragment, Bool.or_eq_true, Bool.not_eq_true', decide_eq_false_iff_not, more]
    omega
  · exact List.ne_nil_of_length_pos (by omega)
  · simp only [fragment, ipHlen]
    omega

/-- What the loop sends are pieces of the datagram in a row, up to its end or to where the
memory has run out. -/
theorem fragLoop_spec (aligned : mtu % 8 = 4) (roomy : 28 ≤ mtu)
    (small : whole.length ≤ 2 ^ 16) {turns left ofo poff : Nat} {chain : List (List UInt8)}
    (allocs : Nat) (enough : left ≤ turns) (within : Within chain poff)
    (bytes : chain.flatten.drop poff = (whole.drop (ofo * 8)).take left)
    (inside : ofo * 8 + left ≤ whole.length)
    (more : mfSet = true ↔ ofo * 8 + left < whole.length) :
    ∃ sent err last, fragLoop mtu header mfSet turns left ofo chain poff allocs =
        some (sent, err) ∧
      placement.Joined (ofo * 8) sent last ∧
      (err = .errOk ∧ last = ofo * 8 + left ∨ err = .errMem) ∧
      ∀ packet ∈ sent, Genuine header whole packet ∧ packet.data ≠ [] ∧
        packet.len ≤ mtu := by
  induction turns generalizing left ofo poff chain allocs with
  | zero =>
      have none_left : left = 0 := by omega
      subst none_left
      exact ⟨[], .errOk, ofo * 8, rfl, rfl, .inl ⟨rfl, rfl⟩, nofun⟩
  | succ turns ih =>
      rw [fragLoop]
      split
      next none_left =>
        subst none_left
        exact ⟨[], .errOk, ofo * 8, rfl, rfl, .inl ⟨rfl, rfl⟩, nofun⟩
      next some_left =>
        cases allocs with
        | zero => exact ⟨[], .errMem, ofo * 8, rfl, rfl, .inr rfl, nofun⟩
        | succ allocs =>
            have blocks := blocks_eq aligned roomy
            have some_room := room_pos roomy
            have length : (chain.flatten.drop poff).length = left := by
              rw [bytes, List.length_take, List.length_drop]
              omega
            have available : min left ((mtu - ipHlen) / 8 * 8) ≤
                (chain.flatten.drop poff).length := by
              rw [length]
              exact Nat.min_le_left _ _
            rcases mirror_spec allocs within available with
              failed | ⟨pieces, chain', poff', allocs', mirrored, flat, within', rest⟩
            · simp only [failed]
              exact ⟨[], .errMem, ofo * 8, rfl, rfl, .inr rfl, nofun⟩
            rw [bytes, List.take_take, blocks, Nat.min_eq_left (Nat.min_le_left _ _)] at flat
            rw [bytes, blocks, List.drop_take, List.drop_drop] at rest
            have turn : Genuine header whole
                (fragment mtu header mfSet left ofo pieces.flatten) ∧ _ :=
              fragment_spec aligned roomy small some_left inside more flat
            obtain ⟨genuine, start, stop, nonempty, fits⟩ := turn
            simp only [mirrored]
            by_cases final : left ≤ mtu - ipHlen
            · -- the rest fits into one fragment
              rw [Nat.min_eq_left final] at stop
              rw [blocks, Nat.min_eq_left final, Nat.sub_self, fragLoop_zero]
              exact ⟨[fragment mtu header mfSet left ofo pieces.flatten], .errOk, _, rfl,
                ⟨start, rfl⟩, .inl ⟨rfl, stop⟩,
                List.forall_mem_singleton.mpr ⟨genuine, nonempty, fits⟩⟩
            · have next : (ofo + (mtu - ipHlen) / 8) * 8 = ofo * 8 + (mtu - ipHlen) := by
                rw [Nat.add_mul, blocks]
              rw [Nat.min_eq_right (by omega)] at stop rest
              rw [← next] at rest
              rw [blocks, Nat.min_eq_right (by omega)]
              obtain ⟨sent, err, last, looped, joined, ended, pieces'⟩ :=
                ih allocs' (by omega) within' rest (by omega) (by rw [more]; omega)
              rw [looped]
              refine ⟨fragment mtu header mfSet left ofo pieces.flatten :: sent, err, last, rfl,
                ⟨start, ?_⟩, ?_, List.forall_mem_cons.mpr ⟨⟨genuine, nonempty, fits⟩, pieces'⟩⟩
              · rw [stop, ← next]
                exact joined
              · exact ended.imp_left fun ⟨ok, final⟩ => ⟨ok, by omega⟩

/-- `ip4_frag` replaces a piece of a datagram by smaller ones in its place.  It comes to an
end whatever memory there is, and says `ERR_OK` only if nothing is left out. -/
theorem ip4Frag_genuine (aligned : mtu % 8 = 4) (roomy : 28 ≤ mtu)
    (small : whole.length ≤ 2 ^ 16) {packet : Packet} (genuine : Genuine header whole packet)
    {chain : List (List UInt8)} (room : ipHlen ≤ (chain.headD []).length)
    (payload : chain.flatten.drop ipHlen = packet.data) (allocs : Nat) :
    ∃ sent err last, ip4Frag mtu packet.header packet.hlBytes packet.offset packet.mf chain
        allocs = some (sent, err) ∧
      placement.Joined (placement.start packet) sent last ∧
      (err = .errOk ∧ last = placement.stop packet ∨ err = .errMem) ∧
      ∀ piece ∈ sent, Genuine header whole piece ∧ piece.data ≠ [] ∧ piece.len ≤ mtu := by
  have left : chain.flatten.length - ipHlen = packet.data.length := by
    rw [← payload, List.length_drop]
  have bytes : chain.flatten.drop ipHlen =
      (whole.drop (packet.offset * 8)).take packet.data.length := by
    rw [payload]
    have items : packet.data = _ := genuine.cut.items_eq
    rw [placement, Nat.add_sub_cancel_left] at items
    exact items
  rw [ip4Frag, if_neg (not_not.mpr genuine.hlBytes_eq), if_neg (Nat.not_lt.mpr room),
    genuine.header_eq, left]
  exact fragLoop_spec aligned roomy small allocs (Nat.le_refl _) room bytes
    genuine.cut.stop_le genuine.mf_iff

end Loop

/-! ## Other sizes -/

section Unaligned

variable {mtu : Nat} {header : Header} {mfSet : Bool}

/-- A turn that was not the last one. -/
theorem cons_of_fragLoop {turns left ofo poff allocs : Nat} {chain : List (List UInt8)}
    {sent : List Packet} (some_left : left ≠ 0)
    (looped : fragLoop mtu header mfSet turns left ofo chain poff allocs =
      some (sent, .errOk)) :
    ∃ turns' data rest chain' poff' allocs',
      sent = fragment mtu header mfSet left ofo data :: rest ∧
      fragLoop mtu header mfSet turns' (left - min left ((mtu - ipHlen) / 8 * 8))
        (ofo + (mtu - ipHlen) / 8) chain' poff' allocs' = some (rest, .errOk) := by
  cases turns with
  | zero =>
      rw [fragLoop, if_neg some_left] at looped
      cases looped
  | succ turns =>
      rw [fragLoop, if_neg some_left] at looped
      cases allocs with
      | zero => cases looped
      | succ allocs =>
          simp only at looped
          split at looped
          · cases looped
          · cases looped
          next pieces chain' poff' allocs' _ =>
            obtain ⟨⟨rest, err⟩, looped', same⟩ := Option.map_eq_some_iff.mp looped
            cases same
            exact ⟨turns, pieces.flatten, rest, chain', poff', allocs', rfl, looped'⟩

/-- If the room for payload is not a multiple of eight bytes, as with interfaces for 576,
1280 or 9000 bytes, then there is a length of datagrams of which a fragment is sent with
the flag for more fragments cleared although more follows. -/
theorem mf_cleared_early (roomy : 28 ≤ mtu) (unaligned : mtu % 8 ≠ 4)
    {chain : List (List UInt8)}
    (size : chain.flatten.length = mtu + (mtu - ipHlen) / 8 * 8) {hlBytes allocs : Nat}
    {sent : List Packet}
    (complete : ip4Frag mtu header hlBytes 0 false chain allocs = some (sent, .errOk)) :
    ∃ packet ∈ sent, packet.mf = false ∧
      packet.offset * 8 + packet.len < chain.flatten.length := by
  rw [ip4Frag] at complete
  split at complete
  · cases complete
  split at complete
  · cases complete
  have room : (mtu - ipHlen) / 8 * 8 < mtu - ipHlen := by
    rw [ipHlen]
    omega
  have first : chain.flatten.length - ipHlen =
      (mtu - ipHlen) / 8 * 8 + (mtu - ipHlen) := by
    rw [size, ipHlen]
    omega
  obtain ⟨turns, data, rest, chain', poff, allocs', rfl, remaining⟩ :=
    cons_of_fragLoop (by omega) complete
  -- the rest is too long for one fragment but not longer than the room
  have second : chain.flatten.length - ipHlen -
      min (chain.flatten.length - ipHlen) ((mtu - ipHlen) / 8 * 8) = mtu - ipHlen := by
    omega
  rw [second] at remaining
  obtain ⟨-, -, -, -, -, -, rfl, -⟩ := cons_of_fragLoop (by omega) remaining
  refine ⟨_, List.mem_cons_of_mem _ List.mem_cons_self, by simp [fragment], ?_⟩
  have offset := Nat.mod_le (0 + (mtu - ipHlen) / 8) (2 ^ 13)
  simp only [fragment, size, ipHlen] at offset ⊢
  omega

end Unaligned

theorem mf_cleared_early_thirtyTwo :
    ∃ sent, ip4Frag 32 ⟨7, 64, 17, 1, 2⟩ 20 0 false [List.replicate 40 0] 100 =
        some (sent, .errOk) ∧
      ∃ packet ∈ sent, packet.mf = false ∧ packet.offset * 8 + packet.len < 40 := by
  obtain ⟨sent, complete⟩ : ∃ sent,
      ip4Frag 32 ⟨7, 64, 17, 1, 2⟩ 20 0 false [List.replicate 40 0] 100 =
        some (sent, .errOk) := ⟨_, rfl⟩
  exact ⟨sent, complete, mf_cleared_early (by decide) (by decide) (by decide) complete⟩

end EmbeddedRtps.Ip
