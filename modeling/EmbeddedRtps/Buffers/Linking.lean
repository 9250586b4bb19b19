import EmbeddedRtps.Buffers.Counting

/-!
# Linking and cutting chains

`pbuf_cat`, `pbuf_chain`, `pbuf_dechain` and `pbuf_realloc` walk along a chain and
correct `tot_len` on their way.  They cannot see who else links to a `pbuf` of the
chain, so their callers must not call them for a chain that another one runs into.
-/

namespace EmbeddedRtps.Buffers

open Foundation Linked

universe u

variable {Id : Type u} {heap : Heap Id} {id p q h t last : Id}
variable {record tail : Record Id} {start : Option Id} {ids : List Id}

/-! ## Walking -/

/-- A `pbuf` before the last one links to another of the chain. -/
theorem exists_next (chain : Chain Record.next heap start (ids ++ [last]))
    (member : id ∈ ids) (found : heap id = some record) :
    ∃ target ∈ ids ++ [last], record.next = some target := by
  induction ids generalizing start with
  | nil => cases member
  | cons p ids ih =>
      obtain ⟨_, record', found', rest⟩ := chain.of_cons
      rcases List.mem_cons.mp member with rfl | member
      · cases found.symm.trans found'
        cases next : record.next with
        | none =>
            rw [next] at rest
            cases (List.append_eq_nil_iff.mp rest.eq_nil).2
        | some target =>
            rw [next] at rest
            obtain ⟨_, _, _, equal, _⟩ := rest.of_some
            refine ⟨target, List.mem_cons_of_mem _ ?_, rfl⟩
            exact equal ▸ List.mem_cons_self
      · obtain ⟨target, member', linked⟩ := ih rest member
        exact ⟨target, List.mem_cons_of_mem _ member', linked⟩

/-- The last one does not. -/
theorem next_last (chain : Chain Record.next heap start (ids ++ [last])) :
    ∃ record, heap last = some record ∧ record.next = none := by
  induction ids generalizing start with
  | nil =>
      obtain ⟨_, record, found, ended⟩ := chain.of_cons
      cases next : record.next with
      | none => exact ⟨record, found, next⟩
      | some following =>
          rw [next] at ended
          obtain ⟨_, _, _, impossible, _⟩ := ended.of_some
          cases impossible
  | cons p ids ih =>
      obtain ⟨_, _, _, rest⟩ := chain.of_cons
      exact ih rest

/-- It stands at the end only. -/
theorem last_not_mem (chain : Chain Record.next heap start (ids ++ [last])) : last ∉ ids :=
  fun member => (List.nodup_append.mp chain.nodup).2.2 last member last
    List.mem_cons_self rfl

/-- A link of the chain stays in it. -/
theorem next_mem {target : Id} (chain : Chain Record.next heap start ids)
    (member : id ∈ ids) (found : heap id = some record) (linked : record.next = some target) :
    target ∈ ids := by
  obtain ⟨front, rest, rfl, chain'⟩ := chain.split member
  obtain ⟨_, record', found', following⟩ := chain'.of_cons
  cases found.symm.trans found'
  rw [linked] at following
  obtain ⟨_, rest, _, rfl, _⟩ := following.of_some
  simp

variable [DecidableEq Id]

/-- Change the `pbuf`s of a list. -/
def adjust (heap : Heap Id) (ids : List Id) (change : Record Id → Record Id) : Heap Id :=
  fun id => if id ∈ ids then (heap id).map change else heap id

variable {change : Record Id → Record Id}

@[simp] theorem adjust_nil : adjust heap [] change = heap := by
  funext id
  simp [adjust]

theorem adjust_of_mem (member : id ∈ ids) : adjust heap ids change id = (heap id).map change :=
  if_pos member

theorem adjust_of_not_mem (absent : id ∉ ids) : adjust heap ids change id = heap id :=
  if_neg absent

theorem adjust_cons (found : heap p = some record) (absent : p ∉ ids) :
    adjust (Function.update heap p (some (change record))) ids change =
      adjust heap (p :: ids) change := by
  funext id
  by_cases same : id = p
  · subst same
    simp [adjust, absent, found]
  · simp [adjust, same]

theorem adjust_update {changed : Option (Record Id)} (absent : p ∉ ids) :
    adjust (Function.update heap p changed) ids change =
      Function.update (adjust heap ids change) p changed := by
  funext id
  by_cases same : id = p
  · subst same
    simp [adjust, absent]
  · simp [adjust, same]

theorem map_adjust {View : Type*} {view : Record Id → View}
    (kept : ∀ record, view (change record) = view record) (id : Id) :
    (adjust heap ids change id).map view = (heap id).map view := by
  rw [adjust]
  split
  next => simp [Function.comp_def, kept]
  next => rfl

/-- No `pbuf` outside the list links to one of it. -/
def Whole (heap : Heap Id) (ids : List Id) : Prop :=
  ∀ id, ∀ record ∈ heap id, ∀ target ∈ record.next, target ∈ ids → id ∈ ids

omit [DecidableEq Id] in
theorem Whole.of_same_links {after : Heap Id} (whole : Whole heap ids)
    (same : ∀ id, (after id).map Record.next = (heap id).map Record.next) :
    Whole after ids := by
  intro id record found target linked
  have equal := same id
  rw [show after id = some record from found] at equal
  obtain ⟨before, found', next⟩ := Option.map_eq_some_iff.mp equal.symm
  exact whole id before found' target (next ▸ linked)

omit [DecidableEq Id] in
/-- A chain from elsewhere does not run into the list. -/
theorem Whole.chain_outside {others : List Id} (whole : Whole heap ids)
    (chain : Chain Record.next heap start others)
    (outside : ∀ p, start = some p → p ∉ ids) : ∀ id ∈ others, id ∉ ids := by
  induction chain with
  | nil => exact fun _ member => absurd member List.not_mem_nil
  | @cons p record rest found _ ih =>
      have here := outside p rfl
      have later := ih fun target linked member =>
        here (whole p record found target linked member)
      exact List.forall_mem_cons.mpr ⟨here, later⟩

omit [DecidableEq Id] in
/-- The front of a chain is whole if the chain is: links lead away from it only. -/
theorem Whole.front {front rest : List Id}
    (chain : Chain Record.next heap start (front ++ q :: rest))
    (whole : Whole heap (front ++ q :: rest)) : Whole heap (front ++ [q]) := by
  rw [List.append_cons] at chain whole
  intro id record found target linked member
  have listed := whole id record found target linked (List.mem_append_left rest member)
  rcases List.mem_append.mp listed with inside | later
  · exact inside
  · obtain ⟨_, chain'⟩ := chain.drop
    have again := next_mem chain' later found linked
    exact absurd rfl ((List.nodup_append.mp chain.nodup).2.2 target member target again)

/-- The lengths of a chain that nothing runs into can be changed together. -/
theorem Measured.of_whole {after : Heap Id} (measured : Measured heap)
    (whole : Whole heap ids) (outside : ∀ id, id ∉ ids → after id = heap id)
    (inside : ∀ id ∈ ids, ∀ record, after id = some record →
      record.totLen = record.len + totLenOf after record.next ∧
        record.totLen < 2 ^ 16 ∧ record.ref < 2 ^ 8) :
    Measured after := by
  refine ⟨fun id record found => ?_, fun id record found => ?_, fun id record found => ?_⟩
  · by_cases member : id ∈ ids
    · exact (inside id member record found).1
    · rw [outside id member] at found
      rw [measured.totLen_eq id record found]
      congr 1
      refine (totLenOf_congr fun target linked => outside target fun member' => ?_).symm
      exact member (whole id record found target linked member')
  · by_cases member : id ∈ ids
    · exact (inside id member record found).2.1
    · exact measured.totLen_lt id record (outside id member ▸ found)
  · by_cases member : id ∈ ids
    · exact (inside id member record found).2.2
    · exact measured.ref_lt id record (outside id member ▸ found)

/-! ## `pbuf_cat` -/

theorem catLoop_eq {fuel : Nat}
    (chain : Chain Record.next heap (some h) (ids ++ [last]))
    (found : heap t = some tail) (absent : t ∉ ids) (enough : ids.length < fuel) :
    catLoop fuel heap h t = some (adjust heap ids (·.addTotLen tail.totLen), last) := by
  induction ids generalizing heap h fuel with
  | nil =>
      obtain ⟨fuel, rfl⟩ := Nat.exists_eq_succ_of_ne_zero enough.ne'
      obtain ⟨record, here, next⟩ := next_last chain
      obtain ⟨same, _⟩ := chain.of_cons
      cases same
      simp [catLoop, here, found, next]
  | cons p ids ih =>
      obtain ⟨fuel, rfl⟩ := Nat.exists_eq_succ_of_ne_zero (Nat.ne_zero_of_lt enough)
      have fresh := (List.nodup_cons.mp chain.nodup).1
      obtain ⟨same, record, here, rest⟩ := chain.of_cons
      cases same
      obtain ⟨different, absent⟩ := not_or.mp (mt List.mem_cons.mpr absent)
      cases next : record.next with
      | none =>
          rw [next] at rest
          cases (List.append_eq_nil_iff.mp rest.eq_nil).2
      | some following =>
          rw [next] at rest
          have rest' : Chain Record.next
              (Function.update heap p (some (record.addTotLen tail.totLen)))
              (some following) (ids ++ [last]) :=
            rest.frame fun id _ => map_update here (next_addTotLen record _) id
          simp only [catLoop, here, found, next]
          rw [ih rest' (by rwa [Function.update_of_ne different]) absent
              (Nat.lt_of_succ_lt_succ enough)]
          exact congrArg (fun heap => some (heap, last))
            (adjust_cons here fun member => fresh (List.mem_append_left [last] member))

/-- The memory after `pbuf_cat`. -/
def catHeap (heap : Heap Id) (ids : List Id) (last t : Id) (record tail : Record Id) :
    Heap Id :=
  Function.update (adjust heap ids (·.addTotLen tail.totLen)) last
    (some { record.addTotLen tail.totLen with next := some t })

theorem catHeap_last :
    catHeap heap ids last t record tail last =
      some { record.addTotLen tail.totLen with next := some t } :=
  Function.update_self _ _ _

theorem catHeap_of_mem (fresh : last ∉ ids) (member : id ∈ ids) :
    catHeap heap ids last t record tail id = (heap id).map (·.addTotLen tail.totLen) := by
  rw [catHeap, Function.update_of_ne (ne_of_mem_of_not_mem member fresh),
    adjust_of_mem member]

theorem catHeap_of_not_mem (outside : id ∉ ids ++ [last]) :
    catHeap heap ids last t record tail id = heap id := by
  obtain ⟨absent, different⟩ := not_or.mp (mt List.mem_append.mpr outside)
  rw [catHeap, Function.update_of_ne (mt List.mem_singleton.mpr different),
    adjust_of_not_mem absent]

theorem pbufCat_eq [Fintype Id] (chain : Chain Record.next heap (some h) (ids ++ [last]))
    (here : heap last = some record) (whole : record.totLen = record.len)
    (found : heap t = some tail) (absent : t ∉ ids ++ [last]) :
    pbufCat heap h t = some (catHeap heap ids last t record tail) := by
  have long := chain.length_le
  rw [List.length_append, List.length_singleton] at long
  have absent' : t ∉ ids := fun member => absent (List.mem_append_left [last] member)
  simp only [pbufCat, catLoop_eq chain found absent' long,
    adjust_of_not_mem (last_not_mem chain), adjust_of_not_mem absent', here, found, whole,
    ne_eq, not_true_eq_false, if_false]
  rfl

/-- Every length of the first chain grows by that of the second. -/
theorem catHeap_totLen (fresh : last ∉ ids) (here : heap last = some record)
    (member : id ∈ ids ++ [last]) {before : Record Id} (found : heap id = some before)
    (small : before.totLen + tail.totLen < 2 ^ 16) :
    totLenOf (catHeap heap ids last t record tail) (some id) =
      before.totLen + tail.totLen := by
  rcases List.mem_append.mp member with inner | final
  · have changed : catHeap heap ids last t record tail id =
        some (before.addTotLen tail.totLen) := by
      rw [catHeap_of_mem fresh inner, found, Option.map_some]
    rw [totLenOf_some changed, totLen_addTotLen before tail.totLen small]
  · obtain rfl := List.mem_singleton.mp final
    cases here.symm.trans found
    rw [totLenOf_some catHeap_last]
    exact totLen_addTotLen record tail.totLen small

theorem catHeap_measured (measured : Measured heap)
    (chain : Chain Record.next heap (some h) (ids ++ [last]))
    (here : heap last = some record) (whole : Whole heap (ids ++ [last]))
    (found : heap t = some tail) (absent : t ∉ ids ++ [last])
    (small : totLenOf heap (some h) + tail.totLen < 2 ^ 16) :
    Measured (catHeap heap ids last t record tail) := by
  have fresh := last_not_mem chain
  have bounded : ∀ id ∈ ids ++ [last], ∀ before, heap id = some before →
      before.totLen + tail.totLen < 2 ^ 16 := by
    intro id member before found'
    have le := measured.totLen_le chain member found'
    omega
  refine measured.of_whole whole (fun id outside => catHeap_of_not_mem outside) ?_
  intro id member after changed
  rcases List.mem_append.mp member with inner | final
  · obtain ⟨before, found'⟩ := chain.live member
    rw [catHeap_of_mem fresh inner, found', Option.map_some] at changed
    cases changed
    have fits := bounded id member before found'
    obtain ⟨target, member', linked⟩ := exists_next chain inner found'
    obtain ⟨following, found''⟩ := chain.live member'
    have total := measured.totLen_eq id before found'
    rw [linked, totLenOf_some found''] at total
    rw [totLen_addTotLen before tail.totLen fits, next_addTotLen, linked, len_addTotLen,
      catHeap_totLen fresh here member' found'' (bounded target member' following found'')]
    exact ⟨by omega, fits, measured.ref_lt id before found'⟩
  · obtain rfl := List.mem_singleton.mp final
    rw [catHeap_last] at changed
    cases changed
    obtain ⟨record', here', ended⟩ := next_last chain
    cases here.symm.trans here'
    have fits := bounded id member record here
    have total := measured.totLen_eq id record here
    rw [ended, totLenOf_none] at total
    have following : totLenOf (catHeap heap ids id t record tail) (some t) = tail.totLen :=
      totLenOf_some (by rw [catHeap_of_not_mem absent, found])
    simp only [totLen_addTotLen record tail.totLen fits, following]
    exact ⟨by rw [total]; rfl, fits, measured.ref_lt id record here⟩

theorem catHeap_update (absent : t ∉ ids ++ [last]) {tail' : Record Id}
    (same : tail'.totLen = tail.totLen) :
    catHeap (Function.update heap t (some tail')) ids last t record tail' =
      Function.update (catHeap heap ids last t record tail) t (some tail') := by
  obtain ⟨absent, different⟩ := not_or.mp (mt List.mem_append.mpr absent)
  rw [catHeap, catHeap, same, adjust_update absent,
    Function.update_comm (mt List.mem_singleton.mpr different)]

/-- The two chains are one. -/
theorem catHeap_chain {tailIds : List Id} {start : Option Id}
    (chain : Chain Record.next heap start (ids ++ [last]))
    (chain' : Chain Record.next heap (some t) tailIds)
    (disjoint : ∀ id ∈ ids ++ [last], id ∉ tailIds) :
    Chain Record.next (catHeap heap ids last t record tail) start
      (ids ++ [last] ++ tailIds) := by
  rw [List.append_assoc]
  refine chain.redirect (fun id member => ?_) catHeap_last (chain'.frame fun id member => ?_)
  · rw [catHeap_of_mem (last_not_mem chain) member, Option.map_map]
    rfl
  · rw [catHeap_of_not_mem fun member' => disjoint id member' member]

/-- No payload changes. -/
theorem catHeap_payload (here : heap last = some record) (id : Id) :
    (catHeap heap ids last t record tail id).map Record.payload =
      (heap id).map Record.payload := by
  by_cases same : id = last
  · subst same
    rw [catHeap_last, here]
    rfl
  · rw [catHeap, Function.update_of_ne same]
    exact map_adjust (fun record => payload_addTotLen record _) id

theorem pbufRef_eq (found : heap p = some record) (few : record.ref + 1 < 2 ^ 8) :
    pbufRef heap p =
      some (Function.update heap p (some { record with ref := record.ref + 1 })) := by
  simp only [pbufRef, found]
  rw [Nat.mod_eq_of_lt few, if_neg (Nat.succ_ne_zero _)]

variable [Fintype Id] {held : Id → Nat}

/-- `pbuf_cat` makes the reference to the second chain a link. -/
theorem pbufCat_sound {tailIds : List Id} (sound : Sound heap (withRef held (some t)))
    (chain : Chain Record.next heap (some h) (ids ++ [last]))
    (chain' : Chain Record.next heap (some t) tailIds) (whole : Whole heap (ids ++ [last]))
    (disjoint : ∀ id ∈ ids ++ [last], id ∉ tailIds)
    (small : totLenOf heap (some h) + totLenOf heap (some t) < 2 ^ 16) :
    ∃ record tail, heap last = some record ∧ heap t = some tail ∧
      pbufCat heap h t = some (catHeap heap ids last t record tail) ∧
      Sound (catHeap heap ids last t record tail) held := by
  obtain ⟨record, here, ended⟩ := next_last chain
  obtain ⟨tail, rest, found, rfl, _⟩ := chain'.of_some
  have absent : t ∉ ids ++ [last] := fun member => disjoint t member List.mem_cons_self
  have exact_last : record.totLen = record.len := by
    have total := sound.measured.totLen_eq last record here
    rwa [ended, totLenOf_none] at total
  refine ⟨record, tail, here, found, pbufCat_eq chain here exact_last found absent, ?_⟩
  rw [totLenOf_some found] at small
  have links : ∀ id, (adjust heap ids (·.addTotLen tail.totLen) id).map Record.next =
      (heap id).map Record.next := map_adjust fun record => next_addTotLen record _
  have here' : adjust heap ids (·.addTotLen tail.totLen) last = some record := by
    rw [adjust_of_not_mem (last_not_mem chain), here]
  constructor
  · exact (sound.counted.of_same links (map_adjust fun record => rfl)).attach here' ended rfl
  · exact (sound.grounded.of_same_links links).redirect here'
      (chain'.frame fun id _ => links id) (disjoint last (by simp))
  · exact catHeap_measured sound.measured chain here whole found absent small

/-! ## `pbuf_ref` and `pbuf_chain` -/

theorem Sound.addRef (sound : Sound heap held) (found : heap p = some record)
    (few : record.ref + 1 < 2 ^ 8) :
    Sound (Function.update heap p (some { record with ref := record.ref + 1 }))
      (withRef held (some p)) where
  counted := sound.counted.increment found rfl rfl
  grounded := sound.grounded.of_same_links (map_update found rfl)
  measured := sound.measured.setRef found few

/-- `pbuf_chain` takes the second chain a reference of its own. -/
theorem pbufChain_sound {tailIds : List Id} (sound : Sound heap held)
    (chain : Chain Record.next heap (some h) (ids ++ [last]))
    (chain' : Chain Record.next heap (some t) tailIds) (whole : Whole heap (ids ++ [last]))
    (disjoint : ∀ id ∈ ids ++ [last], id ∉ tailIds)
    (small : totLenOf heap (some h) + totLenOf heap (some t) < 2 ^ 16)
    (found : heap t = some tail) (few : tail.ref + 1 < 2 ^ 8) :
    ∃ record, heap last = some record ∧
      pbufChain heap h t =
        some (Function.update (catHeap heap ids last t record tail) t
          (some { tail with ref := tail.ref + 1 })) ∧
      Sound (Function.update (catHeap heap ids last t record tail) t
        (some { tail with ref := tail.ref + 1 })) held := by
  let tail' : Record Id := { tail with ref := tail.ref + 1 }
  have links : ∀ id, (Function.update heap t (some tail') id).map Record.next =
    (heap id).map Record.next := map_update found rfl
  have absent : t ∉ ids ++ [last] := fun member => by
    obtain ⟨_, rest, _, rfl, _⟩ := chain'.of_some
    exact disjoint t member List.mem_cons_self
  -- the order of the two calls makes no difference
  obtain ⟨record, _, here, found', _, sound'⟩ := pbufCat_sound (sound.addRef found few)
    (chain.frame fun id _ => links id) (chain'.frame fun id _ => links id)
    (whole.of_same_links links) disjoint
    (by rwa [totLenOf_setRef found, totLenOf_setRef found])
  rw [Function.update_self] at found'
  cases found'
  have different : last ≠ t := fun same => absent (by simp [same])
  rw [Function.update_of_ne different] at here
  obtain ⟨record', here', ended⟩ := next_last chain
  cases here.symm.trans here'
  have total := sound.measured.totLen_eq last record here
  rw [ended, totLenOf_none] at total
  have commute : catHeap (Function.update heap t (some tail')) ids last t record tail' =
      Function.update (catHeap heap ids last t record tail) t (some tail') :=
    catHeap_update absent rfl
  refine ⟨record, here, ?_, commute ▸ sound'⟩
  rw [pbufChain, pbufCat_eq chain here total found absent, Option.bind_some,
    pbufRef_eq (by rw [catHeap_of_not_mem absent, found]) few]

/-! ## `pbuf_dechain` -/

omit [Fintype Id] in
/-- One `pbuf` that nothing links to changes. -/
theorem Measured.update {changed : Record Id} (measured : Measured heap)
    (whole : Whole heap [p]) (grounded : changed.next ≠ some p)
    (total : changed.totLen = changed.len + totLenOf heap changed.next)
    (small : changed.totLen < 2 ^ 16) (few : changed.ref < 2 ^ 8) :
    Measured (Function.update heap p (some changed)) := by
  refine measured.of_whole whole ?_ ?_
  · intro id outside
    rw [Function.update_of_ne (mt List.mem_singleton.mpr outside)]
  · intro id member after here
    obtain rfl := List.mem_singleton.mp member
    rw [Function.update_self] at here
    cases here
    have following : totLenOf (Function.update heap id (some changed)) changed.next =
        totLenOf heap changed.next :=
      totLenOf_congr fun target linked =>
        Function.update_of_ne (show target ≠ id from fun same => grounded (same ▸ linked)) _ _
    rw [following]
    exact ⟨total, small, few⟩

/-- `pbuf_dechain` leaves the first `pbuf` and gives up its reference to the others. -/
theorem pbufDechain_sound (sound : Sound heap held) (found : heap p = some record)
    (whole : Whole heap [p]) :
    ∃ result, pbufDechain heap p = some result ∧ Sound result.1 held := by
  have total := sound.measured.totLen_eq p record found
  cases next : record.next with
  | none =>
      rw [next, totLenOf_none, Nat.add_zero] at total
      exact ⟨(heap, none), by simp [pbufDechain, found, next, total], sound⟩
  | some q =>
      obtain ⟨tail, found'⟩ := sound.counted.live_of_link found next
      rw [next, totLenOf_some found'] at total
      have small := sound.measured.totLen_lt p record found
      -- the length that is written to the second `pbuf` is the one it has
      have same : (some { tail with totLen := (record.totLen - record.len) % 2 ^ 16 } :
          Option (Record Id)) = heap q := by
        rw [found', total, Nat.add_sub_cancel_left, Nat.mod_eq_of_lt (by omega)]
      have cut : Sound (Function.update heap p
          (some { record with next := none, totLen := record.len }))
          (withRef held (some q)) := by
        refine ⟨?_, ?_, ?_⟩
        · exact next ▸ sound.counted.detach found rfl rfl
        · exact sound.grounded.redirect found .nil List.not_mem_nil
        · exact sound.measured.update whole (by simp) rfl (by simp only; omega)
            (sound.measured.ref_lt p record found)
      obtain ⟨result, run, sound', _⟩ := pbufFree_sound cut
      refine ⟨(result.1, if 0 < result.2 then none else some q), ?_, sound'⟩
      simp only [pbufDechain, found, next, found']
      rw [if_neg (by omega), same, Function.update_eq_self, run, Option.map_some]

end EmbeddedRtps.Buffers
