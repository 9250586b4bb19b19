import EmbeddedRtps.Foundation.Transit
import EmbeddedRtps.Latency.Unit

/-!
# Which request a latency sample belongs to

The callback appends whatever response comes in, measured from the request sent
last.  It is the response to that request unless one of an earlier request is still
on its way when the next one is sent, or when the next message size begins.

In runs where neither happens every outstanding message belongs to the request sent
last, and no request is measured twice.
-/

namespace EmbeddedRtps.Latency

open Foundation

/-- The requests whose packet or response is on its way, or whose callback has not
appended yet. -/
def State.outstanding (state : State) : List Request :=
  state.requests ++ state.responses ++ state.received.map Delivery.request

/-- Nothing of an earlier request is outstanding when a request is sent or the list
is cleared for the next message size. -/
def SettledBefore (cfg : Config) (state : State) : Event → Prop
  | .run _ =>
      match state.pc with
      | .send _ => state.outstanding = []
      | .prepare size => size < cfg.messageSizesInBytes.length → state.outstanding = []
      | _ => True
  | _ => True

instance (cfg : Config) (state : State) (event : Event) :
    Decidable (SettledBefore cfg state event) := by
  cases event with
  | run now =>
      simp only [SettledBefore]
      split <;> infer_instance
  | _ => exact isTrue trivial

/-- What was appended after a request was sent was triggered by its response. -/
def Matched (state : State) : Prop :=
  ∀ entry ∈ state.times, ∀ request ∈ entry.window, entry.trigger = request

instance (state : State) : Decidable (Matched state) :=
  inferInstanceAs (Decidable (∀ entry ∈ state.times, _))

/-- `evaluate` is called with no more entries than samples. -/
def WithinSamples (cfg : Config) (state : State) : Prop :=
  state.pc.evaluates = true → state.times.length ≤ cfg.numSamples

instance (cfg : Config) (state : State) : Decidable (WithinSamples cfg state) :=
  inferInstanceAs (Decidable (_ → _))

/-! ## The invariant -/

/-- The requests outstanding or measured. -/
def State.account (state : State) : List Request :=
  state.outstanding ++ state.times.map Entry.trigger

/-- A request of the current message size sent before this point of the loop. -/
def RunPc.Past (cfg : Config) : RunPc → Request → Prop
  | .iterate next, request | .allocate next, request | .lock next, request
  | .start next, request | .send next, request =>
      request.size = next.size ∧ request.index < next.index
  | .wait current, request =>
      request.size = current.size ∧ request.index < current.index + 1
  | .evaluate size, request => request.size = size ∧ request.index < cfg.numSamples
  | .prepare _, _ | .finished, _ => True

/-- The loop variable is in its range. -/
def RunPc.InLoop (cfg : Config) : RunPc → Prop
  | .iterate request => request.index ≤ cfg.numSamples
  | .allocate request | .lock request | .start request | .send request
  | .wait request => request.index < cfg.numSamples
  | .prepare _ | .evaluate _ | .finished => True

/-- Each request is accounted for at most once, and all that is outstanding belongs
to the request sent last. -/
structure Accounted (cfg : Config) (state : State) : Prop where
  inLoop : state.pc.InLoop cfg
  past : ∀ request ∈ state.account, state.pc.Past cfg request
  nodup : state.account.Nodup
  latest : ∀ request ∈ state.outstanding, state.ghost.sent = some request
  windows : ∀ entry ∈ state.times, entry.window = some entry.trigger

/-- Nothing is outstanding and nothing measured. -/
theorem Accounted.of_empty {cfg : Config} {state : State}
    (inLoop : state.pc.InLoop cfg) (outstanding : state.outstanding = [])
    (times : state.times = []) : Accounted cfg state := by
  have account : state.account = [] := by
    rw [State.account, outstanding, times]
    rfl
  constructor
  case inLoop => exact inLoop
  case past => simp [account]
  case nodup => simp [account]
  case latest => simp [outstanding]
  case windows => simp [times]

theorem Accounted.init (cfg : Config) : Accounted cfg State.init :=
  .of_empty trivial rfl rfl

/-- Messages that move on or are lost leave the account in order. -/
theorem Accounted.of_subperm {cfg : Config} {before after : State}
    (accounted : Accounted cfg before) (samePc : after.pc = before.pc)
    (sameSent : after.ghost.sent = before.ghost.sent)
    (account : after.account.Subperm before.account)
    (outstanding : after.outstanding ⊆ before.outstanding)
    (windows : ∀ entry ∈ after.times, entry.window = some entry.trigger) :
    Accounted cfg after where
  inLoop := samePc ▸ accounted.inLoop
  past request member := samePc ▸ accounted.past request (account.subset member)
  nodup := by
    obtain ⟨listed, perm, sublist⟩ := account
    exact perm.nodup_iff.mp (accounted.nodup.sublist sublist)
  latest request member := by
    rw [sameSent]
    exact accounted.latest request (outstanding member)
  windows := windows

/-- The network moves messages on or loses them. -/
theorem Accounted.network {cfg : Config} {before after : State}
    (accounted : Accounted cfg before) (samePc : after.pc = before.pc)
    (sameSent : after.ghost.sent = before.ghost.sent)
    (sameTimes : after.times = before.times)
    (outstanding : after.outstanding.Subperm before.outstanding) :
    Accounted cfg after := by
  refine accounted.of_subperm samePc sameSent ?_ outstanding.subset ?_
  · simp only [State.account, sameTimes]
    exact (List.subperm_append_right _).mpr outstanding
  · rw [sameTimes]
    exact accounted.windows

/-- A step of the thread that touches neither the list nor the network. -/
theorem Accounted.move {cfg : Config} {state : State} (accounted : Accounted cfg state)
    (pc : RunPc) (inLoop : pc.InLoop cfg)
    (past : ∀ request, state.pc.Past cfg request → pc.Past cfg request) :
    Accounted cfg { state with pc := pc } :=
  { accounted with
    inLoop := inLoop
    past := fun request member => past request (accounted.past request member) }

theorem Accounted.prepare {cfg : Config} {state : State} {size : Nat}
    (accounted : Accounted cfg state)
    (settled : size < cfg.messageSizesInBytes.length → state.outstanding = []) :
    Accounted cfg (state.prepare cfg size) := by
  simp only [State.prepare]
  split
  next => exact accounted.move .finished trivial fun _ _ => trivial
  next numBytes found =>
    have outstanding := settled (List.getElem?_eq_some_iff.mp found).1
    exact .of_empty (Nat.zero_le _) outstanding rfl

/-- The request sent now is the only one outstanding, and is not measured yet. -/
theorem Accounted.send {cfg : Config} {state : State} {request : Request}
    (accounted : Accounted cfg state) (pcEq : state.pc = .send request)
    (settled : state.outstanding = []) :
    Accounted cfg { state with
      pc := .wait request
      requests := state.requests ++ [request]
      ghost := { state.ghost with sent := some request } } := by
  have inLoop := accounted.inLoop
  have past := accounted.past
  have nodup := accounted.nodup
  simp only [State.account, settled, List.nil_append] at past nodup
  rw [pcEq] at inLoop past
  simp only [State.outstanding, List.append_eq_nil_iff] at settled
  obtain ⟨⟨requests, responses⟩, received⟩ := settled
  constructor
  case inLoop => exact inLoop
  case windows => exact accounted.windows
  all_goals simp only [State.account, State.outstanding, requests, responses, received,
    List.nil_append, List.append_nil, List.singleton_append]
  case latest =>
      intro other member
      rw [List.mem_singleton.mp member]
  case past =>
      intro other member
      rcases List.mem_cons.mp member with rfl | measured
      · exact ⟨rfl, Nat.lt_succ_self _⟩
      · obtain ⟨size, index⟩ := past other measured
        exact ⟨size, Nat.lt_succ_of_lt index⟩
  case nodup =>
      refine List.nodup_cons.mpr ⟨?_, nodup⟩
      intro measured
      exact Nat.lt_irrefl _ (past request measured).2

theorem Accounted.iterate {cfg : Config} {state : State} {request : Request}
    (accounted : Accounted cfg state) (pcEq : state.pc = .iterate request) :
    Accounted cfg (state.iterate cfg request) := by
  have inLoop := accounted.inLoop
  rw [pcEq] at inLoop
  simp only [State.iterate]
  split
  next inside =>
    split
    · exact accounted.move (.lock request) inside (by rw [pcEq]; exact fun _ => id)
    · exact accounted.move (.allocate request) inside (by rw [pcEq]; exact fun _ => id)
  next =>
    refine accounted.move (.evaluate request.size) trivial ?_
    rw [pcEq]
    intro other past
    exact ⟨past.1, Nat.lt_of_lt_of_le past.2 inLoop⟩

theorem Accounted.endWait {cfg : Config} {state : State} {request : Request}
    (accounted : Accounted cfg state) (pcEq : state.pc = .wait request) :
    Accounted cfg (state.endWait cfg request) := by
  have inLoop := accounted.inLoop
  rw [pcEq] at inLoop
  have moved := accounted.move request.next inLoop (by rw [pcEq]; exact fun _ => id)
  simp only [State.endWait]
  split <;> exact { moved with }

theorem Accounted.run {cfg : Config} {state : State} {now : Nat}
    (accounted : Accounted cfg state)
    (settled : SettledBefore cfg state (.run now)) :
    Accounted cfg (state.run cfg now) := by
  have inLoop := accounted.inLoop
  cases pcEq : state.pc with
  | prepare size =>
      simp only [SettledBefore, pcEq] at settled
      simp only [State.run, pcEq]
      exact accounted.prepare settled
  | iterate request =>
      simp only [State.run, pcEq]
      exact accounted.iterate pcEq
  | allocate request | lock request | start request =>
      rw [pcEq] at inLoop
      simp only [State.run, pcEq]
      exact { accounted.move _ inLoop (by rw [pcEq]; exact fun _ => id) with }
  | send request =>
      simp only [SettledBefore, pcEq] at settled
      simp only [State.run, pcEq]
      exact accounted.send pcEq settled
  | wait request =>
      simp only [State.run, pcEq]
      exact accounted.endWait pcEq
  | evaluate size =>
      simp only [State.run, pcEq]
      have sorted := List.perm_insertionSort
        (fun left right : Entry => left.duration ≤ right.duration) state.times
      have listed : Accounted cfg { state with
          times := state.times.insertionSort
            fun left right => left.duration ≤ right.duration } :=
        accounted.of_subperm rfl rfl ((sorted.map _).append_left _).subperm
          (List.Subset.refl _)
          fun entry member => accounted.windows entry (sorted.subset member)
      exact listed.move (.prepare (size + 1)) trivial fun _ _ => trivial
  | finished =>
      simp only [State.run, pcEq]
      exact accounted

/-- The callback measures the response to the request sent last. -/
theorem Accounted.push {cfg : Config} {state : State} {delivery : Delivery}
    (accounted : Accounted cfg state) (running : delivery ∈ state.received) :
    Accounted cfg (state.push cfg delivery) := by
  have waiting : delivery.request ∈ state.outstanding :=
    List.mem_append_right _ (List.mem_map_of_mem running)
  refine accounted.of_subperm rfl rfl ?_ ?_ ?_
  · have moved := map_erase_append_perm Delivery.request running
      (state.times.map Entry.trigger)
    simp only [State.account, State.outstanding, State.push, List.map_append,
      List.map_cons, List.map_nil]
    rw [List.append_assoc, List.append_assoc (state.requests ++ state.responses)]
    exact (moved.append_left _).subperm
  · exact ((List.erase_sublist.map _).append_left _).subset
  · intro entry member
    rcases List.mem_append.mp member with earlier | appended
    · exact accounted.windows entry earlier
    · rcases List.mem_singleton.mp appended
      exact accounted.latest _ waiting

theorem Accounted.apply {cfg : Config} {state : State} {event : Event}
    (accounted : Accounted cfg state) (enabled : Enabled cfg state event)
    (settled : SettledBefore cfg state event) :
    Accounted cfg (state.apply cfg event) := by
  have inLoop := accounted.inLoop
  cases event with
  | run now => exact accounted.run settled
  | allocFails =>
      simp only [State.apply, State.allocFails]
      split
      next request pcEq =>
        rw [pcEq] at inLoop
        exact { accounted.move (.lock request) inLoop
          (by rw [pcEq]; exact fun _ => id) with }
      next => exact accounted
  | sendFails =>
      simp only [State.apply, State.sendFails]
      split
      next request pcEq =>
        rw [pcEq] at inLoop
        split
        · refine accounted.move (.evaluate request.size) trivial ?_
          rw [pcEq]
          intro other past
          exact ⟨past.1, Nat.lt_trans past.2 inLoop⟩
        · refine { accounted.move request.next inLoop ?_ with }
          rw [pcEq]
          intro other past
          exact ⟨past.1, Nat.lt_succ_of_lt past.2⟩
      next => exact accounted
  | timeout =>
      simp only [State.apply, State.timeout]
      split
      next request pcEq => exact accounted.endWait pcEq
      next => exact accounted
  | answer request =>
      have moved := erase_append_perm enabled state.responses
      exact accounted.network rfl rfl rfl (moved.append_right _).subperm
  | loseRequest request =>
      have lost := List.erase_sublist (a := request) (l := state.requests)
      exact accounted.network rfl rfl rfl
        ((lost.append_right _).append_right _).subperm
  | loseResponse request =>
      have lost := List.erase_sublist (a := request) (l := state.responses)
      exact accounted.network rfl rfl rfl
        ((lost.append_left _).append_right _).subperm
  | deliver request now =>
      have moved := erase_append_perm enabled (state.received.map Delivery.request)
      refine accounted.network rfl rfl rfl ?_
      simp only [State.outstanding, State.apply, List.map_append, List.map_cons,
        List.map_nil]
      rw [List.append_assoc, List.append_assoc state.requests]
      exact (moved.append_left _).subperm
  | push delivery => exact accounted.push enabled
  | notify request => exact { accounted with }

/-- Distinct requests of one message size are no more than its samples. -/
theorem Accounted.withinSamples {cfg : Config} {state : State}
    (accounted : Accounted cfg state) : WithinSamples cfg state := by
  intro evaluates
  obtain ⟨size, pcEq⟩ : ∃ size, state.pc = .evaluate size := by
    unfold RunPc.evaluates at evaluates
    split at evaluates
    next size pcEq => exact ⟨size, pcEq⟩
    next => cases evaluates
  have past := accounted.past
  rw [pcEq] at past
  have measured : state.times.map Entry.trigger ⊆
      (List.range cfg.numSamples).map (Request.mk size) := by
    intro request member
    obtain ⟨rfl, inside⟩ := past request (List.mem_append_right _ member)
    exact List.mem_map_of_mem (List.mem_range.mpr inside)
  have distinct := (List.nodup_append.mp accounted.nodup).2.1
  have length := (distinct.subperm measured).length_le
  rwa [List.length_map, List.length_map, List.length_range] at length

/-! ## Whole runs -/

/-- In every run of either unit in which nothing of an earlier request is outstanding
when the next request is sent or the next message size begins, an entry appended
after a request was sent was triggered by its response, and `evaluate` finds no more
entries than samples. -/
theorem matched_of_settledBefore {cfg : Config} {state : State}
    (reached : (machine cfg).Reaches (SettledBefore cfg) State.init state) :
    Matched state ∧ WithinSamples cfg state := by
  have accounted : Accounted cfg state :=
    reached.invariant (Accounted.init cfg)
      fun _ _ _ accounted enabled settled => accounted.apply enabled settled
  refine ⟨?_, accounted.withinSamples⟩
  intro entry member request window
  have sent := accounted.windows entry member
  exact Option.some.inj (sent.symm.trans window)

/-- Every request is answered in its wait, up to the evaluation of the second size. -/
def bothSizes (variant : Variant) : List Event :=
  [.run 0] ++ opening variant 1000 ++ response ⟨0, 0⟩ 2000 ++ [.run 2000] ++
    opening variant 3000 ++ response ⟨0, 1⟩ 4000 ++
    [.run 4000, .run 4000, .run 4000, .run 4000] ++
    opening variant 10000 ++ response ⟨1, 0⟩ 11000 ++ [.run 11000] ++
    opening variant 12000 ++ response ⟨1, 1⟩ 13000 ++ [.run 13000, .run 13000]

/-- Either unit measures both requests of the second size. -/
theorem exists_measured (variant : Variant) :
    ∃ state, (machine (twoSizes variant)).Reaches
      (SettledBefore (twoSizes variant)) State.init state ∧ state.pc = .evaluate 1 ∧
      state.times.map Entry.trigger = [⟨1, 0⟩, ⟨1, 1⟩] := by
  cases variant with
  | rtps => exact Machine.exists_reaches_of_exec (bothSizes .rtps) (by decide +kernel)
  | lwip => exact Machine.exists_reaches_of_exec (bothSizes .lwip) (by decide +kernel)

/-- The requests of the second size are measured by their own responses. -/
theorem matched_second_size :
    (∃ state, (machine (twoSizes .rtps)).Reaches
      (SettledBefore (twoSizes .rtps)) State.init state ∧ state.pc = .evaluate 1 ∧
        state.times.map Entry.trigger = [⟨1, 0⟩, ⟨1, 1⟩] ∧ Matched state ∧
        WithinSamples (twoSizes .rtps) state) ∧
    ∃ state, (machine (twoSizes .lwip)).Reaches
      (SettledBefore (twoSizes .lwip)) State.init state ∧ state.pc = .evaluate 1 ∧
        state.times.map Entry.trigger = [⟨1, 0⟩, ⟨1, 1⟩] ∧ Matched state ∧
        WithinSamples (twoSizes .lwip) state := by
  obtain ⟨state, reached, evaluates, measured⟩ := exists_measured .rtps
  obtain ⟨state', reached', evaluates', measured'⟩ := exists_measured .lwip
  exact ⟨⟨state, reached, evaluates, measured, matched_of_settledBefore reached⟩,
    ⟨state', reached', evaluates', measured', matched_of_settledBefore reached'⟩⟩

/-- The wait for the first request times out and its response is measured as that of
the second request. -/
def lateInSize (variant : Variant) : List Event :=
  [.run 0] ++ opening variant 1000 ++ [.timeout] ++ opening variant 9000 ++
    response ⟨0, 0⟩ 10000

/-- The wait for the last request of a size times out and its response comes in after
the list was cleared, so that the next size ends with an entry too many. -/
def lateInNextSize (variant : Variant) : List Event :=
  [.run 0] ++ opening variant 1000 ++ response ⟨0, 0⟩ 2000 ++ [.run 2000] ++
    opening variant 3000 ++ [.timeout, .run 9000, .run 9000, .run 9000] ++
    response ⟨0, 1⟩ 9500 ++
    opening variant 10000 ++ response ⟨1, 0⟩ 11000 ++ [.run 11000] ++
    opening variant 12000 ++ response ⟨1, 1⟩ 13000 ++ [.run 13000, .run 13000]

/-- In both units a late response is measured as that of a request it does not
answer, and can leave `evaluate` with more entries than samples. -/
theorem late_response_mismatched :
    (∃ state, (machine (twoSizes .rtps)).Reaches Machine.AnyStep State.init state ∧
      ¬ Matched state) ∧
    (∃ state, (machine (twoSizes .lwip)).Reaches Machine.AnyStep State.init state ∧
      ¬ Matched state) ∧
    (∃ state, (machine (twoSizes .rtps)).Reaches Machine.AnyStep State.init state ∧
      ¬ WithinSamples (twoSizes .rtps) state) ∧
    ∃ state, (machine (twoSizes .lwip)).Reaches Machine.AnyStep State.init state ∧
      ¬ WithinSamples (twoSizes .lwip) state :=
  ⟨Machine.exists_reaches_of_exec (lateInSize .rtps) (by decide),
    Machine.exists_reaches_of_exec (lateInSize .lwip) (by decide),
    Machine.exists_reaches_of_exec (lateInNextSize .rtps) (by decide),
    Machine.exists_reaches_of_exec (lateInNextSize .lwip) (by decide)⟩

end EmbeddedRtps.Latency
