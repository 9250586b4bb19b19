import EmbeddedRtps.Multicast.Consistency

/-!
# Stale responses

`responderCallback` drops a response whose id is not `currentId`, as one that may
be delayed from an earlier round.  The check leaves three windows open:

* ids restart in every round, so a response to the same sample of an earlier round
  carries the right id;
* `numberOfResponses` is reset before `currentId` changes, so in between a response
  to the previous sample is counted for the new one;
* the check is made before the lock is taken, so the sample can change between the
  two.

A run in which none of these windows is used measures every sample with its own
responses only.
-/

namespace EmbeddedRtps.Multicast

open Foundation Port

/-- The round a packet was sent in. -/
def Packet.round? : Packet → Option Nat
  | .init => none
  | .sample place => some place.round

/-- `run` is about to reset `numberOfResponses`. -/
def RunPc.resets : RunPc → Bool
  | .reset _ => true
  | _ => false

/-- No window is used in this step.  When a sample resets the counter, no callback
stands between its id check and the lock; and when a response is found to carry
`currentId`, that id is already the one of the sample being counted and the
response belongs to its round. -/
def WindowsClosed (cfg : Config) (state : State) : Event → Prop
  | .run _ => state.pc.resets = true → state.matched = []
  | .dispatch delivery =>
      isResponse cfg.multicast (delivery.exchange.pType cfg) →
      delivery.exchange.id = state.currentId →
        state.pc.idPending = false ∧
          delivery.exchange.packet.round? = state.ghost.sample.map Sample.round
  | _ => True

instance (cfg : Config) (state : State) (event : Event) :
    Decidable (WindowsClosed cfg state event) :=
  match event with
  | .run _ => inferInstanceAs (Decidable (_ → _))
  | .dispatch _ => inferInstanceAs (Decidable (_ → _ → _))
  | .sendFails | .timeout | .answer _ | .loseRequest _ | .loseResponse _
  | .deliver _ _ | .countPartner _ | .countResponse _ | .signal _ => isTrue trivial

/-- All responses of a list answer the packet of the given sample. -/
def Answers (sample : Option Sample) (exchanges : List Exchange) : Prop :=
  ∀ place, sample = some place →
    ∀ exchange ∈ exchanges, exchange.packet = .sample place

instance (sample : Option Sample) (exchanges : List Exchange) :
    Decidable (Answers sample exchanges) :=
  match sample with
  | none => isTrue fun _ located => by cases located
  | some place =>
      decidable_of_iff (∀ exchange ∈ exchanges, exchange.packet = .sample place)
        ⟨fun all _ located => by cases located; exact all, fun all => all place rfl⟩

theorem Answers.nil (sample : Option Sample) : Answers sample [] := by
  intro _ _ exchange member
  cases member

theorem Answers.append {sample : Option Sample} {left right : List Exchange}
    (first : Answers sample left) (second : Answers sample right) :
    Answers sample (left ++ right) := by
  intro place located exchange member
  rcases List.mem_append.mp member with member | member
  · exact first place located exchange member
  · exact second place located exchange member

theorem Answers.subset {sample : Option Sample} {exchanges part : List Exchange}
    (all : Answers sample exchanges) (included : part ⊆ exchanges) :
    Answers sample part := by
  intro place located exchange member
  exact all place located exchange (included member)

/-- Every measurement so far was made with the responses to its own packet. -/
def Unmixed (state : State) : Prop :=
  ∀ recorded ∈ state.rtimes, Answers recorded.sample recorded.counted

instance (state : State) : Decidable (Unmixed state) :=
  inferInstanceAs (Decidable (∀ recorded ∈ state.rtimes, _))

/-- The responses that have been counted for the open sample, or are about to be,
answer its packet. -/
structure Fresh (state : State) : Prop where
  matched : Answers state.ghost.sample (state.matched.map Delivery.exchange)
  counted : Answers state.ghost.sample state.ghost.counted
  unmixed : Unmixed state

/-- A response that passes the id check with all windows closed answers the packet
of the open sample. -/
theorem answers_of_dispatch {cfg : Config} {state : State} {delivery : Delivery}
    (consistent : Consistent state)
    (closed : WindowsClosed cfg state (.dispatch delivery))
    (response : isResponse cfg.multicast (delivery.exchange.pType cfg))
    (current : delivery.exchange.id = state.currentId) :
    Answers state.ghost.sample [delivery.exchange] := by
  intro place located exchange member
  rcases List.mem_singleton.mp member
  obtain ⟨settled, sameRound⟩ := closed response current
  have sameIndex := current.trans (consistent.currentId settled place located)
  rw [located] at sameRound
  cases packetEq : delivery.exchange.packet with
  | init => simp [packetEq, Packet.round?] at sameRound
  | sample sent =>
      simp only [packetEq, Packet.round?, Option.map_some, Option.some.injEq] at sameRound
      simp only [Exchange.id, packetEq, Packet.id] at sameIndex
      cases sent
      cases place
      simp_all

theorem Fresh.start (currentId : Nat) : Fresh (State.start currentId) where
  matched := .nil _
  counted := .nil _
  unmixed _ member := by cases member

theorem Fresh.run {cfg : Config} {state : State} {now : Nat} (fresh : Fresh state)
    (closed : WindowsClosed cfg state (.run now)) : Fresh (state.run cfg now) := by
  cases pcEq : state.pc with
  | sendInit | settle | startTime sample | setId sample | send sample | finished =>
      simp only [State.run, pcEq]
      exact { fresh with }
  | clear round =>
      simp only [State.run, pcEq]
      exact { fresh with unmixed := fun _ member => by cases member }
  | reset sample =>
      have idle : state.matched = [] := closed (by rw [pcEq]; rfl)
      simp only [State.run, pcEq]
      exact {
        matched := by
          simp only [idle]
          exact .nil _
        counted := .nil _
        unmixed := fresh.unmixed }
  | wait sample | blocked sample =>
      simp only [State.run, pcEq, State.semWait]
      split <;> exact { fresh with }
  | evaluate round =>
      simp only [State.run, pcEq]
      exact { fresh with
        unmixed := fun recorded member =>
          fresh.unmixed recorded ((List.mem_insertionSort _).mp member) }

/-- Counting a matched response moves it to the counted ones; if it completes the
sample, all that has been counted answers the packet of that sample. -/
theorem Fresh.countResponse {state : State} {delivery : Delivery}
    (fresh : Fresh state) (running : delivery ∈ state.matched) :
    Fresh (state.countResponse delivery) := by
  have remaining : Answers state.ghost.sample
      ((state.matched.erase delivery).map Delivery.exchange) :=
    fresh.matched.subset (List.map_subset _ List.erase_subset)
  have counted : Answers state.ghost.sample
      (state.ghost.counted ++ [delivery.exchange]) := by
    refine fresh.counted.append (fresh.matched.subset ?_)
    intro exchange member
    rcases List.mem_singleton.mp member
    exact List.mem_map_of_mem running
  simp only [State.countResponse]
  split
  · refine ⟨remaining, counted, ?_⟩
    intro recorded member
    rcases List.mem_append.mp member with earlier | latest
    · exact fresh.unmixed recorded earlier
    · rcases List.mem_singleton.mp latest
      exact counted
  · exact ⟨remaining, counted, fresh.unmixed⟩

theorem Fresh.dispatch {cfg : Config} {state : State} {delivery : Delivery}
    (fresh : Fresh state) (consistent : Consistent state)
    (closed : WindowsClosed cfg state (.dispatch delivery)) :
    Fresh (state.dispatch cfg delivery) := by
  simp only [State.dispatch]
  split
  · exact { fresh with }
  · split
    next response =>
      split
      next current =>
        refine { fresh with matched := ?_ }
        rw [List.map_append]
        exact fresh.matched.append
          (answers_of_dispatch consistent closed response current)
      next => exact { fresh with }
    next => exact { fresh with }

theorem Fresh.apply {cfg : Config} {state : State} {event : Event}
    (fresh : Fresh state) (consistent : Consistent state)
    (enabled : Enabled state event) (closed : WindowsClosed cfg state event) :
    Fresh (state.apply cfg event) := by
  cases event with
  | run now => exact fresh.run closed
  | sendFails =>
      simp only [State.apply, State.sendFails]
      split <;> exact { fresh with }
  | timeout =>
      simp only [State.apply, State.timeout]
      split <;> exact { fresh with }
  | answer exchange | loseRequest exchange | loseResponse exchange
  | deliver exchange now | countPartner delivery | signal sample =>
      exact { fresh with }
  | dispatch delivery => exact fresh.dispatch consistent closed
  | countResponse delivery => exact fresh.countResponse enabled

/-- In every run that uses none of the windows, each measurement is made with
responses to its own packet only. -/
theorem unmixed_of_windowsClosed {cfg : Config} {currentId : Nat} {state : State}
    (reached : (machine cfg).Reaches (WindowsClosed cfg)
      (State.start currentId) state) : Unmixed state := by
  have fresh : Fresh state :=
    reached.invariant (Fresh.start currentId)
      fun _ _ before fresh enabled closed =>
        fresh.apply (Consistent.of_reaches before) enabled closed
  exact fresh.unmixed

/-- One response to the first sample comes in time, the other one in the second sample,
where it is discarded.  The rest of the round times out, and the next round begins. -/
def secondRound : List Event :=
  greetings twoResponders ++ [.run 0, .run 0] ++ opening 1000 ++
    response ⟨⟨0, true⟩, .sample ⟨0, 0⟩⟩ 5000 ++ [.timeout] ++ opening 10000 ++
    arrival ⟨⟨1, true⟩, .sample ⟨0, 0⟩⟩ 11000 ++
    response ⟨⟨1, true⟩, .sample ⟨0, 1⟩⟩ 12000 ++
    response ⟨⟨0, true⟩, .sample ⟨0, 1⟩⟩ 13000 ++ [.signal (some ⟨0, 1⟩), .run 14000] ++
    (List.replicate (numSamples - 2) (opening 20000 ++ [.timeout])).flatten ++
    [.run 30000, .run 30000] ++ answered ⟨0, true⟩ ⟨1, true⟩ ⟨1, 0⟩ 40000 ++
    answered ⟨1, true⟩ ⟨0, true⟩ ⟨1, 1⟩ 50000

/-- Both samples of the second round are measured. -/
theorem unmixed_second_round :
    ∃ state, (machine twoResponders).Reaches (WindowsClosed twoResponders)
      (State.start 0) state ∧ state.ghost.discarded ≠ [] ∧
      state.rtimes.map Recorded.sample = [some ⟨1, 0⟩, some ⟨1, 1⟩] ∧ Unmixed state := by
  obtain ⟨state, reached, discarded, measured⟩ :
      ∃ state, (machine twoResponders).Reaches (WindowsClosed twoResponders)
        (State.start 0) state ∧ state.ghost.discarded ≠ [] ∧
        state.rtimes.map Recorded.sample = [some ⟨1, 0⟩, some ⟨1, 1⟩] :=
    Machine.exists_reaches_of_exec secondRound (by decide +kernel)
  exact ⟨state, reached, discarded, measured, unmixed_of_windowsClosed reached⟩

/-- The wait of the first sample times out, the second sample resets the counter,
and only then the response to the first one arrives: `currentId` is still 0, so
the response is counted and completes the second sample. -/
theorem late_response_measured :
    ∃ state, (machine oneResponder).Reaches Machine.AnyStep (State.start 0) state ∧
      ¬ Unmixed state :=
  Machine.exists_reaches_of_exec (greetings oneResponder ++ [.run 0, .run 0] ++
    opening 1000 ++ [.timeout, .run 0] ++ response (oneExchange 0) 5000) (by decide)

end EmbeddedRtps.Multicast
