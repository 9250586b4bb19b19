import EmbeddedRtps.Foundation.Transit
import EmbeddedRtps.Multicast.Consistency

/-!
# Nominal runs

When every responder answers every packet, nothing is lost, no wait times out and
all partners are known before the first sample, a round measures each of its
samples once.  The sample is completed by the last of its responses, whatever the
order in which they come in.

Between two samples the system is silent: no packet is on its way and no callback
runs.  While a sample waits, the packets on their way and those delivered make up
one exchange for each responder; `Stage` follows the callback that is running.
-/

namespace EmbeddedRtps.Multicast

open Foundation Port

/-- No callback is running. -/
def NoCallback (state : State) : Prop :=
  state.received = [] ∧ state.greeting = [] ∧ state.matched = [] ∧
    state.finishing = []

/-- Besides, no packet is on its way. -/
def Silent (state : State) : Prop :=
  state.requests = [] ∧ state.responses = [] ∧ NoCallback state

instance (state : State) : Decidable (NoCallback state) :=
  inferInstanceAs (Decidable (_ ∧ _))

instance (state : State) : Decidable (Silent state) :=
  inferInstanceAs (Decidable (_ ∧ _))

/-- Responders in the mode of the sender, as many as its counters can hold. -/
structure NominalConfig (cfg : Config) : Prop where
  mode : ∀ responder ∈ cfg.responders, responder.multicast = cfg.multicast
  positive : 1 ≤ cfg.responders.length
  bounded : cfg.responders.length ≤ 255

/-- A step of a nominal run: nothing is lost, no send fails, no wait times out,
callbacks run one at a time, and the first sample starts when all answers to the
INIT packet have been processed. -/
def Nominal (state : State) : Event → Prop
  | .run _ => state.pc = .reset ⟨0, 0⟩ → Silent state
  | .deliver _ _ => NoCallback state
  | .sendFails | .timeout | .loseRequest _ | .loseResponse _ => False
  | .answer _ | .dispatch _ | .countPartner _ | .countResponse _ | .signal _ => True

instance (state : State) (event : Event) : Decidable (Nominal state event) :=
  match event with
  | .run _ => inferInstanceAs (Decidable (_ → _))
  | .deliver _ _ => inferInstanceAs (Decidable (NoCallback state))
  | .sendFails | .timeout | .loseRequest _ | .loseResponse _ =>
      inferInstanceAs (Decidable False)
  | .answer _ | .dispatch _ | .countPartner _ | .countResponse _ | .signal _ =>
      isTrue trivial

/-- The entry was appended in `sample`, when the responses of all responders to its
packet had been delivered and counted, in the same order. -/
def MeasuredBy (cfg : Config) (sample : Sample) (recorded : Recorded) : Prop :=
  recorded.sample = some sample ∧
    recorded.counted = recorded.delivered ∧
    recorded.counted.Perm (cfg.requestsFor (.sample sample))

/-- The list holds one entry for each of the first `count` samples of a round. -/
def Measured (cfg : Config) (round count : Nat) (rtimes : List Recorded) : Prop :=
  rtimes.length = count ∧
    ∀ index recorded, rtimes[index]? = some recorded →
      MeasuredBy cfg ⟨round, index⟩ recorded

theorem Measured.nil (cfg : Config) (round : Nat) : Measured cfg round 0 [] :=
  ⟨rfl, fun _ _ found => by cases found⟩

theorem Measured.append {cfg : Config} {round count : Nat} {rtimes : List Recorded}
    (measured : Measured cfg round count rtimes) {recorded : Recorded}
    (latest : MeasuredBy cfg ⟨round, count⟩ recorded) :
    Measured cfg round (count + 1) (rtimes ++ [recorded]) := by
  obtain ⟨length, entries⟩ := measured
  constructor
  · rw [List.length_append, length, List.length_singleton]
  · intro index found lookup
    rw [List.getElem?_append] at lookup
    split at lookup
    next => exact entries index found lookup
    next outside =>
      have position : index - rtimes.length = 0 := by
        cases rest : index - rtimes.length with
        | zero => rfl
        | succ _ => simp [rest] at lookup
      have here : index = count := by omega
      simp only [position, List.getElem?_cons_zero, Option.some.injEq] at lookup
      subst here
      subst lookup
      exact latest

/-- The partners are being counted: each responder has been counted or has an
exchange over the INIT packet under way. -/
structure Gathering (cfg : Config) (state : State) : Prop where
  matched : state.matched = []
  finishing : state.finishing = []
  sem : state.sem.c = 0
  rtimes : state.rtimes = []
  requests : ∀ exchange ∈ state.requests, exchange.packet = .init
  responses : ∀ exchange ∈ state.responses, exchange.packet = .init
  received : ∀ delivery ∈ state.received, delivery.exchange.packet = .init
  partners : state.numberOfPartners + state.requests.length +
    state.responses.length + state.received.length + state.greeting.length =
      cfg.responders.length

/-- Nothing is going on and every responder is a partner. -/
structure Ready (cfg : Config) (state : State) : Prop where
  silent : Silent state
  sem : state.sem.c = 0
  partners : state.numberOfPartners = cfg.responders.length

/-- What the running callback, if any, is doing while a sample waits. -/
inductive Stage (cfg : Config) (sample : Sample) (state : State) : Prop where
  | collecting (idle : NoCallback state)
      (counted : state.ghost.counted = state.ghost.delivered)
      (missing : state.ghost.counted.length < cfg.responders.length)
      (sem : state.sem.c = 0)
      (measured : Measured cfg sample.round sample.index state.rtimes)
  | branching (delivery : Delivery) (received : state.received = [delivery])
      (greeting : state.greeting = []) (matched : state.matched = [])
      (finishing : state.finishing = [])
      (counted : state.ghost.delivered = state.ghost.counted ++ [delivery.exchange])
      (sem : state.sem.c = 0)
      (measured : Measured cfg sample.round sample.index state.rtimes)
  | locking (delivery : Delivery) (received : state.received = [])
      (greeting : state.greeting = []) (matched : state.matched = [delivery])
      (finishing : state.finishing = [])
      (counted : state.ghost.delivered = state.ghost.counted ++ [delivery.exchange])
      (sem : state.sem.c = 0)
      (measured : Measured cfg sample.round sample.index state.rtimes)
  | signalling (received : state.received = []) (greeting : state.greeting = [])
      (matched : state.matched = []) (finishing : state.finishing = [some sample])
      (complete : state.ghost.delivered.length = cfg.responders.length)
      (sem : state.sem.c = 0)
      (measured : Measured cfg sample.round (sample.index + 1) state.rtimes)
  | signalled (idle : NoCallback state)
      (complete : state.ghost.delivered.length = cfg.responders.length)
      (sem : state.sem.c = 1)
      (measured : Measured cfg sample.round (sample.index + 1) state.rtimes)

/-- A sample has sent its packet and its wait has not returned. -/
structure Waiting (cfg : Config) (sample : Sample) (state : State) : Prop where
  partners : state.numberOfPartners = cfg.responders.length
  balance : (state.requests ++ state.responses ++ state.ghost.delivered).Perm
    (cfg.requestsFor (.sample sample))
  stage : Stage cfg sample state

/-- The invariant of nominal runs, by the place of `run`. -/
def Phase (cfg : Config) (state : State) : Prop :=
  match state.pc with
  | .sendInit => Silent state ∧ state.sem.c = 0 ∧ state.numberOfPartners = 0 ∧
      state.rtimes = []
  | .settle => Gathering cfg state
  | .clear round => (round = 0 ∧ Gathering cfg state) ∨ Ready cfg state
  | .reset sample => (sample = ⟨0, 0⟩ ∧ Gathering cfg state) ∨
      (Ready cfg state ∧ Measured cfg sample.round sample.index state.rtimes)
  | .startTime sample | .setId sample | .send sample =>
      Ready cfg state ∧ state.ghost.delivered = [] ∧ state.ghost.counted = [] ∧
        Measured cfg sample.round sample.index state.rtimes
  | .wait sample | .blocked sample => Waiting cfg sample state
  | .evaluate round => Ready cfg state ∧ Measured cfg round numSamples state.rtimes
  | .finished => Ready cfg state

/-! ## Events of the network and of callbacks -/

/-- The event is not a step of `run`. -/
def Event.isCallback : Event → Prop
  | .run _ | .sendFails | .timeout => False
  | _ => True

/-- Parts of the state that such an event leaves alone in a nominal run. -/
def SameRun (before after : State) : Prop :=
  after.pc = before.pc ∧ after.ghost.discarded = before.ghost.discarded

theorem Config.length_requestsFor (cfg : Config) (packet : Packet) :
    (cfg.requestsFor packet).length = cfg.responders.length :=
  List.length_map _

theorem dispatch_init {cfg : Config} {state : State} {delivery : Delivery}
    (packet : delivery.exchange.packet = .init) :
    state.dispatch cfg delivery =
      { state with
        received := state.received.erase delivery
        greeting := state.greeting ++ [delivery] } := by
  have answer : isInitAnswer (delivery.exchange.pType cfg) delivery.exchange.id := by
    simp [isInitAnswer, Exchange.pType, Exchange.id, packet, Packet.pType, Packet.id,
      responseType]
  simp only [State.dispatch, if_pos answer]

theorem dispatch_current {cfg : Config} {state : State} {delivery : Delivery}
    {sample : Sample} (packet : delivery.exchange.packet = .sample sample)
    (mode : delivery.exchange.responder.multicast = cfg.multicast)
    (current : state.currentId = sample.index) :
    state.dispatch cfg delivery =
      { state with
        received := state.received.erase delivery
        matched := state.matched ++ [delivery] } := by
  have request : delivery.exchange.packet.pType cfg.multicast ≠
      MeasurementPacketType.init.code := by
    cases cfg.multicast <;> simp [packet, Packet.pType, MeasurementPacketType.code]
  have response : isResponse cfg.multicast (delivery.exchange.pType cfg) :=
    (isResponse_responseType _ _ request).mpr mode
  have notInit : ¬ isInitAnswer (delivery.exchange.pType cfg) delivery.exchange.id := by
    intro answer
    rw [answer.1] at response
    cases cfg.multicast <;> simp [isResponse, MeasurementPacketType.code] at response
  have same : delivery.exchange.id = state.currentId := by
    rw [current, Exchange.id, packet, Packet.id]
  simp only [State.dispatch, if_neg notInit, if_pos response, if_pos same]

/-- In a silent system only `run` can take a step. -/
theorem Silent.not_callback {state : State} {event : Event} (silent : Silent state)
    (enabled : Enabled state event) : ¬ event.isCallback := by
  obtain ⟨requests, responses, received, greeting, matched, finishing⟩ := silent
  intro callback
  cases event with
  | run now | sendFails | timeout => exact callback
  | answer exchange | loseRequest exchange =>
      simp [Enabled, requests] at enabled
  | loseResponse exchange | deliver exchange now =>
      simp [Enabled, responses] at enabled
  | dispatch delivery => simp [Enabled, received] at enabled
  | countPartner delivery => simp [Enabled, greeting] at enabled
  | countResponse delivery => simp [Enabled, matched] at enabled
  | signal sample => simp [Enabled, finishing] at enabled

theorem Gathering.step {cfg : Config} {state : State} {event : Event}
    (nominal : NominalConfig cfg) (gathering : Gathering cfg state)
    (enabled : Enabled state event) (admitted : Nominal state event)
    (callback : event.isCallback) :
    Gathering cfg (state.apply cfg event) ∧ SameRun state (state.apply cfg event) := by
  have bounded := nominal.bounded
  have partners := gathering.partners
  cases event with
  | run now | sendFails | timeout => exact callback.elim
  | loseRequest exchange | loseResponse exchange => exact admitted.elim
  | answer exchange =>
      have member : exchange ∈ state.requests := enabled
      have positive := List.length_pos_of_mem member
      refine ⟨{ gathering with
        requests := fun other rest =>
          gathering.requests other (List.mem_of_mem_erase rest)
        responses := ?_
        partners := ?_ }, rfl, rfl⟩
      · intro other inside
        rcases List.mem_append.mp inside with earlier | latest
        · exact gathering.responses other earlier
        · rcases List.mem_singleton.mp latest
          exact gathering.requests exchange member
      · simp only [State.apply, List.length_erase_of_mem member, List.length_append,
          List.length_singleton]
        omega
  | deliver exchange now =>
      have member : exchange ∈ state.responses := enabled
      have positive := List.length_pos_of_mem member
      refine ⟨{ gathering with
        responses := fun other rest =>
          gathering.responses other (List.mem_of_mem_erase rest)
        received := ?_
        partners := ?_ }, rfl, rfl⟩
      · intro other inside
        rcases List.mem_append.mp inside with earlier | latest
        · exact gathering.received other earlier
        · rcases List.mem_singleton.mp latest
          exact gathering.responses exchange member
      · simp only [State.apply, List.length_erase_of_mem member, List.length_append,
          List.length_singleton]
        omega
  | dispatch delivery =>
      have member : delivery ∈ state.received := enabled
      have positive := List.length_pos_of_mem member
      rw [State.apply, dispatch_init (gathering.received delivery member)]
      refine ⟨{ gathering with
        received := fun other rest =>
          gathering.received other (List.mem_of_mem_erase rest)
        partners := ?_ }, rfl, rfl⟩
      simp only [List.length_erase_of_mem member, List.length_append,
        List.length_singleton]
      omega
  | countPartner delivery =>
      have member : delivery ∈ state.greeting := enabled
      have positive := List.length_pos_of_mem member
      refine ⟨{ gathering with partners := ?_ }, rfl, rfl⟩
      simp only [State.apply, State.countPartner, List.length_erase_of_mem member]
      omega
  | countResponse delivery => simp [Enabled, gathering.matched] at enabled
  | signal sample => simp [Enabled, gathering.finishing] at enabled

theorem Waiting.length_le {cfg : Config} {sample : Sample} {state : State}
    (waiting : Waiting cfg sample state) :
    state.requests.length + state.responses.length + state.ghost.delivered.length =
      cfg.responders.length := by
  have length := waiting.balance.length_eq
  rwa [List.length_append, List.length_append, cfg.length_requestsFor] at length

/-- When all responses have been delivered, nothing else is on its way and the
delivered ones are those of all responders. -/
theorem Waiting.complete {cfg : Config} {sample : Sample} {state : State}
    (waiting : Waiting cfg sample state)
    (complete : state.ghost.delivered.length = cfg.responders.length) :
    state.requests = [] ∧ state.responses = [] ∧
      state.ghost.delivered.Perm (cfg.requestsFor (.sample sample)) := by
  have length := waiting.length_le
  have requests : state.requests = [] := List.eq_nil_of_length_eq_zero (by omega)
  have responses : state.responses = [] := List.eq_nil_of_length_eq_zero (by omega)
  have balance := waiting.balance
  rw [requests, responses] at balance
  exact ⟨requests, responses, balance⟩

/-- A response delivered while a sample waits is one it waits for. -/
theorem Waiting.delivered {cfg : Config} {sample : Sample} {state : State}
    (nominal : NominalConfig cfg) (waiting : Waiting cfg sample state)
    {exchange : Exchange} (member : exchange ∈ state.ghost.delivered) :
    exchange.packet = .sample sample ∧
      exchange.responder.multicast = cfg.multicast := by
  have expected : exchange ∈ cfg.requestsFor (.sample sample) :=
    waiting.balance.subset (List.mem_append_right _ member)
  obtain ⟨responder, known, rfl⟩ := List.mem_map.mp expected
  exact ⟨rfl, nominal.mode responder known⟩

/-- The stage does not depend on where `run` stands or on what is on its way. -/
theorem Stage.move {cfg : Config} {sample : Sample} {state : State}
    (stage : Stage cfg sample state) (pc : RunPc) (requests responses : List Exchange) :
    Stage cfg sample
      { state with pc := pc, requests := requests, responses := responses } := by
  cases stage with
  | collecting idle counted missing sem measured =>
      exact .collecting idle counted missing sem measured
  | branching delivery received greeting matched finishing counted sem measured =>
      exact .branching delivery received greeting matched finishing counted sem
        measured
  | locking delivery received greeting matched finishing counted sem measured =>
      exact .locking delivery received greeting matched finishing counted sem measured
  | signalling received greeting matched finishing complete sem measured =>
      exact .signalling received greeting matched finishing complete sem measured
  | signalled idle complete sem measured => exact .signalled idle complete sem measured

theorem Waiting.answer {cfg : Config} {sample : Sample} {state : State}
    {exchange : Exchange} (waiting : Waiting cfg sample state)
    (enabled : exchange ∈ state.requests) :
    Waiting cfg sample (state.apply cfg (.answer exchange)) where
  partners := waiting.partners
  balance := by
    refine ((erase_append_perm enabled state.responses).append_right _).trans ?_
    exact waiting.balance
  stage := waiting.stage.move state.pc _ _

theorem Waiting.deliver {cfg : Config} {sample : Sample} {state : State}
    {exchange : Exchange} {now : Nat} (waiting : Waiting cfg sample state)
    (enabled : exchange ∈ state.responses) (noCallback : NoCallback state) :
    Waiting cfg sample (state.apply cfg (.deliver exchange now)) where
  partners := waiting.partners
  balance := by
    have moved := (erase_append_perm enabled state.ghost.delivered).append_left
      state.requests
    simp only [State.apply]
    rw [List.append_assoc]
    refine moved.trans ?_
    rw [← List.append_assoc]
    exact waiting.balance
  stage := by
    obtain ⟨received, greeting, matched, finishing⟩ := noCallback
    cases waiting.stage with
    | collecting idle counted missing sem measured =>
        exact .branching ⟨exchange, now⟩ (by simp [State.apply, received]) greeting
          matched finishing (by simp [State.apply, counted]) sem measured
    | branching delivery running => simp [received] at running
    | locking delivery _ _ running => simp [matched] at running
    | signalling _ _ _ running => simp [finishing] at running
    | signalled idle complete =>
        simp [(waiting.complete complete).2.1] at enabled

theorem Waiting.dispatch {cfg : Config} {sample : Sample} {state : State}
    {delivery : Delivery} (nominal : NominalConfig cfg)
    (waiting : Waiting cfg sample state) (current : state.currentId = sample.index)
    (enabled : delivery ∈ state.received) :
    Waiting cfg sample (state.dispatch cfg delivery) ∧
      SameRun state (state.dispatch cfg delivery) := by
  cases waiting.stage with
  | collecting idle | signalled idle => simp [idle.1] at enabled
  | locking _ received | signalling received => simp [received] at enabled
  | branching running received greeting matched finishing counted sem measured =>
      rw [received] at enabled
      rcases List.mem_singleton.mp enabled
      obtain ⟨packet, mode⟩ := waiting.delivered nominal
        (show delivery.exchange ∈ state.ghost.delivered by rw [counted]; simp)
      rw [dispatch_current packet mode current]
      refine ⟨{ waiting with stage := ?_ }, rfl, rfl⟩
      exact .locking delivery (by simp [received]) greeting (by simp [matched])
        finishing counted sem measured

theorem Waiting.countResponse {cfg : Config} {sample : Sample} {state : State}
    {delivery : Delivery} (nominal : NominalConfig cfg)
    (consistent : Consistent state) (waiting : Waiting cfg sample state)
    (located : state.ghost.sample = some sample)
    (enabled : delivery ∈ state.matched) :
    Waiting cfg sample (state.countResponse delivery) ∧
      SameRun state (state.countResponse delivery) := by
  have bounded := nominal.bounded
  have length := waiting.length_le
  have counter := consistent.counter
  have partners := waiting.partners
  cases waiting.stage with
  | collecting idle | signalled idle => simp [idle.2.2.1] at enabled
  | branching _ _ _ matched | signalling _ _ matched => simp [matched] at enabled
  | locking running received greeting matched finishing counted sem measured =>
      rw [matched] at enabled
      rcases List.mem_singleton.mp enabled
      have delivered := congrArg List.length counted
      rw [List.length_append, List.length_singleton] at delivered
      simp only [State.countResponse]
      split
      next completes =>
        simp only [State.Completes] at completes
        have complete : state.ghost.delivered.length = cfg.responders.length := by
          omega
        have recorded : MeasuredBy cfg sample (state.record delivery) := by
          refine ⟨located, counted.symm, ?_⟩
          simp only [State.record]
          rw [← counted]
          exact (waiting.complete complete).2.2
        refine ⟨{ waiting with stage := ?_ }, rfl, rfl⟩
        exact .signalling received greeting (by simp [matched])
          (by simp [finishing, located]) complete sem (measured.append recorded)
      next more =>
        simp only [State.Completes] at more
        refine ⟨{ waiting with stage := ?_ }, rfl, rfl⟩
        refine .collecting ⟨received, greeting, by simp [matched], finishing⟩
          counted.symm ?_ sem measured
        simp only [List.length_append, List.length_singleton]
        omega

theorem Waiting.signal {cfg : Config} {sample : Sample} {state : State}
    {raiser : Option Sample} (waiting : Waiting cfg sample state)
    (enabled : raiser ∈ state.finishing) :
    Waiting cfg sample (state.signal raiser) := by
  cases waiting.stage with
  | collecting idle | signalled idle => simp [idle.2.2.2] at enabled
  | branching _ _ _ _ finishing | locking _ _ _ _ finishing =>
      simp [finishing] at enabled
  | signalling received greeting matched finishing complete sem measured =>
      rw [finishing] at enabled
      rcases List.mem_singleton.mp enabled
      exact { waiting with
        stage := .signalled
          ⟨received, greeting, matched, by simp [State.signal, finishing]⟩
          complete (SysSem.signal_c _) measured }

theorem Waiting.step {cfg : Config} {sample : Sample} {state : State} {event : Event}
    (nominal : NominalConfig cfg) (consistent : Consistent state)
    (waiting : Waiting cfg sample state)
    (located : state.ghost.sample = some sample)
    (current : state.currentId = sample.index)
    (enabled : Enabled state event) (admitted : Nominal state event)
    (callback : event.isCallback) :
    Waiting cfg sample (state.apply cfg event) ∧
      SameRun state (state.apply cfg event) := by
  cases event with
  | run now | sendFails | timeout => exact callback.elim
  | loseRequest exchange | loseResponse exchange => exact admitted.elim
  | answer exchange => exact ⟨waiting.answer enabled, rfl, rfl⟩
  | deliver exchange now => exact ⟨waiting.deliver enabled admitted, rfl, rfl⟩
  | dispatch delivery => exact waiting.dispatch nominal current enabled
  | countPartner delivery =>
      have none : state.greeting = [] := by
        cases waiting.stage with
        | collecting idle | signalled idle => exact idle.2.1
        | branching _ _ greeting | locking _ _ greeting | signalling _ greeting =>
            exact greeting
      simp [Enabled, none] at enabled
  | countResponse delivery =>
      exact waiting.countResponse nominal consistent located enabled
  | signal raiser => exact ⟨waiting.signal enabled, rfl, rfl⟩

/-! ## Steps of `run` -/

/-- When all INIT answers have been processed, every responder is a partner. -/
theorem Gathering.ready {cfg : Config} {state : State}
    (gathering : Gathering cfg state) (silent : Silent state) : Ready cfg state where
  silent := silent
  sem := gathering.sem
  partners := by
    obtain ⟨requests, responses, received, greeting, _⟩ := silent
    have partners := gathering.partners
    simpa [requests, responses, received, greeting] using partners

/-- The packet is sent to every responder. -/
theorem Ready.send {cfg : Config} {state : State} {sample : Sample}
    (nominal : NominalConfig cfg) (ready : Ready cfg state)
    (delivered : state.ghost.delivered = []) (counted : state.ghost.counted = [])
    (measured : Measured cfg sample.round sample.index state.rtimes) :
    Waiting cfg sample
      { state with
        pc := .wait sample
        requests := state.requests ++ cfg.requestsFor (.sample sample) } := by
  have positive := nominal.positive
  obtain ⟨requests, responses, idle⟩ := ready.silent
  refine ⟨ready.partners, ?_, ?_⟩
  · simp [requests, responses, delivered]
  · refine .collecting idle (counted.trans delivered.symm) ?_ ready.sem measured
    simp only [counted, List.length_nil]
    omega

/-- The wait returns when the sample has been completed and its callback is done. -/
theorem Waiting.semWait {cfg : Config} {sample : Sample} {state : State}
    (consistent : Consistent state) (here : state.pc.place = some sample)
    (waiting : Waiting cfg sample state) : Phase cfg (state.semWait sample) := by
  have inRange := consistent.inRange sample here
  simp only [State.semWait]
  split
  next =>
    exact Waiting.mk waiting.partners waiting.balance
      (waiting.stage.move (.blocked sample) _ _)
  next taken take =>
    have count := consistent.take take
    cases waiting.stage with
    | collecting _ _ _ sem | branching _ _ _ _ _ _ sem | locking _ _ _ _ _ _ sem
    | signalling _ _ _ _ _ sem => omega
    | signalled idle complete _ measured =>
        obtain ⟨requests, responses, _⟩ := waiting.complete complete
        have ready : Ready cfg
            { state with
              pc := sample.next
              sem := taken
              ghost := { state.ghost with
                raisedBy := []
                wakeups := state.ghost.wakeups ++
                  [⟨sample, state.ghost.raisedBy⟩] } } :=
          ⟨⟨requests, responses, idle⟩, count.2.1, waiting.partners⟩
        by_cases more : sample.index + 1 < numSamples
        · simp only [Phase, Sample.next, if_pos more]
          exact .inr ⟨{ ready with }, measured⟩
        · have last : sample.index + 1 = numSamples := by omega
          simp only [Phase, Sample.next, if_neg more]
          exact ⟨{ ready with }, last ▸ measured⟩

theorem Phase.run {cfg : Config} {state : State} {now : Nat}
    (nominal : NominalConfig cfg) (consistent : Consistent state)
    (phase : Phase cfg state) (admitted : Nominal state (.run now)) :
    Phase cfg (state.run cfg now) := by
  have place := consistent.inRange
  cases pcEq : state.pc with
  | sendInit =>
      simp only [Phase, pcEq] at phase
      obtain ⟨⟨requests, responses, received, greeting, matched, finishing⟩, sem,
        partners, rtimes⟩ := phase
      simp only [State.run, pcEq, Phase]
      refine ⟨matched, finishing, sem, rtimes, ?_, ?_, ?_, ?_⟩
      · intro exchange member
        simp only [requests, List.nil_append] at member
        obtain ⟨responder, _, rfl⟩ := List.mem_map.mp member
        rfl
      · simp [responses]
      · simp [received]
      · simp [requests, responses, received, greeting, partners,
          cfg.length_requestsFor]
  | settle =>
      simp only [Phase, pcEq] at phase
      simp only [State.run, pcEq]
      exact Or.inl ⟨rfl, { phase with }⟩
  | clear round =>
      simp only [Phase, pcEq] at phase
      simp only [State.run, pcEq]
      rcases phase with ⟨rfl, gathering⟩ | ready
      · exact Or.inl ⟨rfl, { gathering with rtimes := rfl }⟩
      · exact Or.inr ⟨{ ready with }, Measured.nil cfg round⟩
  | reset sample =>
      simp only [Phase, pcEq] at phase
      simp only [State.run, pcEq]
      rcases phase with ⟨rfl, gathering⟩ | ⟨ready, measured⟩
      · have ready := gathering.ready (admitted pcEq)
        have measured : Measured cfg 0 0 state.rtimes :=
          gathering.rtimes ▸ Measured.nil cfg 0
        exact And.intro { ready with } ⟨rfl, rfl, measured⟩
      · exact And.intro { ready with } ⟨rfl, rfl, measured⟩
  | startTime sample | setId sample =>
      simp only [Phase, pcEq] at phase
      simp only [State.run, pcEq, Phase]
      exact ⟨{ phase.1 with }, phase.2⟩
  | send sample =>
      simp only [Phase, pcEq] at phase
      obtain ⟨ready, delivered, counted, measured⟩ := phase
      simp only [State.run, pcEq, Phase]
      exact ready.send nominal delivered counted measured
  | wait sample | blocked sample =>
      simp only [Phase, pcEq] at phase
      simp only [State.run, pcEq]
      exact phase.semWait consistent (by rw [pcEq]; rfl)
  | evaluate round =>
      simp only [Phase, pcEq] at phase
      simp only [State.run, pcEq, Phase, nextRound]
      split <;> rename_i next
      all_goals split at next <;> cases next
      · exact .inr { phase.1 with }
      · exact { phase.1 with }
  | finished =>
      simp only [State.run, pcEq]
      exact phase

/-! ## Whole runs -/

/-- What a nominal run keeps: the phase of the protocol, and that no response has
been discarded. -/
def Regular (cfg : Config) (state : State) : Prop :=
  Phase cfg state ∧ state.ghost.discarded = []

theorem Regular.start (cfg : Config) (currentId : Nat) :
    Regular cfg (State.start currentId) :=
  ⟨⟨⟨rfl, rfl, rfl, rfl, rfl, rfl⟩, rfl, rfl, rfl⟩, rfl⟩

theorem run_discarded (cfg : Config) (now : Nat) (state : State) :
    (state.run cfg now).ghost.discarded = state.ghost.discarded := by
  cases pcEq : state.pc with
  | wait sample | blocked sample =>
      simp only [State.run, pcEq, State.semWait]
      split <;> rfl
  | _ => simp only [State.run, pcEq]

/-- A callback or the network moves: the phase depends on where `run` stands. -/
theorem Regular.callback {cfg : Config} {state : State} {event : Event}
    (nominal : NominalConfig cfg) (consistent : Consistent state)
    (regular : Regular cfg state) (enabled : Enabled state event)
    (admitted : Nominal state event) (callback : event.isCallback) :
    Regular cfg (state.apply cfg event) := by
  obtain ⟨phase, discarded⟩ := regular
  have gather (gathering : Gathering cfg state) :=
    gathering.step nominal enabled admitted callback
  have quiet (silent : Silent state) : False :=
    silent.not_callback enabled callback
  cases pcEq : state.pc with
  | sendInit =>
      simp only [Phase, pcEq] at phase
      exact (quiet phase.1).elim
  | settle =>
      simp only [Phase, pcEq] at phase
      obtain ⟨after, same, kept⟩ := gather phase
      simp only [Regular, Phase, same, pcEq]
      exact ⟨after, kept.trans discarded⟩
  | clear round =>
      simp only [Phase, pcEq] at phase
      rcases phase with ⟨first, gathering⟩ | ready
      · obtain ⟨after, same, kept⟩ := gather gathering
        simp only [Regular, Phase, same, pcEq]
        exact ⟨.inl ⟨first, after⟩, kept.trans discarded⟩
      · exact (quiet ready.silent).elim
  | reset sample =>
      simp only [Phase, pcEq] at phase
      rcases phase with ⟨first, gathering⟩ | ⟨ready, _⟩
      · obtain ⟨after, same, kept⟩ := gather gathering
        simp only [Regular, Phase, same, pcEq]
        exact ⟨.inl ⟨first, after⟩, kept.trans discarded⟩
      · exact (quiet ready.silent).elim
  | startTime sample | setId sample | send sample | evaluate round =>
      simp only [Phase, pcEq] at phase
      exact (quiet phase.1.silent).elim
  | wait sample | blocked sample =>
      simp only [Phase, pcEq] at phase
      have located := consistent.located sample (by rw [pcEq]; rfl)
      have current := consistent.currentId (by rw [pcEq]; rfl) sample located
      obtain ⟨after, same, kept⟩ :=
        phase.step nominal consistent located current enabled admitted callback
      simp only [Regular, Phase, same, pcEq]
      exact ⟨after, kept.trans discarded⟩
  | finished =>
      simp only [Phase, pcEq] at phase
      exact (quiet phase.silent).elim

theorem Regular.apply {cfg : Config} {state : State} {event : Event}
    (nominal : NominalConfig cfg) (consistent : Consistent state)
    (regular : Regular cfg state) (enabled : Enabled state event)
    (admitted : Nominal state event) : Regular cfg (state.apply cfg event) := by
  cases event with
  | run now =>
      exact ⟨regular.1.run nominal consistent admitted,
        (run_discarded cfg now state).trans regular.2⟩
  | sendFails | timeout => exact admitted.elim
  | _ => exact regular.callback nominal consistent enabled admitted trivial

theorem Regular.of_reaches {cfg : Config} {currentId : Nat} {state : State}
    (nominal : NominalConfig cfg)
    (reached : (machine cfg).Reaches Nominal (State.start currentId) state) :
    Regular cfg state :=
  reached.invariant (Regular.start cfg currentId)
    fun _ _ before regular enabled admitted =>
      regular.apply nominal (Consistent.of_reaches before) enabled admitted

/-- Nominal runs measure completely and exactly.  At each call of `evaluate` the list
holds one entry for each sample of the round, appended when the last of the
responses to its packet had been delivered and counted; no response is ever
discarded; and after each reset the semaphore is empty and nothing is under way. -/
theorem nominal_run_measures {cfg : Config} {currentId : Nat} {state : State}
    (nominal : NominalConfig cfg)
    (reached : (machine cfg).Reaches Nominal (State.start currentId) state) :
    (∀ round, state.pc = .evaluate round →
      state.rtimes.length = numSamples ∧
        ∀ index recorded, state.rtimes[index]? = some recorded →
          MeasuredBy cfg ⟨round, index⟩ recorded) ∧
    state.ghost.discarded = [] ∧
    (∀ sample, state.pc = .startTime sample → state.sem.c = 0 ∧ Silent state) := by
  obtain ⟨phase, discarded⟩ := Regular.of_reaches nominal reached
  refine ⟨?_, discarded, ?_⟩
  · intro round here
    simp only [Phase, here] at phase
    exact phase.2
  · intro sample here
    simp only [Phase, here] at phase
    exact ⟨phase.1.sem, phase.1.silent⟩

/-- One round with two responders, from the INIT packet to `evaluate`.  They take turns in
answering first. -/
def oneRound : List Event :=
  greetings twoResponders ++ [.run 0, .run 0] ++
    (List.range numSamples).flatMap fun index =>
      if index % 2 = 0 then answered ⟨0, true⟩ ⟨1, true⟩ ⟨0, index⟩ (10000 * index)
      else answered ⟨1, true⟩ ⟨0, true⟩ ⟨0, index⟩ (10000 * index)

/-- A nominal run with two responders reaches `evaluate`. -/
theorem nominal_run_measures_one_round :
    ∃ state, (machine twoResponders).Reaches Nominal (State.start 0) state ∧
      state.pc = .evaluate 0 ∧ state.rtimes.length = numSamples ∧
      (state.rtimes.take 2).map (fun recorded =>
        recorded.counted.map fun exchange => exchange.responder.index) = [[0, 1], [1, 0]] ∧
      ∀ recorded ∈ state.rtimes, recorded.duration = 5 := by
  have nominal : NominalConfig twoResponders :=
    ⟨by decide, by decide, by decide⟩
  obtain ⟨state, reached, evaluates, orders, durations⟩ :
      ∃ state, (machine twoResponders).Reaches Nominal (State.start 0) state ∧
        state.pc = .evaluate 0 ∧
        (state.rtimes.take 2).map (fun recorded =>
          recorded.counted.map fun exchange => exchange.responder.index) = [[0, 1], [1, 0]] ∧
        ∀ recorded ∈ state.rtimes, recorded.duration = 5 :=
    Machine.exists_reaches_of_exec oneRound (by decide +kernel)
  exact ⟨state, reached, evaluates,
    ((nominal_run_measures nominal reached).1 0 evaluates).1, orders, durations⟩

end EmbeddedRtps.Multicast
