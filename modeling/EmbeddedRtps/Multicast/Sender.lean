import EmbeddedRtps.Foundation.Machine
import EmbeddedRtps.Multicast.Basic
import EmbeddedRtps.Port.SysArch
import Mathlib.Data.List.Sort
import Mathlib.Data.Rat.Defs

/-!
# The multicast sender and its responders

One `MulticastSender` exchanges packets with any number of responders.  The
thread in `run` and every activation of `responderCallback` advance
independently, so a callback can stand anywhere while the thread moves on.  The
network delivers requests and responses in any order, after any delay, or never;
it neither duplicates nor invents them.

The sections under `m_mutex` are one event each, because only they touch the two
counters.  The comparison of a response with `currentId` is an event of its own:
the code makes it before it takes the lock.

Besides the fields of the class a state has a `Ghost`, which records what the
counters stand for.  No event reads it.
-/

namespace EmbeddedRtps.Multicast

open Foundation Port

/-- A place in the two nested loops of `run`: sample `index` of round `round`. -/
structure Sample where
  round : Nat
  index : Nat
  deriving DecidableEq, Repr

/-- A packet the sender has written, named by the place it was written at. -/
inductive Packet where
  | init
  | sample (sample : Sample)
  deriving DecidableEq, Repr

/-- A `MulticastReceiver`, started in one of the two modes. -/
structure Responder where
  index : Nat
  multicast : Bool
  deriving DecidableEq, Repr

/-- The mode of the sender and the responders it can reach. -/
structure Config where
  multicast : Bool
  responders : List Responder
  deriving Repr

/-- One responder's turn with one packet.  The same name stands for the request on
its way to the responder and for the answer on its way back. -/
structure Exchange where
  responder : Responder
  packet : Packet
  deriving DecidableEq, Repr

/-- The type the sender gives to a packet, in `sendInitPacket` and in
`buildAndSendPacket`. -/
def Packet.pType (multicast : Bool) : Packet → UInt16
  | .init => MeasurementPacketType.init.code
  | .sample _ =>
      if multicast then
        MeasurementPacketType.sendMulticast.code
      else
        MeasurementPacketType.sendUnicast.code

/-- The id the sender gives to a packet.  It restarts in every round. -/
def Packet.id : Packet → Nat
  | .init => 0
  | .sample place => place.index

/-- Type of the answer, chosen by the responder. -/
def Exchange.pType (cfg : Config) (exchange : Exchange) : UInt16 :=
  responseType exchange.responder.multicast
    (exchange.packet.pType cfg.multicast)

/-- Id of the answer, echoed by the responder. -/
def Exchange.id (exchange : Exchange) : Nat :=
  exchange.packet.id

/-- A running callback: the response it was called for and the time `end` it took
on entry, in nanoseconds. -/
structure Delivery where
  exchange : Exchange
  endTime : Nat
  deriving DecidableEq, Repr

/-- An entry of `m_rtimes`.  The code keeps the duration in microseconds; the other
fields say in which sample it was appended and which responses had then been
delivered and counted in it, the last one counted being the response that
completed the sample. -/
structure Recorded where
  duration : ℚ
  sample : Option Sample
  delivered : List Exchange
  counted : List Exchange
  deriving DecidableEq

/-- A return of `sys_arch_sem_wait` other than by timeout, with the samples that had
raised the signal it consumed. -/
structure Wakeup where
  sample : Sample
  raisedBy : List (Option Sample)
  deriving DecidableEq, Repr

/-- Bookkeeping the program does not have. -/
structure Ghost where
  /-- The sample that reset `numberOfResponses` last. -/
  sample : Option Sample := none
  /-- The responses delivered since that reset, in order. -/
  delivered : List Exchange := []
  /-- The responses counted since that reset, in order. -/
  counted : List Exchange := []
  /-- How many responses had been counted at each append since that reset. -/
  completions : List Nat := []
  /-- The samples whose signals are merged in the semaphore. -/
  raisedBy : List (Option Sample) := []
  wakeups : List Wakeup := []
  /-- The responses discarded because of their id. -/
  discarded : List Exchange := []
  deriving DecidableEq

/-- Where the thread stands in `run`. -/
inductive RunPc where
  | sendInit
  /-- Sleeping after the INIT packet. -/
  | settle
  | clear (round : Nat)
  | reset (sample : Sample)
  | startTime (sample : Sample)
  | setId (sample : Sample)
  | send (sample : Sample)
  /-- About to look at the semaphore. -/
  | wait (sample : Sample)
  /-- Asleep in `cond_wait`. -/
  | blocked (sample : Sample)
  | evaluate (round : Nat)
  | finished
  deriving DecidableEq, Repr

/-- The sender, the callbacks it is running and the network. -/
structure State where
  pc : RunPc
  numberOfResponses : Nat
  numberOfPartners : Nat
  currentId : Nat
  /-- `m_time`, in nanoseconds. -/
  time : Nat
  /-- `m_rtimes`. -/
  rtimes : List Recorded
  /-- `m_sem`. -/
  sem : SysSem
  /-- Packets on their way to a responder. -/
  requests : List Exchange
  /-- Answers on their way back. -/
  responses : List Exchange
  /-- Callbacks that have decoded their message and not yet branched on it. -/
  received : List Delivery
  /-- Callbacks about to count a partner. -/
  greeting : List Delivery
  /-- Callbacks that have found `mp.id == currentId` and not yet taken the lock. -/
  matched : List Delivery
  /-- Callbacks with `finish` set and the signal still to raise, by the sample they
  appended a value in. -/
  finishing : List (Option Sample)
  ghost : Ghost
  deriving DecidableEq

/-- The sender when `run` has cleared its counters.  The constructor leaves
`currentId` uninitialised. -/
def State.start (currentId : Nat) : State where
  pc := .sendInit
  numberOfResponses := 0
  numberOfPartners := 0
  currentId := currentId
  time := 0
  rtimes := []
  sem := ⟨0⟩
  requests := []
  responses := []
  received := []
  greeting := []
  matched := []
  finishing := []
  ghost := {}

/-! ## The thread in `run` -/

/-- One request for every responder. -/
def Config.requestsFor (cfg : Config) (packet : Packet) : List Exchange :=
  cfg.responders.map fun responder => ⟨responder, packet⟩

/-- Where `run` goes when the wait of a sample has returned. -/
def Sample.next (sample : Sample) : RunPc :=
  if sample.index + 1 < numSamples then
    .reset ⟨sample.round, sample.index + 1⟩
  else
    .evaluate sample.round

/-- Where `run` goes when a round has been evaluated. -/
def nextRound (round : Nat) : RunPc :=
  if round + 1 < numRounds then .clear (round + 1) else .finished

/-- `sys_arch_sem_wait` on `m_sem`, up to its next blocking point. -/
def State.semWait (sample : Sample) (state : State) : State :=
  match state.sem.take? with
  | none => { state with pc := .blocked sample }
  | some sem =>
      { state with
        pc := sample.next
        sem := sem
        ghost := { state.ghost with
          raisedBy := []
          wakeups := state.ghost.wakeups ++ [⟨sample, state.ghost.raisedBy⟩] } }

/-- One step of `MulticastSender::run` at the clock reading `now`. -/
def State.run (cfg : Config) (now : Nat) (state : State) : State :=
  match state.pc with
  | .sendInit =>
      { state with
        pc := .settle
        requests := state.requests ++ cfg.requestsFor .init }
  | .settle => { state with pc := .clear 0 }
  | .clear round => { state with pc := .reset ⟨round, 0⟩, rtimes := [] }
  | .reset sample =>
      { state with
        pc := .startTime sample
        numberOfResponses := 0
        ghost := { state.ghost with
          sample := some sample, delivered := [], counted := [], completions := [] } }
  | .startTime sample =>
      -- `time_point_cast<microseconds>`
      { state with pc := .setId sample, time := now / 1000 * 1000 }
  | .setId sample => { state with pc := .send sample, currentId := sample.index }
  | .send sample =>
      { state with
        pc := .wait sample
        requests := state.requests ++ cfg.requestsFor (.sample sample) }
  | .wait sample | .blocked sample => state.semWait sample
  | .evaluate round =>
      -- `evaluate` sorts the vector in place
      { state with
        pc := nextRound round
        rtimes := state.rtimes.insertionSort
          fun left right => left.duration ≤ right.duration }
  | .finished => state

/-- `newChange` has returned `nullptr`: the packet is not sent and `run` goes on. -/
def State.sendFails (state : State) : State :=
  match state.pc with
  | .sendInit => { state with pc := .settle }
  | .send sample => { state with pc := .wait sample }
  | _ => state

/-- `sys_arch_sem_wait` has returned `SYS_ARCH_TIMEOUT`. -/
def State.timeout (state : State) : State :=
  match state.pc with
  | .blocked sample => { state with pc := sample.next }
  | _ => state

/-! ## The callback -/

/-- The branching of `responderCallback` on a decoded message.  The lock is not
held. -/
def State.dispatch (cfg : Config) (delivery : Delivery) (state : State) : State :=
  let rest := { state with received := state.received.erase delivery }
  let pType := delivery.exchange.pType cfg
  let id := delivery.exchange.id
  if isInitAnswer pType id then
    { rest with greeting := state.greeting ++ [delivery] }
  else if isResponse cfg.multicast pType then
    if id = state.currentId then
      { rest with matched := state.matched ++ [delivery] }
    else
      { rest with ghost := { state.ghost with
          discarded := state.ghost.discarded ++ [delivery.exchange] } }
  else
    rest

/-- All that the branching can change. -/
theorem State.exists_dispatch_eq (cfg : Config) (delivery : Delivery) (state : State) :
    ∃ greeting matched discarded, state.dispatch cfg delivery =
      { state with
        received := state.received.erase delivery
        greeting := greeting
        matched := matched
        ghost := { state.ghost with discarded := discarded } } := by
  simp only [State.dispatch]
  split
  next => exact ⟨_, _, _, rfl⟩
  next =>
    split
    next => split <;> exact ⟨_, _, _, rfl⟩
    next => exact ⟨_, _, _, rfl⟩

/-- The locked section for an INIT answer. -/
def State.countPartner (delivery : Delivery) (state : State) : State :=
  { state with
    greeting := state.greeting.erase delivery
    numberOfPartners := (state.numberOfPartners + 1) % 256 }

/-- The condition `++numberOfResponses == numberOfPartners`, on 8-bit counters. -/
def State.Completes (state : State) : Prop :=
  (state.numberOfResponses + 1) % 256 = state.numberOfPartners

instance (state : State) : Decidable state.Completes :=
  inferInstanceAs (Decidable (_ = _))

/-- The entry appended by the callback that completes a sample. -/
def State.record (delivery : Delivery) (state : State) : Recorded where
  duration := ((delivery.endTime : ℚ) - state.time) / 1000
  sample := state.ghost.sample
  delivered := state.ghost.delivered
  counted := state.ghost.counted ++ [delivery.exchange]

/-- The locked section for a response. -/
def State.countResponse (delivery : Delivery) (state : State) : State :=
  let rest := { state with
    matched := state.matched.erase delivery
    numberOfResponses := (state.numberOfResponses + 1) % 256
    ghost := { state.ghost with
      counted := state.ghost.counted ++ [delivery.exchange] } }
  if state.Completes then
    { rest with
      rtimes := state.rtimes ++ [state.record delivery]
      finishing := state.finishing ++ [state.ghost.sample]
      ghost := { rest.ghost with
        completions := state.ghost.completions ++ [rest.ghost.counted.length] } }
  else
    rest

/-- `sys_sem_signal`, after the lock has been released. -/
def State.signal (sample : Option Sample) (state : State) : State :=
  { state with
    finishing := state.finishing.erase sample
    sem := state.sem.signal
    ghost := { state.ghost with raisedBy := state.ghost.raisedBy ++ [sample] } }

/-! ## The machine -/

inductive Event where
  /-- The thread in `run` takes a step. -/
  | run (now : Nat)
  | sendFails
  | timeout
  /-- A responder receives a packet and answers it. -/
  | answer (exchange : Exchange)
  | loseRequest (exchange : Exchange)
  | loseResponse (exchange : Exchange)
  /-- A response arrives and its callback starts. -/
  | deliver (exchange : Exchange) (now : Nat)
  | dispatch (delivery : Delivery)
  | countPartner (delivery : Delivery)
  | countResponse (delivery : Delivery)
  | signal (sample : Option Sample)
  deriving DecidableEq, Repr

/-- `run` is about to hand a packet to `newChange`. -/
def RunPc.sends : RunPc → Bool
  | .sendInit | .send _ => true
  | _ => false

/-- `run` is asleep in `sys_arch_sem_wait`. -/
def RunPc.sleeps : RunPc → Bool
  | .blocked _ => true
  | _ => false

/-- When an event can happen. -/
def Enabled (state : State) : Event → Prop
  | .run _ => state.pc ≠ .finished
  | .sendFails => state.pc.sends = true
  | .timeout => state.pc.sleeps = true
  | .answer exchange => exchange ∈ state.requests
  | .loseRequest exchange => exchange ∈ state.requests
  | .loseResponse exchange => exchange ∈ state.responses
  | .deliver exchange _ => exchange ∈ state.responses
  | .dispatch delivery => delivery ∈ state.received
  | .countPartner delivery => delivery ∈ state.greeting
  | .countResponse delivery => delivery ∈ state.matched
  | .signal sample => sample ∈ state.finishing

instance (state : State) (event : Event) : Decidable (Enabled state event) :=
  match event with
  | .run _ => inferInstanceAs (Decidable (_ ≠ _))
  | .sendFails | .timeout => inferInstanceAs (Decidable (_ = _))
  | .answer _ | .loseRequest _ | .loseResponse _ | .deliver _ _ | .dispatch _
  | .countPartner _ | .countResponse _ | .signal _ =>
      inferInstanceAs (Decidable (_ ∈ _))

/-- What an event does. -/
def State.apply (cfg : Config) (state : State) : Event → State
  | .run now => state.run cfg now
  | .sendFails => state.sendFails
  | .timeout => state.timeout
  | .answer exchange =>
      { state with
        requests := state.requests.erase exchange
        responses := state.responses ++ [exchange] }
  | .loseRequest exchange =>
      { state with requests := state.requests.erase exchange }
  | .loseResponse exchange =>
      { state with responses := state.responses.erase exchange }
  | .deliver exchange now =>
      { state with
        responses := state.responses.erase exchange
        received := state.received ++ [⟨exchange, now⟩]
        ghost := { state.ghost with
          delivered := state.ghost.delivered ++ [exchange] } }
  | .dispatch delivery => state.dispatch cfg delivery
  | .countPartner delivery => state.countPartner delivery
  | .countResponse delivery => state.countResponse delivery
  | .signal sample => state.signal sample

/-- The sender with its responders. -/
def machine (cfg : Config) : Machine State Event where
  Enabled := Enabled
  apply := State.apply cfg

instance (cfg : Config) (state : State) (event : Event) :
    Decidable ((machine cfg).Enabled state event) :=
  inferInstanceAs (Decidable (Enabled state event))

/-! ## Schedules -/

/-- A responder answers a packet and the answer reaches the branching of the
callback. -/
def arrival (exchange : Exchange) (now : Nat) : List Event :=
  [.answer exchange, .deliver exchange now, .dispatch ⟨exchange, now⟩]

/-- The INIT packet is sent and all responders are counted as partners. -/
def greetings (cfg : Config) : List Event :=
  .run 0 :: (cfg.requestsFor .init).flatMap fun exchange =>
    arrival exchange 0 ++ [.countPartner ⟨exchange, 0⟩]

/-- A response is counted. -/
def response (exchange : Exchange) (now : Nat) : List Event :=
  arrival exchange now ++ [.countResponse ⟨exchange, now⟩]

/-- One responder in the mode of a multicast sender. -/
def oneResponder : Config where
  multicast := true
  responders := [⟨0, true⟩]

/-- Two responders in the mode of a multicast sender. -/
def twoResponders : Config where
  multicast := true
  responders := [⟨0, true⟩, ⟨1, true⟩]

/-- The exchange of its responder over a sample of the first round. -/
def oneExchange (index : Nat) : Exchange where
  responder := ⟨0, true⟩
  packet := .sample ⟨0, index⟩

/-- From the reset of a sample to its first look at the semaphore, all at the clock
reading `now`. -/
def opening (now : Nat) : List Event :=
  List.replicate 5 (.run now)

/-- A sample from its reset to the return of its wait, answered by one responder after the
other. -/
def answered (first second : Responder) (sample : Sample) (now : Nat) : List Event :=
  opening now ++ response ⟨first, .sample sample⟩ (now + 4000) ++
    response ⟨second, .sample sample⟩ (now + 5000) ++ [.signal (some sample), .run (now + 6000)]

end EmbeddedRtps.Multicast
