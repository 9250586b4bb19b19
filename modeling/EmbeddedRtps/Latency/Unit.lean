import EmbeddedRtps.Foundation.Machine
import Mathlib.Data.List.Sort
import Mathlib.Data.Rat.Defs

/-!
# The two latency units and their responder

`MeasurementUnit` sends its requests over RTPS, `LwipMeasurementUnit` sends plain
UDP datagrams.  Their threads differ in what happens around the send: the first
gives up the message size when a send fails, the second goes on with the next
sample; only the second allocates a `pbuf` for each request.  Everything else is
the same code, so one machine models both.

Requests carry no id.  A request is known here by the message size and the sample
it was sent for, and the response to it by the same name.  One responder answers
each request it receives; requests and responses may be delayed, reordered or lost.

`measurementCallback` appends to `m_times` before it takes the lock, so that is an
event of its own, apart from the locked section that sets `m_receivedResponse`.
-/

namespace EmbeddedRtps.Latency

open Foundation

/-- Which of the two units is running. -/
inductive Variant where
  | rtps
  | lwip
  deriving DecidableEq, Repr

/-- The arguments of the constructor, and the timer overhead it measures, in
microseconds. -/
structure Config where
  variant : Variant
  numSamples : Nat
  messageSizesInBytes : List Nat
  overhead : ℚ

/-- Sample `index` of the message size at position `size`. -/
structure Request where
  size : Nat
  index : Nat
  deriving DecidableEq, Repr

/-- A running callback: the response it was called for and the time `end` it took
on entry, in nanoseconds. -/
structure Delivery where
  request : Request
  endTime : Nat
  deriving DecidableEq, Repr

/-- An entry of `m_times`.  The code keeps the duration in microseconds; the other
fields say which response triggered it and which request had been sent last. -/
structure Entry where
  duration : ℚ
  trigger : Request
  window : Option Request
  deriving DecidableEq

/-- Bookkeeping the program does not have. -/
structure Ghost where
  /-- The request sent last since the list was cleared. -/
  sent : Option Request := none
  /-- Iterations whose `pbuf_alloc` succeeded, whose buffer was freed, and whose
  buffer was dereferenced. -/
  allocated : List Request := []
  freed : List Request := []
  dereferenced : List Request := []
  deriving DecidableEq

/-- Where the thread stands in `run` and `runWithSpecificSize`. -/
inductive RunPc where
  | prepare (size : Nat)
  /-- The head of the loop over the samples. -/
  | iterate (request : Request)
  | allocate (request : Request)
  | lock (request : Request)
  | start (request : Request)
  | send (request : Request)
  | wait (request : Request)
  | evaluate (size : Nat)
  | finished
  deriving DecidableEq, Repr

/-- The unit, the callbacks it is running and the network. -/
structure State where
  pc : RunPc
  receivedResponse : Bool
  numBytes : Nat
  /-- `m_start`, in nanoseconds. -/
  start : Nat
  /-- `m_times`. -/
  times : List Entry
  /-- The local `buffer` is not `NULL`. -/
  buffer : Bool
  /-- Requests on their way to the responder. -/
  requests : List Request
  /-- Responses on their way back. -/
  responses : List Request
  /-- Callbacks that have not yet appended to `m_times`. -/
  received : List Delivery
  /-- Callbacks about to take the lock. -/
  notifying : List Request
  ghost : Ghost
  deriving DecidableEq

/-- The unit when `run` begins. -/
def State.init : State where
  pc := .prepare 0
  receivedResponse := false
  numBytes := 0
  start := 0
  times := []
  buffer := false
  requests := []
  responses := []
  received := []
  notifying := []
  ghost := {}

/-! ## The thread -/

/-- The next turn of the loop over the samples. -/
def Request.next (request : Request) : RunPc :=
  .iterate ⟨request.size, request.index + 1⟩

/-- `prepare`, for the size at position `size`, or the end of `run`. -/
def State.prepare (cfg : Config) (size : Nat) (state : State) : State :=
  match cfg.messageSizesInBytes[size]? with
  | none => { state with pc := .finished }
  | some numBytes =>
      { state with
        pc := .iterate ⟨size, 0⟩
        numBytes := numBytes
        times := []
        ghost := { state.ghost with sent := none } }

/-- The head of the loop: the `lwip` unit allocates a buffer before it takes the
lock. -/
def State.iterate (cfg : Config) (request : Request) (state : State) : State :=
  if request.index < cfg.numSamples then
    match cfg.variant with
    | .rtps => { state with pc := .lock request }
    | .lwip => { state with pc := .allocate request }
  else
    { state with pc := .evaluate request.size }

/-- `wait_for` has returned.  The `lwip` unit sets the flag and frees its buffer. -/
def State.endWait (cfg : Config) (request : Request) (state : State) : State :=
  match cfg.variant with
  | .rtps => { state with pc := request.next }
  | .lwip =>
      { state with
        pc := request.next
        receivedResponse := true
        ghost := { state.ghost with freed := state.ghost.freed ++ [request] } }

/-- One step of the thread at the clock reading `now`. -/
def State.run (cfg : Config) (now : Nat) (state : State) : State :=
  match state.pc with
  | .prepare size => state.prepare cfg size
  | .iterate request => state.iterate cfg request
  | .allocate request =>
      { state with
        pc := .lock request
        buffer := true
        ghost := { state.ghost with allocated := state.ghost.allocated ++ [request] } }
  | .lock request => { state with pc := .start request, receivedResponse := false }
  | .start request => { state with pc := .send request, start := now }
  | .send request =>
      { state with
        pc := .wait request
        requests := state.requests ++ [request]
        ghost := { state.ghost with sent := some request } }
  | .wait request => state.endWait cfg request
  | .evaluate size =>
      -- `evaluate` sorts the vector in place
      { state with
        pc := .prepare (size + 1)
        times := state.times.insertionSort
          fun left right => left.duration ≤ right.duration }
  | .finished => state

/-- `pbuf_alloc` has returned `NULL`. -/
def State.allocFails (state : State) : State :=
  match state.pc with
  | .allocate request => { state with pc := .lock request, buffer := false }
  | _ => state

/-- `newChange` has returned `nullptr`, or `udp_sendto` an error.  The `rtps` unit
leaves `runWithSpecificSize`; the `lwip` unit prints `buffer->tot_len` and
continues. -/
def State.sendFails (cfg : Config) (state : State) : State :=
  match state.pc with
  | .send request =>
      match cfg.variant with
      | .rtps => { state with pc := .evaluate request.size }
      | .lwip =>
          { state with
            pc := request.next
            ghost := { state.ghost with
              dereferenced := state.ghost.dereferenced ++ [request] } }
  | _ => state

/-- `wait_for` gives up. -/
def State.timeout (cfg : Config) (state : State) : State :=
  match state.pc with
  | .wait request => state.endWait cfg request
  | _ => state

/-! ## The callback -/

/-- `measurementCallback` before its locked section. -/
def State.push (cfg : Config) (delivery : Delivery) (state : State) : State :=
  { state with
    times := state.times ++
      [{ duration := ((delivery.endTime : ℚ) - state.start) / 1000 - cfg.overhead
         trigger := delivery.request
         window := state.ghost.sent }]
    received := state.received.erase delivery
    notifying := state.notifying ++ [delivery.request] }

/-- Its locked section. -/
def State.notify (request : Request) (state : State) : State :=
  { state with
    receivedResponse := true
    notifying := state.notifying.erase request }

/-! ## The machine -/

inductive Event where
  /-- The thread takes a step. -/
  | run (now : Nat)
  | allocFails
  | sendFails
  | timeout
  /-- The responder receives a request and answers it. -/
  | answer (request : Request)
  | loseRequest (request : Request)
  | loseResponse (request : Request)
  /-- A response arrives and its callback starts. -/
  | deliver (request : Request) (now : Nat)
  | push (delivery : Delivery)
  | notify (request : Request)
  deriving DecidableEq, Repr

/-- The thread holds `m_mutex`. -/
def RunPc.locked : RunPc → Bool
  | .start _ | .send _ => true
  | _ => false

def RunPc.allocates : RunPc → Bool
  | .allocate _ => true
  | _ => false

def RunPc.sends : RunPc → Bool
  | .send _ => true
  | _ => false

def RunPc.waits : RunPc → Bool
  | .wait _ => true
  | _ => false

/-- `run` is about to call `evaluate`. -/
def RunPc.evaluates : RunPc → Bool
  | .evaluate _ => true
  | _ => false

/-- The thread can go on by itself: a wait needs the flag, and `udp_sendto` does not
succeed without a buffer. -/
def State.canRun (cfg : Config) (state : State) : Bool :=
  match state.pc with
  | .wait _ => state.receivedResponse
  | .send _ => cfg.variant == .rtps || state.buffer
  | .finished => false
  | _ => true

/-- When an event can happen. -/
def Enabled (cfg : Config) (state : State) : Event → Prop
  | .run _ => state.canRun cfg = true
  | .allocFails => state.pc.allocates = true
  | .sendFails => state.pc.sends = true
  | .timeout => state.pc.waits = true
  | .answer request => request ∈ state.requests
  | .loseRequest request => request ∈ state.requests
  | .loseResponse request => request ∈ state.responses
  | .deliver request _ => request ∈ state.responses
  | .push delivery => delivery ∈ state.received
  | .notify request => request ∈ state.notifying ∧ state.pc.locked = false

instance (cfg : Config) (state : State) (event : Event) :
    Decidable (Enabled cfg state event) :=
  match event with
  | .run _ | .allocFails | .sendFails | .timeout => inferInstanceAs (Decidable (_ = _))
  | .answer _ | .loseRequest _ | .loseResponse _ | .deliver _ _ | .push _ =>
      inferInstanceAs (Decidable (_ ∈ _))
  | .notify _ => inferInstanceAs (Decidable (_ ∧ _))

/-- What an event does. -/
def State.apply (cfg : Config) (state : State) : Event → State
  | .run now => state.run cfg now
  | .allocFails => state.allocFails
  | .sendFails => state.sendFails cfg
  | .timeout => state.timeout cfg
  | .answer request =>
      { state with
        requests := state.requests.erase request
        responses := state.responses ++ [request] }
  | .loseRequest request =>
      { state with requests := state.requests.erase request }
  | .loseResponse request =>
      { state with responses := state.responses.erase request }
  | .deliver request now =>
      { state with
        responses := state.responses.erase request
        received := state.received ++ [⟨request, now⟩] }
  | .push delivery => state.push cfg delivery
  | .notify request => state.notify request

/-- A latency unit with its responder. -/
def machine (cfg : Config) : Machine State Event where
  Enabled := Enabled cfg
  apply := State.apply cfg

instance (cfg : Config) (state : State) (event : Event) :
    Decidable ((machine cfg).Enabled state event) :=
  inferInstanceAs (Decidable (Enabled cfg state event))

/-! ## Schedules -/

/-- Two samples for each of two message sizes. -/
def twoSizes (variant : Variant) : Config where
  variant := variant
  numSamples := 2
  messageSizesInBytes := [1, 4]
  overhead := 0

/-- From the head of the loop to the wait, all at the clock reading `now`. -/
def opening (variant : Variant) (now : Nat) : List Event :=
  match variant with
  | .rtps => List.replicate 4 (.run now)
  | .lwip => List.replicate 5 (.run now)

/-- A request is answered and the callback for the response runs to its end. -/
def response (request : Request) (now : Nat) : List Event :=
  [.answer request, .deliver request now, .push ⟨request, now⟩, .notify request]

end EmbeddedRtps.Latency
