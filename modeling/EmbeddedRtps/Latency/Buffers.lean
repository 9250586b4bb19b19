import EmbeddedRtps.Foundation.Ledger
import EmbeddedRtps.Latency.Unit

/-!
# The buffers of the UDP loop

`LwipMeasurementUnit::runWithSpecificSize` allocates a `pbuf` at the head of each
iteration and frees it after the wait.  The branch for a failed `udp_sendto` leaves the
iteration before that, and reads `buffer->tot_len` for its message without looking
whether there is a buffer.

Buffers are named by the iteration that allocated them.  A failed send always does
damage: it loses the buffer if there was one, and otherwise dereferences `NULL`.
-/

namespace EmbeddedRtps.Latency

open Foundation

/-- The buffers so far.  Those in `used` were dereferenced by the unit itself. -/
def State.ledger (state : State) : Ledger Request where
  allocated := state.ghost.allocated
  freed := state.ghost.freed
  used := state.ghost.dereferenced

/-- The head of an iteration, or the end of the loop. -/
def RunPc.atHead : RunPc → Bool
  | .iterate _ | .evaluate _ => true
  | _ => false

/-- Remember whether a send has failed. -/
def sendFailed (_ : State) (event : Event) (failed : Bool) : Bool :=
  match event with
  | .sendFails => true
  | _ => failed

/-- A run leads to the state, and `failed` says whether a send has failed in it. -/
def ObservedSends (cfg : Config) (state : State) (failed : Bool) : Prop :=
  ((machine cfg).monitored sendFailed).Reaches Machine.AnyStep
    (State.init, false) (state, failed)

/-! ## Iterations -/

/-- One request is sent before another. -/
def Request.Before (earlier later : Request) : Prop :=
  earlier.size < later.size ∨ earlier.size = later.size ∧ earlier.index < later.index

theorem Request.not_before_self (request : Request) : ¬ request.Before request := by
  rintro (size | ⟨_, index⟩)
  · exact Nat.lt_irrefl _ size
  · exact Nat.lt_irrefl _ index

/-- The iteration of this request is over. -/
def RunPc.Over : RunPc → Request → Prop
  | .iterate current, request | .allocate current, request | .lock current, request
  | .start current, request | .send current, request | .wait current, request =>
      request.Before current
  | .evaluate size, request => request.size ≤ size
  | .prepare size, request => request.size < size
  | .finished, _ => True

theorem Request.over_next_self (request : Request) : request.next.Over request :=
  Or.inr ⟨rfl, Nat.lt_succ_self _⟩

theorem Request.over_next {earlier request : Request} (before : earlier.Before request) :
    request.next.Over earlier := by
  rcases before with size | ⟨size, index⟩
  · exact Or.inl size
  · exact Or.inr ⟨size, Nat.lt_succ_of_lt index⟩

theorem Request.size_le_of_before {earlier request : Request}
    (before : earlier.Before request) : earlier.size ≤ request.size := by
  rcases before with size | ⟨size, _⟩
  · exact Nat.le_of_lt size
  · exact Nat.le_of_eq size

/-- The buffer of the current iteration. -/
def RunPc.held (buffer : Bool) : RunPc → List Request
  | .lock request | .start request | .send request | .wait request =>
      if buffer then [request] else []
  | _ => []

/-! ## The invariant -/

/-- A wait has a buffer to free, and the ledger is damaged exactly by failed sends. -/
structure Booked (state : State) (failed : Bool) : Prop where
  waits : state.pc.waits = true → state.buffer = true
  keeps : state.ledger.Keeps state.pc.Over (state.pc.held state.buffer) failed

theorem Booked.init : Booked State.init false where
  waits waiting := by cases waiting
  keeps :=
    { allocated := fun _ member => by cases member
      freed := fun _ member => by cases member
      undamaged := fun _ => ⟨List.Perm.refl _, rfl⟩
      damage := fun damaged => by cases damaged }

section Steps

variable {cfg : Config} {state : State} {failed : Bool} {request : Request}

/-- Apart from the wait only the ledger matters. -/
theorem Booked.apart (elsewhere : state.pc.waits = false)
    (keeps : state.ledger.Keeps state.pc.Over (state.pc.held state.buffer) failed) :
    Booked state failed where
  waits waiting := by simp [elsewhere] at waiting
  keeps := keeps

/-- The callbacks and the network have nothing to do with the buffers. -/
theorem Booked.frame {after : State} (booked : Booked state failed)
    (pc : after.pc = state.pc) (buffer : after.buffer = state.buffer)
    (ledger : after.ledger = state.ledger) : Booked after failed := by
  constructor
  case waits =>
      rw [pc, buffer]
      exact booked.waits
  case keeps =>
      rw [pc, buffer, ledger]
      exact booked.keeps

theorem Booked.endWait (booked : Booked state failed) (lwip : cfg.variant = .lwip)
    (pcEq : state.pc = .wait request) : Booked (state.endWait cfg request) failed := by
  have buffer : state.buffer = true := booked.waits (by rw [pcEq]; rfl)
  have keeps := booked.keeps
  rw [pcEq, buffer] at keeps
  simp only [State.endWait, lwip]
  exact .apart rfl (keeps.free request.not_before_self (fun _ => Request.over_next)
    request.over_next_self)

/-- The error branch ends the iteration with the buffer it has, or has not. -/
theorem Booked.sendFails (booked : Booked state failed) (lwip : cfg.variant = .lwip)
    (sends : state.pc.sends = true) : Booked (state.sendFails cfg) true := by
  cases pcEq : state.pc with
  | send request =>
      have keeps := booked.keeps
      rw [pcEq] at keeps
      have own : ∀ other ∈ RunPc.held state.buffer (.send request), other = request := by
        intro other member
        rw [RunPc.held] at member
        split at member
        next => exact List.mem_singleton.mp member
        next => cases member
      simp only [State.sendFails, pcEq, lwip]
      exact .apart rfl (keeps.abandon own request.not_before_self
        (fun _ => Request.over_next) request.over_next_self)
  | _ => simp [pcEq, RunPc.sends] at sends

theorem Booked.allocFails (booked : Booked state failed)
    (allocates : state.pc.allocates = true) : Booked state.allocFails failed := by
  cases pcEq : state.pc with
  | allocate request =>
      have keeps := booked.keeps
      rw [pcEq] at keeps
      simp only [State.allocFails, pcEq]
      exact .apart rfl keeps
  | _ => simp [pcEq, RunPc.allocates] at allocates

theorem Booked.timeout (booked : Booked state failed) (lwip : cfg.variant = .lwip)
    (waits : state.pc.waits = true) : Booked (state.timeout cfg) failed := by
  cases pcEq : state.pc with
  | wait request =>
      simp only [State.timeout, pcEq]
      exact booked.endWait lwip pcEq
  | _ => simp [pcEq, RunPc.waits] at waits

/-- The normal path allocates and frees the buffer of each iteration. -/
theorem Booked.run (booked : Booked state failed) (lwip : cfg.variant = .lwip)
    (possible : state.canRun cfg = true) (now : Nat) :
    Booked (state.run cfg now) failed := by
  have keeps := booked.keeps
  cases pcEq : state.pc with
  | prepare size =>
      rw [pcEq] at keeps
      simp only [State.run, pcEq, State.prepare]
      split
      next => exact .apart rfl (keeps.mono fun _ _ => trivial)
      next =>
        exact .apart rfl (keeps.mono fun _ before => Or.inl before)
  | iterate request =>
      rw [pcEq] at keeps
      simp only [State.run, pcEq, State.iterate, lwip]
      split
      next => exact .apart rfl keeps
      next =>
        exact .apart rfl (keeps.mono fun _ => Request.size_le_of_before)
  | allocate request =>
      rw [pcEq] at keeps
      simp only [State.run, pcEq]
      exact .apart rfl (keeps.allocate request.not_before_self)
  | lock request =>
      rw [pcEq] at keeps
      simp only [State.run, pcEq]
      exact .apart rfl keeps
  | start request =>
      rw [pcEq] at keeps
      simp only [State.run, pcEq]
      exact .apart rfl keeps
  | send request =>
      -- `udp_sendto` has accepted the buffer, so there is one
      have buffer : state.buffer = true := by
        simpa [State.canRun, pcEq, lwip] using possible
      rw [pcEq] at keeps
      simp only [State.run, pcEq]
      exact ⟨fun _ => buffer, keeps⟩
  | wait request =>
      simp only [State.run, pcEq]
      exact booked.endWait lwip pcEq
  | evaluate size =>
      rw [pcEq] at keeps
      simp only [State.run, pcEq]
      exact .apart rfl (keeps.mono fun _ => Nat.lt_succ_of_le)
  | finished => simp [State.canRun, pcEq] at possible

theorem Booked.step (booked : Booked state failed) (lwip : cfg.variant = .lwip)
    (event : Event) (enabled : Enabled cfg state event) :
    Booked (state.apply cfg event) (sendFailed state event failed) := by
  cases event with
  | run now => exact booked.run lwip enabled now
  | allocFails => exact booked.allocFails enabled
  | sendFails => exact booked.sendFails lwip enabled
  | timeout => exact booked.timeout lwip enabled
  | answer | loseRequest | loseResponse | deliver | push | notify =>
      exact booked.frame rfl rfl rfl

theorem booked_of_reaches (lwip : cfg.variant = .lwip) {pair : State × Bool}
    (reached : ((machine cfg).monitored sendFailed).Reaches Machine.AnyStep
      (State.init, false) pair) : Booked pair.1 pair.2 := by
  induction reached with
  | refl => exact Booked.init
  | @step pair event _ enabled _ booked => exact booked.step lwip event enabled

end Steps

/-! ## No buffer is lost unless a send fails -/

theorem RunPc.held_eq_nil_of_atHead {pc : RunPc} (head : pc.atHead = true)
    (buffer : Bool) : pc.held buffer = [] := by
  cases pc with
  | iterate | evaluate => rfl
  | _ => cases head

/-- At the head of every iteration and at the end of the loop, each buffer that was
allocated has been freed exactly once, and only buffers that were allocated have been
dereferenced, exactly if no `udp_sendto` has returned an error so far. -/
theorem balanced_iff_no_send_failed (cfg : Config) (lwip : cfg.variant = .lwip)
    {state : State} (reached : (machine cfg).Reaches Machine.AnyStep State.init state)
    (head : state.pc.atHead = true) :
    (∃ failed, ObservedSends cfg state failed) ∧
      ∀ failed, ObservedSends cfg state failed →
        (state.ledger.Balanced ↔ failed = false) := by
  constructor
  · exact reached.monitored sendFailed false
  · intro failed observed
    have keeps := (booked_of_reaches lwip observed).keeps
    rw [RunPc.held_eq_nil_of_atHead head] at keeps
    exact keeps.balanced_iff

/-- One sample is answered and the wait for the next one times out: at the end of the
loop both buffers have been freed. -/
theorem exists_freed_at_loop_end :
    ∃ pair, ((machine (twoSizes .lwip)).monitored sendFailed).Reaches Machine.AnyStep
      (State.init, false) pair ∧ pair.1.pc = .evaluate 0 ∧ pair.2 = false ∧
        pair.1.ghost.allocated = [⟨0, 0⟩, ⟨0, 1⟩] :=
  Machine.exists_reaches_of_exec
    ([.run 0] ++ opening .lwip 1000 ++ response ⟨0, 0⟩ 2000 ++ [.run 2000] ++
      opening .lwip 3000 ++ [.timeout, .run 9000]) (by decide)

/-- The buffers of a loop without a failed send. -/
theorem balanced_without_failed_send :
    ∃ state, (machine (twoSizes .lwip)).Reaches Machine.AnyStep State.init state ∧
      state.pc = .evaluate 0 ∧ state.ghost.allocated = [⟨0, 0⟩, ⟨0, 1⟩] ∧
        state.ledger.Balanced := by
  obtain ⟨⟨state, failed⟩, observed, pc, fine, allocated⟩ := exists_freed_at_loop_end
  refine ⟨state, observed.unmonitored, pc, allocated, ?_⟩
  have both := balanced_iff_no_send_failed (twoSizes .lwip) rfl observed.unmonitored
    (by rw [show (state, failed).1.pc = _ from pc]; rfl)
  exact (both.2 failed observed).mpr fine

/-- The error branch as the first iteration takes it, with the outcome of `pbuf_alloc`
before it. -/
def failedSend (allocation : Event) : List Event :=
  [.run 0, .run 0, allocation, .run 1000, .run 1000, .sendFails]

/-- A failed send with a buffer loses it, and one without a buffer dereferences
`NULL`. -/
theorem failed_send_damages :
    (∃ state, (machine (twoSizes .lwip)).Reaches Machine.AnyStep State.init state ∧
      state.pc = .iterate ⟨0, 1⟩ ∧ ⟨0, 0⟩ ∈ state.ghost.allocated ∧
        ⟨0, 0⟩ ∉ state.ghost.freed ∧ ¬ state.ledger.Balanced) ∧
    ∃ state, (machine (twoSizes .lwip)).Reaches Machine.AnyStep State.init state ∧
      state.pc = .iterate ⟨0, 1⟩ ∧ ⟨0, 0⟩ ∈ state.ghost.dereferenced ∧
        ⟨0, 0⟩ ∉ state.ghost.allocated ∧ ¬ state.ledger.Balanced :=
  ⟨Machine.exists_reaches_of_exec (failedSend (.run 0)) (by decide),
    Machine.exists_reaches_of_exec (failedSend .allocFails) (by decide)⟩

end EmbeddedRtps.Latency
