import EmbeddedRtps.Foundation.Machine
import EmbeddedRtps.Foundation.Ring
import EmbeddedRtps.Foundation.Signed
import EmbeddedRtps.Port.SysArch

/-!
# Mailboxes of the unix port

A mailbox is a ring of pointers behind three binary semaphores: `mutex` guards the
ring, `not_empty` wakes a thread that waits for a message, `not_full` one that waits
for room.  Any number of threads post to a mailbox and fetch from it.

The machine interleaves the threads between any two accesses to the shared record.
Each operation on a semaphore is atomic, since the port guards its counter by a
pthread mutex; a thread that waits for a semaphore can go on when it finds the counter
positive.

`first` and `last` are running numbers of type `int` that are never reduced, so a mailbox
serves for a bounded number of messages: about to count past the largest `int`, the sums
in the test for a full mailbox overflow.  The results are about runs that end before.
-/

namespace EmbeddedRtps.Mailbox

open Foundation Port

universe u v

/-- `SYS_MBOX_SIZE`. -/
def sysMboxSize : Nat := 128

instance : NeZero sysMboxSize := ⟨by decide⟩

variable {Thread : Type u} {Msg : Type v}

/-- `struct sys_mbox`. -/
structure SysMbox (Msg : Type v) where
  first : Int32
  last : Int32
  msgs : Fin sysMboxSize → Msg
  notEmpty : SysSem
  notFull : SysSem
  mutex : SysSem
  waitSend : Int32

/-- `sys_mbox_new`.  The ring is left as the allocator returns it. -/
def SysMbox.new (memory : Fin sysMboxSize → Msg) : SysMbox Msg where
  first := 0
  last := 0
  msgs := memory
  notEmpty := ⟨0⟩
  notFull := ⟨0⟩
  mutex := ⟨1⟩
  waitSend := 0

/-- The index `number % SYS_MBOX_SIZE`.  Of a negative number it would be negative and
outside of the ring. -/
def slot (number : Int32) : Fin sysMboxSize :=
  Ring.slot sysMboxSize (number % .ofNat sysMboxSize).toInt.toNat

/-- The condition under which nothing is posted. -/
def SysMbox.isFull (mbox : SysMbox Msg) : Bool :=
  mbox.last + 1 ≥ mbox.first + .ofNat sysMboxSize

/-- The condition under which nothing is fetched. -/
def SysMbox.isEmpty (mbox : SysMbox Msg) : Bool :=
  mbox.first == mbox.last

/-- The messages in the mailbox, the oldest first. -/
def SysMbox.contents (mbox : SysMbox Msg) : List Msg :=
  Ring.contents mbox.msgs mbox.first.toInt.toNat mbox.last.toInt.toNat

/-- The numbers are in order, less than a turn apart, and none of the sums that are formed
of them overflows. -/
structure SysMbox.InRange (mbox : SysMbox Msg) : Prop where
  nonneg : 0 ≤ mbox.first.toInt
  ordered : mbox.first.toInt ≤ mbox.last.toInt
  bounded : mbox.last.toInt < mbox.first.toInt + sysMboxSize
  fits : mbox.last.toInt + sysMboxSize < 2 ^ 31

theorem toInt_sysMboxSize : (Int32.ofNat sysMboxSize).toInt = sysMboxSize := rfl

theorem slot_eq {number : Int32} (nonneg : 0 ≤ number.toInt) :
    slot number = Ring.slot sysMboxSize number.toInt.toNat := by
  apply Fin.ext
  have remainder : (number % .ofNat sysMboxSize).toInt = _ := Signed.toInt_mod nonneg
  rw [toInt_sysMboxSize, sysMboxSize] at remainder
  simp only [slot, Ring.slot, Fin.ofNat, sysMboxSize, remainder]
  omega

namespace SysMbox.InRange

variable {mbox : SysMbox Msg}

theorem last_nonneg (range : mbox.InRange) : 0 ≤ mbox.last.toInt :=
  Int.le_trans range.nonneg range.ordered

theorem toInt_last_succ (range : mbox.InRange) :
    (mbox.last + 1).toInt = mbox.last.toInt + 1 := by
  have := range.nonneg
  have := range.ordered
  have := range.fits
  rw [sysMboxSize] at this
  exact Signed.toInt_succ (by omega) (by omega)

theorem toInt_first_succ (range : mbox.InRange) :
    (mbox.first + 1).toInt = mbox.first.toInt + 1 := by
  have := range.nonneg
  have := range.ordered
  have := range.fits
  rw [sysMboxSize] at this
  exact Signed.toInt_succ (by omega) (by omega)

theorem isFull_iff (range : mbox.InRange) :
    mbox.isFull = true ↔ mbox.first.toInt + sysMboxSize ≤ mbox.last.toInt + 1 := by
  have nonneg := range.nonneg
  have ordered := range.ordered
  have fits := range.fits
  rw [isFull, decide_eq_true_eq, ge_iff_le, Int32.le_iff_toInt_le, range.toInt_last_succ,
    Signed.toInt_add (by rw [toInt_sysMboxSize]; omega) (by rw [toInt_sysMboxSize]; omega),
    toInt_sysMboxSize]

theorem isFull_eq_false (range : mbox.InRange) :
    mbox.isFull = false ↔ mbox.last.toInt + 1 < mbox.first.toInt + sysMboxSize := by
  rw [← Bool.not_eq_true, range.isFull_iff, Int.not_le]

theorem lt_of_isFull (range : mbox.InRange) (full : mbox.isFull = true) :
    mbox.first.toInt < mbox.last.toInt := by
  have far := range.isFull_iff.mp full
  rw [sysMboxSize] at far
  omega

end SysMbox.InRange

theorem SysMbox.isEmpty_iff {mbox : SysMbox Msg} :
    mbox.isEmpty = true ↔ mbox.first.toInt = mbox.last.toInt := by
  rw [isEmpty, beq_iff_eq, Int32.toInt_inj]

theorem SysMbox.isEmpty_eq_false {mbox : SysMbox Msg} :
    mbox.isEmpty = false ↔ mbox.first.toInt ≠ mbox.last.toInt := by
  rw [← Bool.not_eq_true, isEmpty_iff]

/-! ## The code of a thread -/

/-- `sys_mbox_post`, `sys_mbox_trypost`, `sys_arch_mbox_fetch` and
`sys_arch_mbox_tryfetch` with their arguments.  A `timeout` of zero waits forever. -/
inductive Call (Msg : Type v) where
  | post (msg : Msg)
  | trypost (msg : Msg)
  | fetch (timeout : Nat)
  | tryfetch
  deriving DecidableEq, Repr

/-- What a call returns. -/
inductive Outcome (Msg : Type v) where
  /-- `ERR_OK`, or the end of `sys_mbox_post`. -/
  | posted
  /-- `ERR_MEM`. -/
  | errMem
  /-- A message was stored through the out parameter. -/
  | fetched (msg : Msg)
  /-- `SYS_MBOX_EMPTY`. -/
  | mboxEmpty
  /-- `SYS_ARCH_TIMEOUT`. -/
  | archTimeout
  deriving DecidableEq, Repr

/-- Where a thread stands, with the local variables it still needs. -/
inductive Pc (Msg : Type v) where
  /-- Outside of the mailbox, with what the last call returned. -/
  | idle (last : Option (Outcome Msg))
  /-- At the first wait for `mutex`. -/
  | lock (call : Call Msg)
  /-- At the condition of the `while` or the `if`. -/
  | test (call : Call Msg)
  /-- The body of the loop in `sys_mbox_post`. -/
  | register (msg : Msg)
  | releasePost (msg : Msg)
  | awaitRoom (msg : Msg)
  | relockPost (msg : Msg)
  | deregister (msg : Msg)
  /-- The body of the loop in `sys_arch_mbox_fetch`. -/
  | releaseFetch (timeout : Nat)
  | awaitMail (timeout : Nat)
  | relockFetch (timeout : Nat)
  /-- What posting does when there is room; `first` is the flag of that name. -/
  | store (msg : Msg)
  | advance (msg : Msg) (first : Bool)
  | signalMail (first : Bool)
  /-- What fetching does when there is a message. -/
  | take
  | consume (msg : Msg)
  | signalRoom (msg : Msg)
  /-- At the last signal of `mutex`, before the `return`. -/
  | unlock (outcome : Outcome Msg)
  deriving DecidableEq, Repr

/-- The evaluation of the condition. -/
def SysMbox.branch (mbox : SysMbox Msg) : Call Msg → Pc Msg
  | .post msg => if mbox.isFull then .register msg else .store msg
  | .trypost msg => if mbox.isFull then .unlock .errMem else .store msg
  | .fetch timeout => if mbox.isEmpty then .releaseFetch timeout else .take
  | .tryfetch => if mbox.isEmpty then .unlock .mboxEmpty else .take

/-- Wait for a semaphore, if it can be had. -/
def SysMbox.lock (mbox : SysMbox Msg) (next : Pc Msg) :
    Option (SysMbox Msg × Pc Msg) :=
  mbox.mutex.take?.map fun mutex => ({ mbox with mutex }, next)

/-- One step of a thread at `pc`; `none` if it has to wait, or is in no call. -/
def SysMbox.step (mbox : SysMbox Msg) : Pc Msg → Option (SysMbox Msg × Pc Msg)
  | .idle _ => none
  | .lock call => mbox.lock (.test call)
  | .test call => some (mbox, mbox.branch call)
  | .register msg =>
      some ({ mbox with waitSend := mbox.waitSend + 1 }, .releasePost msg)
  | .releasePost msg => some ({ mbox with mutex := mbox.mutex.signal }, .awaitRoom msg)
  | .awaitRoom msg =>
      mbox.notFull.take?.map fun notFull => ({ mbox with notFull }, .relockPost msg)
  | .relockPost msg => mbox.lock (.deregister msg)
  | .deregister msg =>
      some ({ mbox with waitSend := mbox.waitSend - 1 }, .test (.post msg))
  | .releaseFetch timeout =>
      some ({ mbox with mutex := mbox.mutex.signal }, .awaitMail timeout)
  | .awaitMail timeout =>
      mbox.notEmpty.take?.map fun notEmpty =>
        ({ mbox with notEmpty }, .relockFetch timeout)
  | .relockFetch timeout => mbox.lock (.test (.fetch timeout))
  | .store msg =>
      some ({ mbox with msgs := Function.update mbox.msgs (slot mbox.last) msg },
        .advance msg (mbox.last == mbox.first))
  | .advance _ first => some ({ mbox with last := mbox.last + 1 }, .signalMail first)
  | .signalMail first =>
      some ({ mbox with
          notEmpty := if first then mbox.notEmpty.signal else mbox.notEmpty },
        .unlock .posted)
  | .take => some (mbox, .consume (mbox.msgs (slot mbox.first)))
  | .consume msg => some ({ mbox with first := mbox.first + 1 }, .signalRoom msg)
  | .signalRoom msg =>
      some ({ mbox with
          notFull := if mbox.waitSend ≠ 0 then mbox.notFull.signal else mbox.notFull },
        .unlock (.fetched msg))
  | .unlock outcome =>
      some ({ mbox with mutex := mbox.mutex.signal }, .idle (some outcome))

/-! ## The machine -/

/-- A mailbox and the threads that use it. -/
structure State (Thread : Type u) (Msg : Type v) where
  mbox : SysMbox Msg
  pcs : Thread → Pc Msg

def State.init (memory : Fin sysMboxSize → Msg) : State Thread Msg where
  mbox := .new memory
  pcs _ := .idle none

inductive Event (Thread : Type u) (Msg : Type v) where
  /-- A thread outside of the mailbox calls a function. -/
  | call (thread : Thread) (call : Call Msg)
  | run (thread : Thread)
  /-- A wait for `not_empty` with a timeout gives up. -/
  | timeout (thread : Thread)
  deriving DecidableEq, Repr

def Pc.isIdle : Pc Msg → Bool
  | .idle _ => true
  | _ => false

def Pc.canTimeOut : Pc Msg → Bool
  | .awaitMail timeout => timeout != 0
  | _ => false

def Enabled (state : State Thread Msg) : Event Thread Msg → Prop
  | .call thread _ => (state.pcs thread).isIdle = true
  | .run thread => (state.mbox.step (state.pcs thread)).isSome = true
  | .timeout thread => (state.pcs thread).canTimeOut = true

instance (state : State Thread Msg) (event : Event Thread Msg) :
    Decidable (Enabled state event) :=
  match event with
  | .call _ _ | .run _ | .timeout _ => inferInstanceAs (Decidable (_ = _))

variable [DecidableEq Thread]

/-- A thread moves on. -/
def State.move (state : State Thread Msg) (thread : Thread)
    (next : SysMbox Msg × Pc Msg) : State Thread Msg where
  mbox := next.1
  pcs := Function.update state.pcs thread next.2

def State.apply (state : State Thread Msg) : Event Thread Msg → State Thread Msg
  | .call thread call => state.move thread (state.mbox, .lock call)
  | .run thread =>
      match state.mbox.step (state.pcs thread) with
      | none => state
      | some next => state.move thread next
  | .timeout thread => state.move thread (state.mbox, .idle (some .archTimeout))

/-- A mailbox used by any threads in any order. -/
def machine : Machine (State Thread Msg) (Event Thread Msg) where
  Enabled := Enabled
  apply := State.apply

instance (state : State Thread Msg) (event : Event Thread Msg) :
    Decidable (machine.Enabled state event) :=
  inferInstanceAs (Decidable (Enabled state event))

/-- What an event does to the thread it belongs to. -/
inductive Moves (mbox : SysMbox Msg) (pc : Pc Msg) : SysMbox Msg × Pc Msg → Prop where
  | call (idle : pc.isIdle = true) (call : Call Msg) : Moves mbox pc (mbox, .lock call)
  | run {next : SysMbox Msg × Pc Msg} (step : mbox.step pc = some next) :
      Moves mbox pc next
  | timeout (waits : pc.canTimeOut = true) :
      Moves mbox pc (mbox, .idle (some .archTimeout))

/-- Every enabled event moves one thread. -/
theorem exists_moves {state : State Thread Msg} {event : Event Thread Msg}
    (enabled : machine.Enabled state event) :
    ∃ thread next, Moves state.mbox (state.pcs thread) next ∧
      machine.apply state event = state.move thread next := by
  cases event with
  | call thread call => exact ⟨thread, _, .call enabled call, rfl⟩
  | run thread =>
      obtain ⟨next, step⟩ := Option.isSome_iff_exists.mp enabled
      refine ⟨thread, next, .run step, ?_⟩
      simp [machine, State.apply, step]
  | timeout thread => exact ⟨thread, _, .timeout enabled, rfl⟩

end EmbeddedRtps.Mailbox
