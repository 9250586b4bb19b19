import EmbeddedRtps.Mailbox.Refinement

/-!
# Waiting at a mailbox

`sys_mbox_post` signals `not_empty` only when it finds the mailbox empty, and a fetch
signals `not_full` only when somebody is registered.  Both semaphores are binary, so a
signal can stand for several events.  This is enough as long as one thread at most
waits for messages, which is how lwIP uses its mailboxes: that thread misses no message,
and it never waits for a message while another thread waits for room.
-/

namespace EmbeddedRtps.Mailbox

open Foundation Port

universe u v

variable {Thread : Type u} {Msg : Type v}
variable {mbox : SysMbox Msg} {pc : Pc Msg} {next : SysMbox Msg × Pc Msg}

/-! ## Waiting for room -/

/-- About to wait, or waiting, for `not_full`. -/
def Pc.awaitsRoom : Pc Msg → Bool
  | .releasePost _ | .awaitRoom _ => true
  | _ => false

/-- On the way to posting a message, to finding the mailbox full, or to signalling
`not_full`. -/
def Pc.refills : Pc Msg → Bool
  | .test (.post _) | .test (.trypost _) | .relockPost _ | .deregister _ | .store _
  | .advance _ _ | .signalRoom _ => true
  | _ => false

/-- A thread that waits for room will hear of it: a signal is there, or messages are
there whose fetching will signal, or the thread at `pc` will see to it. -/
def RoomAhead (mbox : SysMbox Msg) (pc : Pc Msg) : Prop :=
  (0 < mbox.notFull.c ∨ mbox.first.toInt < mbox.last.toInt) ∨ pc.refills = true

theorem RoomAhead.congr {mbox' : SysMbox Msg} {pc' : Pc Msg}
    (notFull : mbox'.notFull = mbox.notFull) (first : mbox'.first = mbox.first)
    (last : mbox'.last = mbox.last) (refills : pc.refills = true → pc'.refills = true)
    (ahead : RoomAhead mbox pc) : RoomAhead mbox' pc' := by
  rw [RoomAhead, notFull, first, last]
  exact ahead.imp_right refills

theorem roomAhead_branch (range : mbox.InRange) (call : Call Msg)
    (ahead : RoomAhead mbox (.test call)) : RoomAhead mbox (mbox.branch call) := by
  cases call with
  | post msg | trypost msg =>
      cases full : mbox.isFull with
      | true => exact .inl (.inr (range.lt_of_isFull full))
      | false =>
          simp only [SysMbox.branch, full]
          exact .inr rfl
  | fetch timeout | tryfetch =>
      exact ahead.congr rfl rfl rfl (fun refills => by cases refills)

theorem step_roomAhead (range : mbox.InRange) (waited : mbox.waitSend ≠ 0)
    (ahead : RoomAhead mbox pc) (step : mbox.step pc = some next) :
    RoomAhead next.1 next.2 := by
  cases pc with
  | idle => cases step
  | lock call | relockFetch timeout =>
      obtain ⟨_, mutex, _, shared⟩ := lock_eq_some step
      rw [shared]
      exact ahead.congr rfl rfl rfl (fun refills => by cases refills)
  | relockPost msg =>
      obtain ⟨target, _⟩ := lock_eq_some step
      rw [target]
      exact .inr rfl
  | awaitRoom msg =>
      obtain ⟨sem, _, rfl⟩ := Option.map_eq_some_iff.mp step
      exact .inr rfl
  | awaitMail timeout =>
      obtain ⟨sem, _, rfl⟩ := Option.map_eq_some_iff.mp step
      exact ahead
  | test call =>
      cases step
      exact roomAhead_branch range call ahead
  | deregister msg | store msg | consume msg =>
      cases step
      exact .inr rfl
  | advance msg first =>
      cases step
      have later : mbox.first.toInt < (mbox.last + 1).toInt := by
        rw [range.toInt_last_succ]
        exact Int.lt_add_one_of_le range.ordered
      exact .inl (.inr later)
  | signalRoom msg =>
      cases step
      exact .inl (.inl (by simp [waited]))
  | register msg | releasePost msg | releaseFetch timeout | signalMail first | take
  | unlock outcome =>
      cases step
      exact ahead

/-- A thread registers for room when the mailbox is full. -/
theorem awaitsRoom_of_step (sound : pc.Sound mbox) (step : mbox.step pc = some next)
    (awaits : next.2.awaitsRoom = true) :
    pc.awaitsRoom = true ∨ next.1.first.toInt < next.1.last.toInt := by
  cases pc with
  | idle => cases step
  | lock call | relockPost msg | relockFetch timeout =>
      rw [(lock_eq_some step).1] at awaits
      cases awaits
  | awaitRoom msg | releasePost msg => exact .inl rfl
  | awaitMail timeout =>
      obtain ⟨sem, _, rfl⟩ := Option.map_eq_some_iff.mp step
      cases awaits
  | register msg =>
      cases step
      exact .inr sound
  | test call =>
      cases step
      cases call <;> simp only [SysMbox.branch] at awaits <;> split at awaits <;>
        cases awaits
  | deregister msg | releaseFetch timeout | store msg | advance msg first
  | signalMail first | take | consume msg | signalRoom msg | unlock outcome =>
      cases step
      cases awaits

/-! ## Waiting for a message -/

/-- In the part of `sys_arch_mbox_fetch` that waits for a message. -/
def Pc.fetches : Pc Msg → Bool
  | .lock (.fetch _) | .test (.fetch _) | .releaseFetch _ | .awaitMail _
  | .relockFetch _ => true
  | _ => false

/-- About to wait, or waiting, for `not_empty`. -/
def Pc.awaitsMail : Pc Msg → Bool
  | .releaseFetch _ | .awaitMail _ => true
  | _ => false

/-- About to signal `not_empty`. -/
def Pc.announces : Pc Msg → Bool
  | .signalMail first => first
  | _ => false

/-- There is nothing to wake up for, or a signal is there, or the thread at `pc` is
about to give it. -/
def MailAhead (mbox : SysMbox Msg) (pc : Pc Msg) : Prop :=
  (0 < mbox.notEmpty.c ∨ mbox.first = mbox.last) ∨ pc.announces = true

theorem MailAhead.congr {mbox' : SysMbox Msg} {pc' : Pc Msg}
    (notEmpty : mbox'.notEmpty = mbox.notEmpty) (first : mbox'.first = mbox.first)
    (last : mbox'.last = mbox.last)
    (announces : pc.announces = true → pc'.announces = true)
    (ahead : MailAhead mbox pc) : MailAhead mbox' pc' := by
  rw [MailAhead, notEmpty, first, last]
  exact ahead.imp_right announces

/-- Only a waiting thread takes a signal away. -/
theorem step_mailAhead (elsewhere : pc.fetches = false ∨ pc.holds = true)
    (sound : pc.Sound mbox) (ahead : MailAhead mbox pc)
    (step : mbox.step pc = some next) : MailAhead next.1 next.2 := by
  cases pc with
  | idle => cases step
  | lock call | relockPost msg | relockFetch timeout =>
      obtain ⟨_, mutex, _, shared⟩ := lock_eq_some step
      rw [shared]
      exact ahead.congr rfl rfl rfl (fun announces => by cases announces)
  | awaitMail timeout =>
      rcases elsewhere with impossible | impossible <;> cases impossible
  | awaitRoom msg =>
      obtain ⟨sem, _, rfl⟩ := Option.map_eq_some_iff.mp step
      exact ahead
  | advance msg first =>
      cases step
      obtain ⟨_, _, rfl⟩ := sound
      rcases ahead with (signalled | empty) | impossible
      · exact .inl (.inl signalled)
      · exact .inr (decide_eq_true empty)
      · cases impossible
  | signalMail first =>
      cases step
      cases first with
      | true => exact .inl (.inl (by simp))
      | false => exact ahead
  | consume msg =>
      cases step
      obtain ⟨nonempty, _⟩ := sound
      rcases ahead with (signalled | empty) | impossible
      · exact .inl (.inl signalled)
      · exact absurd (congrArg Int32.toInt empty) nonempty.ne
      · cases impossible
  | test call =>
      cases step
      exact ahead.congr rfl rfl rfl (fun announces => by cases announces)
  | register msg | releasePost msg | deregister msg | releaseFetch timeout | store msg
  | take | signalRoom msg | unlock outcome =>
      cases step
      exact ahead

/-- A thread starts to wait for a message when there is none. -/
theorem awaitsMail_of_step (step : mbox.step pc = some next)
    (awaits : next.2.awaitsMail = true) :
    pc.awaitsMail = true ∧ pc.holds = true ∨ next.1.first = next.1.last := by
  cases pc with
  | idle => cases step
  | lock call | relockPost msg | relockFetch timeout =>
      rw [(lock_eq_some step).1] at awaits
      cases awaits
  | awaitRoom msg | awaitMail timeout =>
      obtain ⟨sem, _, rfl⟩ := Option.map_eq_some_iff.mp step
      cases awaits
  | releaseFetch timeout => exact .inl ⟨rfl, rfl⟩
  | test call =>
      cases step
      cases call with
      | fetch timeout =>
          simp only [SysMbox.branch] at awaits
          split at awaits
          next empty => exact .inr (beq_iff_eq.mp empty)
          next => cases awaits
      | post | trypost | tryfetch =>
          simp only [SysMbox.branch] at awaits
          split at awaits <;> cases awaits
  | register msg | releasePost msg | deregister msg | store msg | advance msg first
  | signalMail first | take | consume msg | signalRoom msg | unlock outcome =>
      cases step
      cases awaits

theorem fetches_of_step (step : mbox.step pc = some next)
    (fetches : next.2.fetches = true) : pc.fetches = true := by
  cases pc with
  | idle => cases step
  | lock call =>
      rw [(lock_eq_some step).1] at fetches
      cases call <;> exact fetches
  | relockPost msg | relockFetch timeout =>
      rw [(lock_eq_some step).1] at fetches
      exact fetches
  | awaitRoom msg | awaitMail timeout =>
      obtain ⟨sem, _, rfl⟩ := Option.map_eq_some_iff.mp step
      exact fetches
  | test call =>
      cases step
      cases call with
      | fetch timeout => rfl
      | post | trypost | tryfetch =>
          simp only [SysMbox.branch] at fetches
          split at fetches <;> cases fetches
  | register msg | releasePost msg | deregister msg | releaseFetch timeout | store msg
  | advance msg first | signalMail first | take | consume msg | signalRoom msg
  | unlock outcome =>
      cases step
      exact fetches

/-! ## Over whole runs -/

/-- Only `reader` calls `sys_arch_mbox_fetch`. -/
def SoleReader (reader : Thread) (_ : State Thread Msg) : Event Thread Msg → Prop
  | .call thread (.fetch _) => thread = reader
  | _ => True

instance [DecidableEq Thread] (reader : Thread) (state : State Thread Msg)
    (event : Event Thread Msg) : Decidable (SoleReader reader state event) :=
  match event with
  | .call _ (.fetch _) => inferInstanceAs (Decidable (_ = _))
  | .call _ (.post _) | .call _ (.trypost _) | .call _ .tryfetch | .run _ | .timeout _ =>
      isTrue trivial

/-- The runs that are looked at. -/
def Served (reader : Thread) (state : State Thread Msg) (event : Event Thread Msg) : Prop :=
  SoleReader reader state event ∧ NumbersFit state event

instance [DecidableEq Thread] (reader : Thread) (state : State Thread Msg)
    (event : Event Thread Msg) : Decidable (Served reader state event) :=
  inferInstanceAs (Decidable (_ ∧ _))

/-- A thread that waits for a message or for room is not forgotten. -/
structure State.Attended (reader : Thread) (state : State Thread Msg) : Prop where
  sole : ∀ thread, (state.pcs thread).fetches = true → thread = reader
  mail : (state.pcs reader).awaitsMail = true →
    ∃ thread, MailAhead state.mbox (state.pcs thread)
  room : ∀ waiter, (state.pcs waiter).awaitsRoom = true →
    ∃ thread, RoomAhead state.mbox (state.pcs thread)

variable {reader thread : Thread} {state : State Thread Msg}

theorem State.Attended.init (memory : Fin sysMboxSize → Msg) :
    (State.init memory : State Thread Msg).Attended reader where
  sole _ fetches := by cases fetches
  mail awaits := by cases awaits
  room _ awaits := by cases awaits

variable [DecidableEq Thread]

namespace State.Attended

/-- A thread moves that is in no region of interest before or after, except that it
may start to fetch. -/
theorem relocate {target : Pc Msg} (attended : state.Attended reader)
    (fetches : target.fetches = true → thread = reader)
    (mail : target.awaitsMail = false) (room : target.awaitsRoom = false)
    (refills : (state.pcs thread).refills = false)
    (announces : (state.pcs thread).announces = false) :
    (state.move thread (state.mbox, target)).Attended reader where
  sole current := by
    by_cases same : current = thread
    · subst same
      simpa [State.move] using fetches
    · simpa [State.move, same] using attended.sole current
  mail awaits := by
    refine exists_or_update (fun ahead => .inl ?_) (attended.mail ?_)
    · exact ahead.resolve_right (by simp [announces])
    · by_cases same : reader = thread
      · subst same
        simp [State.move, mail] at awaits
      · simpa [State.move, same] using awaits
  room waiter awaits := by
    refine exists_or_update (fun ahead => .inl ?_) (attended.room waiter ?_)
    · exact ahead.resolve_right (by simp [refills])
    · by_cases same : waiter = thread
      · subst same
        simp [State.move, room] at awaits
      · simpa [State.move, same] using awaits

variable [Fintype Thread]

theorem mail_step (consistent : state.Consistent) (attended : state.Attended reader)
    (step : state.mbox.step (state.pcs thread) = some next)
    (awaits : ((state.move thread next).pcs reader).awaitsMail = true) :
    ∃ current, MailAhead next.1 ((state.move thread next).pcs current) := by
  have sound := consistent.sound thread
  by_cases same : reader = thread
  · subst same
    simp only [State.move, Function.update_self] at awaits
    rcases awaitsMail_of_step step awaits with ⟨before, holds⟩ | empty
    · exact exists_or_update
        (fun ahead => step_mailAhead (.inr holds) sound ahead step) (attended.mail before)
    · exact ⟨reader, .inl (.inr empty)⟩
  · simp only [State.move, Function.update_of_ne same] at awaits
    have elsewhere : (state.pcs thread).fetches = false := by
      rw [← Bool.not_eq_true]
      intro fetches
      exact same (attended.sole thread fetches).symm
    exact exists_or_update
      (fun ahead => step_mailAhead (.inl elsewhere) sound ahead step) (attended.mail awaits)

theorem room_step (consistent : state.Consistent) (range : state.mbox.InRange)
    (attended : state.Attended reader)
    (step : state.mbox.step (state.pcs thread) = some next) (waiter : Thread)
    (awaits : ((state.move thread next).pcs waiter).awaitsRoom = true) :
    ∃ current, RoomAhead next.1 ((state.move thread next).pcs current) := by
  -- somebody who awaited room before the step has been counted by `wait_send`
  have keeps (before : (state.pcs waiter).awaitsRoom = true) :
      ∃ current, RoomAhead next.1 ((state.move thread next).pcs current) := by
    have registered : (state.pcs waiter).registered = true := by
      cases place : state.pcs waiter <;> simp_all [Pc.awaitsRoom, Pc.registered]
    have waited : state.mbox.waitSend ≠ 0 := by
      intro zero
      have positive := consistent.waitSend_pos registered
      rw [zero] at positive
      cases positive
    exact exists_or_update (fun ahead => step_roomAhead range waited ahead step)
      (attended.room waiter before)
  by_cases same : waiter = thread
  · subst same
    simp only [State.move, Function.update_self] at awaits
    rcases awaitsRoom_of_step (consistent.sound waiter) step awaits with before | nonempty
    · exact keeps before
    · exact ⟨waiter, .inl (.inr nonempty)⟩
  · simp only [State.move, Function.update_of_ne same] at awaits
    exact keeps awaits

theorem step (consistent : state.Consistent) (range : state.mbox.InRange)
    (attended : state.Attended reader)
    (step : state.mbox.step (state.pcs thread) = some next) :
    (state.move thread next).Attended reader where
  sole current fetches := by
    by_cases same : current = thread
    · subst same
      simp only [State.move, Function.update_self] at fetches
      exact attended.sole current (fetches_of_step step fetches)
    · simp only [State.move, Function.update_of_ne same] at fetches
      exact attended.sole current fetches
  mail := attended.mail_step consistent step
  room := attended.room_step consistent range step

end State.Attended

variable [Fintype Thread]

theorem attended_of_reaches (few : Fintype.card Thread < 2 ^ 31)
    {memory : Fin sysMboxSize → Msg}
    (reached : machine.Reaches (Served reader) (.init memory) state) :
    state.Attended reader := by
  refine Machine.Reaches.invariant (State.Attended.init memory) ?_ reached
  intro state event before attended enabled admitted
  cases event with
  | call thread call =>
      apply attended.relocate _ rfl rfl
      · cases place : state.pcs thread <;>
          simp_all [machine, Enabled, Pc.isIdle, Pc.refills]
      · cases place : state.pcs thread <;>
          simp_all [machine, Enabled, Pc.isIdle, Pc.announces]
      · have sole := admitted.1
        cases call <;> simp_all [Pc.fetches, SoleReader]
  | run thread =>
      obtain ⟨next, step⟩ := Option.isSome_iff_exists.mp enabled
      have applied : machine.apply state (.run thread) = state.move thread next := by
        simp only [machine, State.apply, step]
      rw [applied]
      have consistent := consistent_of_reaches few (fun _ _ => And.right) before
      exact attended.step consistent (consistent.inRange admitted.2) step
  | timeout thread =>
      apply attended.relocate _ rfl rfl
      · cases place : state.pcs thread <;>
          simp_all [machine, Enabled, Pc.canTimeOut, Pc.refills]
      · cases place : state.pcs thread <;>
          simp_all [machine, Enabled, Pc.canTimeOut, Pc.announces]
      · intro fetches
        cases fetches

/-- As long as the numbers fit, a thread that waits for a message is never left waiting
beside one: `not_empty` has been signalled, or the thread that posted is about to signal
it. -/
theorem signalled_of_awaitMail (few : Fintype.card Thread < 2 ^ 31)
    {memory : Fin sysMboxSize → Msg}
    (reached : machine.Reaches (Served reader) (.init memory) state) {timeout : Nat}
    (waits : state.pcs reader = .awaitMail timeout)
    (nonempty : state.mbox.contents ≠ []) :
    0 < state.mbox.notEmpty.c ∨ ∃ thread, state.pcs thread = .signalMail true := by
  obtain ⟨thread, (signalled | empty) | announces⟩ :=
    (attended_of_reaches few reached).mail (by rw [waits]; rfl)
  · exact .inl signalled
  · exact absurd (contents_of_isEmpty (beq_iff_eq.mpr empty)) nonempty
  · refine .inr ⟨thread, ?_⟩
    cases place : state.pcs thread <;> simp_all [Pc.announces]

/-- Thread `1` waits and thread `0` has just posted. -/
theorem signalled_of_awaitMail_posted :
    ∃ state, machine.Reaches (Served 1) (.init (fun _ => 0)) state ∧
      state.pcs (1 : Fin 2) = .awaitMail 0 ∧ state.mbox.contents ≠ ([] : List Nat) ∧
      (0 < state.mbox.notEmpty.c ∨ ∃ thread, state.pcs thread = .signalMail true) := by
  obtain ⟨state, reached, waits, nonempty⟩ :
      ∃ state, machine.Reaches (Served 1) (.init (fun _ => 0)) state ∧
        state.pcs (1 : Fin 2) = .awaitMail 0 ∧ state.mbox.contents ≠ ([] : List Nat) :=
    Machine.exists_reaches_of_exec (handover.take 9) (by decide +kernel)
  exact ⟨state, reached, waits, nonempty, signalled_of_awaitMail (by decide) reached waits
    nonempty⟩

/-- Two threads wait, two messages are posted, and one thread fetches the first.  The
second message was posted without a signal, and the other thread goes on waiting. -/
theorem two_readers_miss_a_message :
    ∃ state, machine.Reaches Machine.AnyStep (.init (fun _ => 0)) state ∧
      state.pcs (2 : Fin 3) = .awaitMail 0 ∧ state.mbox.contents = [8] ∧
      state.mbox.notEmpty.c = 0 ∧ ∀ thread, thread ≠ 2 → (state.pcs thread).isIdle :=
  Machine.exists_reaches_of_exec
    ([.call 1 (.fetch 0), .run 1, .run 1, .run 1, .call 2 (.fetch 0), .run 2, .run 2,
        .run 2] ++
      .call 0 (.post 7) :: List.replicate 6 (.run 0) ++
      .call 0 (.post 8) :: List.replicate 6 (.run 0) ++ List.replicate 7 (.run 1))
    (by decide +kernel)

/-! ## No deadlock -/

/-- With the mutex free, a thread waits for one of the other two semaphores only. -/
theorem step_eq_none (free : mbox.mutex.c = 1) (blocked : mbox.step pc = none) :
    pc.isIdle = true ∨ (∃ msg, pc = .awaitRoom msg) ∧ mbox.notFull.c = 0 ∨
      (∃ timeout, pc = .awaitMail timeout) ∧ mbox.notEmpty.c = 0 := by
  cases pc with
  | idle => exact .inl rfl
  | lock | relockPost | relockFetch =>
      simp [SysMbox.step, SysMbox.lock, SysSem.take?, free] at blocked
  | awaitRoom msg =>
      refine .inr (.inl ⟨⟨msg, rfl⟩, ?_⟩)
      simpa [SysMbox.step, SysSem.take?] using blocked
  | awaitMail timeout =>
      refine .inr (.inr ⟨⟨timeout, rfl⟩, ?_⟩)
      simpa [SysMbox.step, SysSem.take?] using blocked
  | test | register | releasePost | deregister | releaseFetch | store | advance
  | signalMail | take | consume | signalRoom | unlock => cases blocked

theorem refills_eq_false (free : mbox.mutex.c = 1) (blocked : mbox.step pc = none) :
    pc.refills = false := by
  rcases step_eq_none free blocked with idle | ⟨⟨_, rfl⟩, _⟩ | ⟨⟨_, rfl⟩, _⟩
  · cases pc <;> first | rfl | cases idle
  · rfl
  · rfl

theorem announces_eq_false (blocked : mbox.step pc = none) : pc.announces = false := by
  cases pc <;> first | rfl | cases blocked

/-- As long as the numbers fit: when no thread can go on, either the mailbox is empty and
nobody but the reader is in a call, waiting for a message, or it is not empty and the
threads in a call all wait for room.  So a reader and a writer never wait for each
other. -/
theorem stuck_cases (few : Fintype.card Thread < 2 ^ 31)
    {memory : Fin sysMboxSize → Msg}
    (reached : machine.Reaches (Served reader) (.init memory) state)
    (stuck : ∀ thread, ¬ machine.Enabled state (.run thread)) :
    (state.mbox.contents = [] ∧ ∀ thread, (state.pcs thread).isIdle = true ∨
        thread = reader ∧ ∃ timeout, state.pcs thread = .awaitMail timeout) ∨
      (state.mbox.contents ≠ [] ∧ ∀ thread, (state.pcs thread).isIdle = true ∨
        ∃ msg, state.pcs thread = .awaitRoom msg) := by
  have consistent := consistent_of_reaches few (fun _ _ => And.right) reached
  have attended := attended_of_reaches few reached
  have blocked : ∀ thread, state.mbox.step (state.pcs thread) = none := fun thread =>
    Option.not_isSome_iff_eq_none.mp (stuck thread)
  have free := consistent.mutex_free blocked
  by_cases empty : state.mbox.first = state.mbox.last
  · refine .inl ⟨contents_of_isEmpty (beq_iff_eq.mpr empty), fun thread => ?_⟩
    rcases step_eq_none free (blocked thread) with
      idle | ⟨⟨msg, waits⟩, unsignalled⟩ | ⟨⟨timeout, waits⟩, _⟩
    · exact .inl idle
    · -- nothing is there that could make room, and nobody is on the way
      obtain ⟨current, (signalled | nonempty) | refills⟩ :=
        attended.room thread (by rw [waits]; rfl)
      · omega
      · exact absurd (congrArg Int32.toInt empty) nonempty.ne
      · rw [refills_eq_false free (blocked current)] at refills
        cases refills
    · exact .inr ⟨attended.sole thread (by rw [waits]; rfl), timeout, waits⟩
  · have nonempty : state.mbox.contents ≠ [] := by
      rw [SysMbox.contents, ne_eq, Ring.contents_eq_nil_iff]
      have different := mt Int32.toInt_inj.mp empty
      have := consistent.nonneg
      have := consistent.ordered
      omega
    refine .inr ⟨nonempty, fun thread => ?_⟩
    rcases step_eq_none free (blocked thread) with
      idle | ⟨waits, _⟩ | ⟨⟨timeout, waits⟩, unsignalled⟩
    · exact .inl idle
    · exact .inr waits
    · obtain rfl := attended.sole thread (by rw [waits]; rfl)
      obtain ⟨current, (signalled | same) | announces⟩ :=
        attended.mail (by rw [waits]; rfl)
      · omega
      · exact absurd same empty
      · rw [announces_eq_false (blocked current)] at announces
        cases announces

/-- Thread `1` waits for a message, thread `0` is outside. -/
theorem stuck_cases_waiting :
    ∃ state, machine.Reaches (Served 1) (.init (fun _ => 0)) state ∧
      state.pcs (1 : Fin 2) = .awaitMail 0 ∧ state.mbox.contents = ([] : List Nat) := by
  obtain ⟨state, reached, waits, stuck⟩ :
      ∃ state : State (Fin 2) Nat,
        machine.Reaches (Served 1) (.init (fun _ => 0)) state ∧
        state.pcs 1 = .awaitMail 0 ∧
        ∀ thread, ¬ machine.Enabled state (.run thread) :=
    Machine.exists_reaches_of_exec (handover.take 4) (by decide +kernel)
  refine ⟨state, reached, waits, ?_⟩
  rcases stuck_cases (by decide) reached stuck with ⟨empty, _⟩ | ⟨_, others⟩
  · exact empty
  · rcases others 1 with idle | ⟨msg, room⟩
    · rw [waits] at idle
      cases idle
    · rw [waits] at room
      cases room

end EmbeddedRtps.Mailbox
