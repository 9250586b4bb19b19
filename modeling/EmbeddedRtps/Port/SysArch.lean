import Mathlib.Logic.Basic

/-!
# Semaphores of the unix port

The port keeps a counter behind a mutex and a condition variable.  Signalling
saturates at one, so the semaphore is binary.  A waiter consumes the signal it
finds; it may also leave on a timeout, and then it does not look at the counter
again.
-/

namespace EmbeddedRtps.Port

/-- `struct sys_sem`, without the pthread objects that make its operations
atomic. -/
structure SysSem where
  c : Nat
  deriving DecidableEq, Repr

namespace SysSem

/-- `sys_sem_signal`. -/
def signal (sem : SysSem) : SysSem :=
  let c := sem.c + 1
  if c > 1 then ⟨1⟩ else ⟨c⟩

/-- One evaluation of the loop condition in `sys_arch_sem_wait`: with a positive
counter the wait returns and takes one off, otherwise the caller goes (back) to
sleep on the condition variable. -/
def take? (sem : SysSem) : Option SysSem :=
  if sem.c ≤ 0 then none else some ⟨sem.c - 1⟩

@[simp] theorem signal_c (sem : SysSem) : sem.signal.c = 1 := by
  simp only [signal]
  split
  · rfl
  · simp only
    omega

theorem take?_eq_some {sem taken : SysSem} :
    sem.take? = some taken ↔ sem.c = taken.c + 1 := by
  cases sem with
  | mk count =>
      cases taken with
      | mk rest =>
          simp only [take?, Nat.le_zero_eq]
          split <;> simp <;> omega

end SysSem

end EmbeddedRtps.Port
