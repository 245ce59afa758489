import Mathlib

/-!
# The wake word of a wait node

`wake_armed` of `llam_wait_node_t` decides whether the task of a completed wait has to be put on a run queue: the waiter
commits to parking with `UNARMED → ARMED`, whoever completes the wait moves `UNARMED` to `COMPLETED_INLINE` or `ARMED` to
`COMPLETED_QUEUED` (`sync.c`).
-/

namespace Llam.Wait

/-- `LLAM_WAIT_NODE_*`. -/
inductive WakeWord
  | unarmed | armed | completedInline | completedQueued
  deriving DecidableEq, Repr

namespace WakeWord

/-- `llam_wait_node_prepare_wake`: the word after it, and whether the caller has to reinject the task. -/
def prepareWake : WakeWord → WakeWord × Bool
  | unarmed => (completedInline, false)
  | armed => (completedQueued, true)
  | completedInline => (completedInline, false)
  | completedQueued => (completedQueued, false)

/-- `llam_wait_node_should_park`: the word after it, and whether the waiter parks. -/
def shouldPark : WakeWord → WakeWord × Bool
  | unarmed => (armed, true)
  | armed => (armed, false)
  | completedInline => (completedInline, false)
  | completedQueued => (completedQueued, true)

/-- Somebody has completed the wait. -/
def completed : WakeWord → Bool
  | completedInline | completedQueued => true
  | _ => false

@[simp] theorem prepareWake_completed (w : WakeWord) : w.prepareWake.1.completed = true := by
  cases w <;> rfl

@[simp] theorem shouldPark_completed (w : WakeWord) : w.shouldPark.1.completed = w.completed := by
  cases w <;> rfl

end WakeWord

end Llam.Wait
