import Llam.Basic
import Llam.Lib.Fifo
import Llam.Lib.Run
import Llam.Wait.WakeWord

/-!
# One mutex and one condition variable

The code of `mutex.c` and `cond.c` for any number of tasks, as one transition system. A task is at a program counter
(`Pc`), and `advance` performs its next atomic action: an atomic load, a compare-and-swap, or a section with the lock of
a wait queue held. The lock of the mutex queue is never held across two actions; that of the condition queue is
(`condLock`), while a waiter queues itself and gives the mutex away.

The timer and the cancellation path remove a waiter from its queue and wake it in a second action (`timeout`, `cancel`,
`resolverWake`). What the environment decides is in `Env`: whether the deadline has passed, which step of the setup of a
wait fails and how, and what `llam_wait_node_completed` answers to a waiter whose setup has failed.

Handle resolution, the context checks and priority donation are left out.
-/

namespace Llam.Mutex

open Llam.Lib Llam.Wait Function

/-! ## State -/

/-- Who owes a wake to a waiter that has left its queue. -/
inductive Waker (T : Type)
  | task (u : T)
  | timer
  | canceller
  deriving DecidableEq

/-- The wait node of a task, with what its tracking holds. -/
structure Node (T : Type) where
  uninterruptible : Bool
  tracked : Bool
  timerArmed : Bool
  errorCode : Option Errno
  scalarValue : Bool
  wakeArmed : WakeWord
  waker : Option (Waker T)
  deriving DecidableEq

/-- `llam_wait_node_reset`. -/
def Node.reset {T : Type} (uninterruptible : Bool) : Node T := ⟨uninterruptible, false, false, none, false, .unarmed, none⟩

/-- The node has left its queue other than by its own waiter. -/
def Node.resolved {T : Type} (n : Node T) : Bool := n.waker.isSome || n.wakeArmed.completed

/-- The arguments of `llam_mutex_lock_resolved_impl`; `reacquire` holds the result of the condition wait that takes its
mutex back with this call, and whether a signal ended that wait. -/
structure LockCall where
  hasDeadline : Bool
  cancellable : Bool
  reacquire : Option (Option Errno × Bool)
  deriving DecidableEq

/-- A wait in the queue of the mutex, or of the condition variable. -/
inductive Wait
  | mutex (call : LockCall)
  | cond (hasDeadline : Bool)
  deriving DecidableEq

def Wait.hasDeadline : Wait → Bool
  | .mutex call => call.hasDeadline
  | .cond hasDeadline => hasDeadline

/-- Cancellation tokens and runtime stop can end the wait. -/
def Wait.cancellable : Wait → Bool
  | .mutex call => call.cancellable
  | .cond _ => true

/-- The calls a task makes. A condition wait notes whether it released the mutex, and whether a signal ended it. -/
inductive Op
  | trylock | lock | unlock | condWait (released consumed : Bool) | signal | broadcast
  deriving DecidableEq

/-- Program counters: the next action of a task. -/
inductive Pc (T : Type)
  | idle
  | returned (op : Op) (result : Option Errno)
  | trylock
  | lockLoad (call : LockCall)
  | lockCas (call : LockCall)
  | lockPrepare (call : LockCall)
  | lockEnqueue (call : LockCall)
  | track (w : Wait)
  | arm (w : Wait)
  | register (w : Wait)
  | rollback (w : Wait) (error : Errno)
  | ready (w : Wait)
  | parked (w : Wait)
  | finish (w : Wait)
  | unlockLoad
  | unlockLocked
  | unlockWake (next : T)
  | condLoad (hasDeadline : Bool)
  | condPrepare (hasDeadline : Bool)
  | condEnqueue (hasDeadline : Bool)
  | condRecheck (hasDeadline : Bool)
  | condRelease (hasDeadline : Bool)
  | condHandOff (hasDeadline : Bool) (next : Option T)
  | reacquire (result : Option Errno) (consumed : Bool)
  | signalLocked
  | signalWake (next : T)
  | broadcastLocked
  | broadcastWake (rest : List T)
  | aborted
  deriving DecidableEq

/-- The mutex, the condition variable and their tasks. `inside` is history: the task has got the mutex from a call that
returned and has not given it away since. -/
structure State (T : Type) where
  owner : Option T
  waiters : Fifo T
  condLock : Option T
  condWaiters : Fifo T
  node : T → Node T
  pc : T → Pc T
  inside : T → Bool

/-- How arming a deadline fails. -/
inductive ArmError
  | overflow | noMemory | busy
  deriving DecidableEq

def ArmError.errno : ArmError → Errno
  | .overflow => .EOVERFLOW
  | .noMemory => .ENOMEM
  | .busy => .EBUSY

/-- How registering with the cancellation tokens fails. -/
inductive RegisterError
  | cancelled | delivering
  deriving DecidableEq

def RegisterError.errno : RegisterError → Errno
  | .cancelled => .ECANCELED
  | .delivering => .EAGAIN

/-- What the environment answers to one action. `completed` is not tied to the node: the store of `wake_completed` may
come later than the wake, and may belong to an earlier wait on the same node. -/
structure Env where
  deadlinePassed : Bool
  allocFails : Bool
  trackFails : Bool
  armFails : Option ArmError
  registerFails : Option RegisterError
  completed : Bool
  deriving DecidableEq

variable {T : Type} [DecidableEq T]

variable (s : State T) (t : T) (call : LockCall)

def State.setPc (pc : Pc T) : State T := { s with pc := update s.pc t pc }

def State.setNode (n : Node T) : State T := { s with node := update s.node t n }

def State.setInside (b : Bool) : State T := { s with inside := update s.inside t b }

/-- The queue a wait is in. -/
def State.queue : Wait → Fifo T
  | .mutex _ => s.waiters
  | .cond _ => s.condWaiters

def State.setQueue (w : Wait) (q : Fifo T) : State T :=
  match w with
  | .mutex _ => { s with waiters := q }
  | .cond _ => { s with condWaiters := q }

/-- The lock of the queue of `w` is free. -/
def State.unlocked : Wait → Bool
  | .mutex _ => true
  | .cond _ => s.condLock = none

/-! ## Lock -/

/-- `llam_mutex_trylock`. -/
def tryLock : State T :=
  if s.owner = none then
    (({ s with owner := some t } : State T).setInside t true).setPc t (.returned .trylock none)
  else s.setPc t (.returned .trylock (some .EBUSY))

/-- The end of `llam_mutex_lock_resolved_impl`. A condition wait that gets its mutex back returns its own result, one
that does not aborts the process. -/
def finishLock (result : Option Errno) : State T :=
  match call.reacquire, result with
  | none, none => (s.setInside t true).setPc t (.returned .lock none)
  | none, some error => s.setPc t (.returned .lock (some error))
  | some (waited, consumed), none => (s.setInside t true).setPc t (.returned (.condWait true consumed) waited)
  | some _, some _ => s.setPc t .aborted

/-- The recursion check. -/
def lockLoad : State T :=
  if s.owner = some t then finishLock s t call (some .EDEADLK) else s.setPc t (.lockCas call)

/-- The uncontended path. -/
def lockCas : State T :=
  if s.owner = none then finishLock { s with owner := some t } t call none else s.setPc t (.lockPrepare call)

/-- The deadline check and `llam_sync_wait_node_acquire`. -/
def lockPrepare (env : Env) : State T :=
  if call.hasDeadline && env.deadlinePassed then finishLock s t call (some .ETIMEDOUT)
  else if env.allocFails then finishLock s t call (some .ENOMEM)
  else (s.setNode t (.reset !call.cancellable)).setPc t (.lockEnqueue call)

/-- The section that takes a free mutex or queues the node. -/
def lockEnqueue : State T :=
  if s.owner = none then finishLock { s with owner := some t } t call none
  else ({ s with waiters := s.waiters.push t } : State T).setPc t (.track (.mutex call))

/-! ## Waiting -/

/-- `llam_task_set_wait_node_tracking`; its only error is a saturated wait generation. -/
def setTracking (w : Wait) (env : Env) : State T :=
  if env.trackFails then s.setPc t (if env.completed then .ready w else .rollback w .EOVERFLOW)
  else (s.setNode t { s.node t with tracked := true }).setPc t (.arm w)

/-- `llam_arm_task_wait_deadline`. -/
def armDeadline (w : Wait) (env : Env) : State T :=
  if w.hasDeadline then
    match env.armFails with
    | some error => s.setPc t (if env.completed then .ready w else .rollback w error.errno)
    | none => (s.setNode t { s.node t with timerArmed := true }).setPc t (.register w)
  else s.setPc t (.register w)

/-- `llam_cancel_token_register_task`; a wait that rolls back disarms its deadline first. -/
def registerCancel (w : Wait) (env : Env) : State T :=
  if w.cancellable then
    match env.registerFails with
    | some error =>
      if env.completed then s.setPc t (.ready w)
      else (s.setNode t { s.node t with timerArmed := false }).setPc t (.rollback w error.errno)
    | none => s.setPc t (.ready w)
  else s.setPc t (.ready w)

/-- `llam_wait_queue_remove` of the node of `t`, which then is `n`. -/
def withdraw (w : Wait) (n : Node T) : State T :=
  (s.setQueue w ((s.queue w).remove t)).setNode t n

/-- The waiter takes its own node back after its setup has failed; if it is too late for that, it goes on waiting. -/
def rollback (w : Wait) (error : Errno) : Option (State T) :=
  if !s.unlocked w then none
  else if t ∉ (s.queue w).waiting then some (s.setPc t (.ready w))
  else
    let s := withdraw s t w { s.node t with tracked := false, timerArmed := false }
    some (match w with
      | .mutex call => finishLock s t call (some error)
      | .cond _ => s.setPc t (.reacquire (some error) false))

/-- `llam_wait_node_should_park`. -/
def testPark (w : Wait) : State T :=
  let word := (s.node t).wakeArmed.shouldPark
  (s.setNode t { s.node t with wakeArmed := word.1 }).setPc t (if word.2 then .parked w else .finish w)

/-- The scheduler resumes a parked task that was reinjected. -/
def unpark (w : Wait) : Option (State T) :=
  if (s.node t).wakeArmed = .completedQueued then some (s.setPc t (.finish w)) else none

/-- After the wake: disarm, clear the tracking, read the result and release the node. -/
def finishWait (w : Wait) : State T :=
  let n := s.node t
  let s := s.setNode t { n with tracked := false, timerArmed := false }
  match w with
  | .mutex call => finishLock s t call n.errorCode
  | .cond _ => s.setPc t (.reacquire n.errorCode n.scalarValue)

/-- `llam_wake_wait_node` on the node of `w`, which its popper has taken from its queue. -/
def wakeNode (w : T) : State T :=
  s.setNode w { s.node w with wakeArmed := (s.node w).wakeArmed.prepareWake.1, waker := none }

/-! ## Unlock -/

/-- The section that gives the mutex to the next waiter, or to nobody. -/
def handOff : State T × Option T :=
  match s.waiters.pop with
  | none => ({ s with owner := none }, none)
  | some (next, rest) =>
    (({ s with owner := some next, waiters := rest } : State T).setNode next
      { s.node next with errorCode := none, waker := some (.task t) }, some next)

def unlockLoad : State T :=
  if s.owner = some t then s.setPc t .unlockLocked else s.setPc t (.returned .unlock (some .EPERM))

def unlockLocked : State T :=
  let h := handOff s t
  let s := h.1.setInside t false
  match h.2 with
  | none => s.setPc t (.returned .unlock none)
  | some next => s.setPc t (.unlockWake next)

/-! ## Condition variable -/

def condLoad (hasDeadline : Bool) : State T :=
  if s.owner = some t then s.setPc t (.condPrepare hasDeadline)
  else s.setPc t (.returned (.condWait false false) (some .EPERM))

def condPrepare (hasDeadline : Bool) (env : Env) : State T :=
  if hasDeadline && env.deadlinePassed then s.setPc t (.returned (.condWait false false) (some .ETIMEDOUT))
  else if env.allocFails then s.setPc t (.returned (.condWait false false) (some .ENOMEM))
  else (s.setNode t (.reset false)).setPc t (.condEnqueue hasDeadline)

/-- Lock the condition variable and queue the node. -/
def condEnqueue (hasDeadline : Bool) : Option (State T) :=
  if s.condLock ≠ none then none
  else some (({ s with condLock := some t, condWaiters := s.condWaiters.push t } : State T).setPc t
    (.condRecheck hasDeadline))

def condRecheck (hasDeadline : Bool) : State T :=
  if s.owner = some t then s.setPc t (.condRelease hasDeadline)
  else ({ s with condLock := none, condWaiters := s.condWaiters.remove t } : State T).setPc t
    (.returned (.condWait false false) (some .EPERM))

/-- Give the mutex away, with the condition variable locked. -/
def condRelease (hasDeadline : Bool) : State T :=
  let h := handOff s t
  (h.1.setInside t false).setPc t (.condHandOff hasDeadline h.2)

/-- Wake the new owner of the mutex, then unlock the condition variable. -/
def condHandOff (hasDeadline : Bool) (next : Option T) : State T :=
  match next with
  | some next => (wakeNode s next).setPc t (.condHandOff hasDeadline none)
  | none => ({ s with condLock := none } : State T).setPc t (.track (.cond hasDeadline))

/-- `llam_cond_reacquire_mutex`. -/
def reacquire (result : Option Errno) (consumed : Bool) : State T :=
  if s.owner = some t then (s.setInside t true).setPc t (.returned (.condWait true consumed) result)
  else s.setPc t (.lockLoad ⟨false, false, some (result, consumed)⟩)

/-- `llam_cond_waiter_popped`, for a node that `t` has taken from the queue and whose `error_code` it clears. -/
def Node.popped (n : Node T) (t : T) : Node T :=
  { n with errorCode := none, scalarValue := true, waker := some (.task t) }

/-- `llam_cond_signal`. -/
def signalLocked : Option (State T) :=
  if s.condLock ≠ none then none
  else some (match s.condWaiters.pop with
    | none => s.setPc t (.returned .signal none)
    | some (next, rest) =>
      (({ s with condWaiters := rest } : State T).setNode next ((s.node next).popped t)).setPc t (.signalWake next))

/-- `llam_cond_broadcast`: pop every waiter, then wake them one by one. -/
def broadcastLocked : Option (State T) :=
  if s.condLock ≠ none then none
  else some (({ s with
      condWaiters := s.condWaiters.popAll
      node := fun u => if u ∈ s.condWaiters.waiting then (s.node u).popped t else s.node u } : State T).setPc t
    (.broadcastWake s.condWaiters.waiting))

def broadcastWake : List T → State T
  | [] => s.setPc t (.returned .broadcast none)
  | next :: rest => (wakeNode s next).setPc t (.broadcastWake rest)

/-! ## Runs -/

/-- The next action of a task. -/
def advance (env : Env) : Option (State T) :=
  match s.pc t with
  | .idle | .returned _ _ | .aborted => none
  | .trylock => some (tryLock s t)
  | .lockLoad call => some (lockLoad s t call)
  | .lockCas call => some (lockCas s t call)
  | .lockPrepare call => some (lockPrepare s t call env)
  | .lockEnqueue call => some (lockEnqueue s t call)
  | .track w => some (setTracking s t w env)
  | .arm w => some (armDeadline s t w env)
  | .register w => some (registerCancel s t w env)
  | .rollback w error => rollback s t w error
  | .ready w => some (testPark s t w)
  | .parked w => unpark s t w
  | .finish w => some (finishWait s t w)
  | .unlockLoad => some (unlockLoad s t)
  | .unlockLocked => some (unlockLocked s t)
  | .unlockWake next => some ((wakeNode s next).setPc t (.returned .unlock none))
  | .condLoad d => some (condLoad s t d)
  | .condPrepare d => some (condPrepare s t d env)
  | .condEnqueue d => condEnqueue s t d
  | .condRecheck d => some (condRecheck s t d)
  | .condRelease d => some (condRelease s t d)
  | .condHandOff d next => some (condHandOff s t d next)
  | .reacquire result consumed => some (reacquire s t result consumed)
  | .signalLocked => signalLocked s t
  | .signalWake next => some ((wakeNode s next).setPc t (.returned .signal none))
  | .broadcastLocked => broadcastLocked s t
  | .broadcastWake rest => some (broadcastWake s t rest)

/-- The public calls. -/
inductive Call
  | trylock | lock (hasDeadline : Bool) | unlock | condWait (hasDeadline : Bool) | signal | broadcast
  deriving DecidableEq

/-- Where a call starts. -/
def Call.entry : Call → Pc T
  | .trylock => .trylock
  | .lock d => .lockLoad ⟨d, true, none⟩
  | .unlock => .unlockLoad
  | .condWait d => .condLoad d
  | .signal => .signalLocked
  | .broadcast => .broadcastLocked

/-- The wait a task is tracked in. -/
def Pc.wait : Pc T → Option Wait
  | .track w | .arm w | .register w | .rollback w _ | .ready w | .parked w | .finish w => some w
  | _ => none

/-- The removal section of `llam_timeout_task_wait` and `llam_cancel_task_wait_impl`. -/
def resolve (error : Errno) (waker : Waker T) : Option (State T) :=
  match (s.pc t).wait with
  | none => none
  | some w =>
    if !s.unlocked w then none
    else if t ∈ (s.queue w).waiting then
      some (withdraw s t w { s.node t with errorCode := some error, waker := some waker })
    else some s

inductive Action (T : Type)
  | start (t : T) (call : Call)
  | advance (t : T) (env : Env)
  | timeout (t : T)
  | cancel (t : T)
  | resolverWake (t : T)

def step : Action T → Option (State T)
  | .start t call =>
    match s.pc t with
    | .idle | .returned _ _ => some (s.setPc t call.entry)
    | _ => none
  | .advance t env => advance s t env
  | .timeout t => if (s.node t).timerArmed then resolve s t .ETIMEDOUT .timer else none
  | .cancel t =>
    if (s.node t).tracked && !(s.node t).uninterruptible then resolve s t .ECANCELED .canceller else none
  | .resolverWake t =>
    match (s.node t).waker with
    | some .timer | some .canceller => some (wakeNode s t)
    | _ => none

/-- Nobody owns the mutex and nobody waits. -/
def State.init : State T where
  owner := none
  waiters := .empty
  condLock := none
  condWaiters := .empty
  node _ := .reset false
  pc _ := .idle
  inside _ := false

end Llam.Mutex
