import Llam.Basic
import Llam.Lib.Run

/-!
# Joining, detaching and reclaiming a task

One task storage and the tasks that live in it one after another, its incarnations. Callers `C` join, join as a group
`G`, or detach by a public handle (`task_handle_claim.c`, `yield_join_sleep.c`); the scheduler of an incarnation runs
its exit and its post-exit reclaim check (`issue.c`, `scheduler.c`, `task_reclaim.c`); the storage then goes back to the
allocator and `spawn` hands it to the next incarnation with its flags reset (`spawn.c`).

Every access to an atomic flag is an action of its own. The registry lock and the task lock are held across actions by a
detaching caller only; every other section with a lock held is one action. A public handle is the number of its
activation: it resolves while that is the activation of the storage.

Scans and other public operations pin the storage (`pin`, `unpin`), and reclaim waits for them. The saturation of these
counters, the owner checks and the teardown of the runtime are left out.
-/

namespace Llam.Reclaim

open Function

/-! ## State -/

/-- Who joins: a managed task, a managed task in a blocking region, or a thread that runs no task. -/
inductive Kind
  | managed | foreign | host
  deriving DecidableEq

/-- A join call; `self` says that the caller is the target itself. -/
structure JoinArgs (G : Type) where
  handle : Nat
  kind : Kind
  group : Option G
  self : Bool
  hasDeadline : Bool
  deriving DecidableEq

inductive Call (G : Type)
  | join (args : JoinArgs G)
  | detach (handle : Nat)
  deriving DecidableEq

def Call.handle {G : Type} : Call G → Nat
  | .join args => args.handle
  | .detach handle => handle

/-- Program counters of a caller. -/
inductive Pc (G : Type)
  | idle
  | returned (call : Call G) (result : Option Errno)
  | joinClaim (args : JoinArgs G)
  | joinFast (args : JoinArgs G)
  | joinLocked (args : JoinArgs G)
  | joinParked (args : JoinArgs G)
  | joinWoken (args : JoinArgs G) (wakeError : Option Errno)
  | joinPoll (args : JoinArgs G)
  | joinPolled (args : JoinArgs G)
  | joinRelease (args : JoinArgs G) (error : Errno)
  | joinReady (args : JoinArgs G)
  | joinReclaim (args : JoinArgs G)
  | detachEnter (handle : Nat)
  | detachLock (handle : Nat)
  | detachInvalidate (handle : Nat)
  | detachStore (handle : Nat)
  | detachLoad (handle : Nat)
  | detachReclaim (handle : Nat)
  | detachUnlock (handle : Nat) (reclaim : Bool)
  | invalidate (call : Call G)
  | free (call : Call G)
  deriving DecidableEq

/-- Program counters of the scheduler of an incarnation. -/
inductive SchedPc
  | unborn | running | exitWake | markReady | loadDetached | loadReady | claim | invalidate | free | done
  deriving DecidableEq

/-- Who reclaims a storage. -/
inductive Actor (C : Type)
  | caller (c : C)
  | scheduler (incarnation : Nat)
  deriving DecidableEq

/-- The storage with its lock words and flags, everybody's program counter, and as history: who holds the join claim,
and for each incarnation its handle, whether its scheduler has marked it off-stack, who has consumed it, detached it and
claimed its reclaim, and how often its storage was freed. -/
structure State (C G : Type) where
  incarnation : Nat
  allocated : Bool
  handleGen : Nat
  owningGroup : Option G
  scopeCompletion : Bool
  joinClaimed : Bool
  detached : Bool
  completed : Bool
  reclaimReady : Bool
  reclaimClaimed : Bool
  unlisted : Bool
  joinWaiters : List C
  joinWaiterCountAtExit : Nat
  refs : Nat
  registryLock : Option C
  taskLock : Option C
  pc : C → Pc G
  sched : Nat → SchedPc
  holder : Option C
  handleOf : Nat → Nat
  offStack : Nat → Bool
  consumers : Nat → List C
  detacher : Nat → Option C
  reclaimer : Nat → Option (Actor C)
  freed : Nat → Nat

/-- What the environment answers to one action of a caller. -/
structure Env where
  fatal : Option Errno
  deadlinePassed : Bool
  cancelled : Bool
  setupFails : Option Errno

variable {C G : Type} [DecidableEq C] [DecidableEq G]

variable (s : State C G) (c : C) (args : JoinArgs G) (handle : Nat)

def State.setPc (pc : Pc G) : State C G := { s with pc := update s.pc c pc }

def State.setSched (g : Nat) (pc : SchedPc) : State C G :=
  { s with sched := update s.sched g pc }

/-- Return from a call; a success consumes the incarnation. -/
def State.ret (call : Call G) (result : Option Errno) : State C G :=
  match result with
  | none => ({ s with consumers := update s.consumers s.incarnation (s.consumers s.incarnation ++ [c]) } :
      State C G).setPc c (.returned call none)
  | some error => s.setPc c (.returned call (some error))

/-- `llam_task_resolve_public_handle_locked`. -/
def State.resolves : Bool := s.handleGen = handle

/-- The compare-and-swap of `reclaim_claimed`. -/
def State.claimReclaim (a : Actor C) : State C G :=
  { s with
    reclaimClaimed := true
    reclaimer := update s.reclaimer s.incarnation (some a) }

/-- `llam_free_task`. -/
def State.freeStorage : State C G :=
  { s with
    allocated := false
    freed := update s.freed s.incarnation (s.freed s.incarnation + 1) }

/-! ## Join -/

/-- `llam_task_claim_join_public_handle_for_group`. -/
def joinClaim : Option (State C G) :=
  if s.registryLock ≠ none then none
  else if !s.resolves args.handle then some (s.ret c (.join args) (some .EINVAL))
  else if s.scopeCompletion then some (s.ret c (.join args) (some .EBUSY))
  else if s.detached then some (s.ret c (.join args) (some .EINVAL))
  else if s.owningGroup ≠ none && s.owningGroup ≠ args.group then some (s.ret c (.join args) (some .EBUSY))
  else if s.owningGroup = none && args.group ≠ none then some (s.ret c (.join args) (some .EINVAL))
  else if args.self then some (s.ret c (.join args) (some .EDEADLK))
  else if s.joinClaimed then some (s.ret c (.join args) (some .EBUSY))
  else some (({ s with joinClaimed := true, holder := some c } : State C G).setPc c
    (if args.kind = .managed then .joinFast args else .joinPoll args))

/-- `llam_join_try_completed_fast`. -/
def joinFast : State C G :=
  s.setPc c (if s.reclaimReady then .joinReady args else .joinLocked args)

/-- The section of `llam_join_claimed_impl` with the task lock held. -/
def joinLocked (env : Env) : Option (State C G) :=
  if s.taskLock ≠ none then none
  else if s.detached then some (s.setPc c (.joinRelease args .EINVAL))
  else if s.completed then some (s.setPc c (.joinReady args))
  else if s.joinWaiters ≠ [] then some (s.setPc c (.joinRelease args .EBUSY))
  else if args.hasDeadline && env.deadlinePassed then some (s.setPc c (.joinRelease args .ETIMEDOUT))
  else match env.setupFails with
    | some error => some (s.setPc c (.joinRelease args error))
    | none => some (({ s with joinWaiters := c :: s.joinWaiters } : State C G).setPc c (.joinParked args))

/-- A parked joiner has been resumed and reads its wake error. -/
def joinWoken (wakeError : Option Errno) : State C G :=
  match wakeError with
  | some error => s.setPc c (.joinRelease args error)
  | none => s.setPc c (.joinReady args)

/-- One round of the polling joins of foreign and host callers. -/
def joinPoll (env : Env) : State C G :=
  if s.completed then s.setPc c (if args.kind = .host then .joinPolled args else .joinReady args)
  else match env.fatal with
    | some error => s.setPc c (if args.kind = .host then .joinPolled args else .joinRelease args error)
    | none =>
      if args.hasDeadline && env.deadlinePassed then s.setPc c (.joinRelease args .ETIMEDOUT)
      else if args.kind = .foreign && env.cancelled then s.setPc c (.joinRelease args .ECANCELED)
      else s

/-- The checks of a host join after its loop. -/
def joinPolled (env : Env) : State C G :=
  match env.fatal with
  | some error => s.setPc c (.joinRelease args error)
  | none =>
    if s.detached then s.setPc c (.joinRelease args .EINVAL) else s.setPc c (.joinReady args)

/-- `llam_task_release_join_claim`. -/
def joinRelease (error : Errno) : State C G :=
  ({ s with joinClaimed := false, holder := none } : State C G).ret c (.join args) (some error)

/-- The wait of `llam_try_reclaim_joined_task` for `reclaim_ready`. -/
def joinReady : Option (State C G) :=
  if s.reclaimReady then some (s.setPc c (.joinReclaim args)) else none

/-- The claim of `llam_try_reclaim_joined_task`. -/
def joinReclaim : State C G :=
  if 1 < s.joinWaiterCountAtExit || s.reclaimClaimed then s.ret c (.join args) none
  else (s.claimReclaim (.caller c)).setPc c (.invalidate (.join args))

/-! ## Detach -/

/-- `llam_task_claim_detach_public_handle` takes the registry lock. -/
def detachEnter : Option (State C G) :=
  if s.registryLock ≠ none then none
  else if !s.resolves handle then some (s.ret c (.detach handle) (some .EINVAL))
  else if s.owningGroup ≠ none || s.scopeCompletion then some (s.ret c (.detach handle) (some .EBUSY))
  else some (({ s with registryLock := some c } : State C G).setPc c (.detachLock handle))

/-- Drop both locks and return an error. -/
def detachFail (error : Errno) : State C G :=
  ({ s with registryLock := none, taskLock := none } : State C G).ret c (.detach handle) (some error)

/-- It takes the task lock and the join claim. -/
def detachLock : Option (State C G) :=
  if s.taskLock ≠ none then none
  else if s.detached then some (detachFail s c handle .EINVAL)
  else if s.joinWaiters ≠ [] then some (detachFail s c handle .EBUSY)
  else if s.joinClaimed then some (detachFail s c handle .EBUSY)
  else some (({ s with taskLock := some c, joinClaimed := true, holder := some c } : State C G).setPc c
    (.detachInvalidate handle))

def detachInvalidate : State C G :=
  ({ s with handleGen := s.handleGen + 1 } : State C G).setPc c (.detachStore handle)

def detachStore : State C G :=
  ({ s with
    detached := true
    detacher := update s.detacher s.incarnation (some c) } : State C G).setPc c (.detachLoad handle)

def detachLoad : State C G :=
  s.setPc c (if s.reclaimReady then .detachReclaim handle else .detachUnlock handle false)

def detachReclaim : State C G :=
  if s.reclaimClaimed then s.setPc c (.detachUnlock handle false)
  else (s.claimReclaim (.caller c)).setPc c (.detachUnlock handle true)

def detachUnlock (reclaim : Bool) : State C G :=
  let s : State C G := { s with registryLock := none, taskLock := none }
  if reclaim then s.setPc c (.invalidate (.detach handle)) else s.ret c (.detach handle) none

/-! ## Reclaim -/

/-- `llam_reclaim_claimed_task` invalidates the handle and unlinks the task. -/
def invalidate : Option (State C G) :=
  if s.registryLock ≠ none then none else some { s with handleGen := s.handleGen + 1, unlisted := true }

/-- It frees the storage once nobody pins it. -/
def free : Option (State C G) := if s.refs = 0 then some s.freeStorage else none

/-- The next action of a caller. -/
def advance (env : Env) : Option (State C G) :=
  match s.pc c with
  | .idle | .returned _ _ | .joinParked _ => none
  | .joinClaim args => joinClaim s c args
  | .joinFast args => some (joinFast s c args)
  | .joinLocked args => joinLocked s c args env
  | .joinWoken args wakeError => some (joinWoken s c args wakeError)
  | .joinPoll args => some (joinPoll s c args env)
  | .joinPolled args => some (joinPolled s c args env)
  | .joinRelease args error => some (joinRelease s c args error)
  | .joinReady args => joinReady s c args
  | .joinReclaim args => some (joinReclaim s c args)
  | .detachEnter handle => detachEnter s c handle
  | .detachLock handle => detachLock s c handle
  | .detachInvalidate handle => some (detachInvalidate s c handle)
  | .detachStore handle => some (detachStore s c handle)
  | .detachLoad handle => some (detachLoad s c handle)
  | .detachReclaim handle => some (detachReclaim s c handle)
  | .detachUnlock handle reclaim => some (detachUnlock s c handle reclaim)
  | .invalidate call => (invalidate s).map fun s => s.setPc c (.free call)
  | .free call => (free s).map fun s => s.ret c call none

/-! ## The scheduler -/

/-- `llam_reinject_join_waiters` resumes whoever waits. -/
def wakeJoiners : State C G :=
  { s with
    joinWaiterCountAtExit := s.joinWaiters.length
    joinWaiters := []
    pc := fun c => if c ∈ s.joinWaiters then
      match s.pc c with
      | .joinParked args => .joinWoken args none
      | pc => pc
      else s.pc c }

/-- The next action of the scheduler of incarnation `g`: its exit, `llam_task_mark_reclaim_ready` and
`llam_try_reclaim_detached_task`. After the mark it works on the storage, whichever incarnation that holds by then. -/
def schedule (g : Nat) : Option (State C G) :=
  match s.sched g with
  | .unborn | .done => none
  | .running =>
    if s.taskLock ≠ none then none else some (({ s with completed := true } : State C G).setSched g .exitWake)
  | .exitWake => if s.taskLock ≠ none then none else some ((wakeJoiners s).setSched g .markReady)
  | .markReady => some (({ s with
      reclaimReady := true
      offStack := update s.offStack g true } : State C G).setSched g .loadDetached)
  | .loadDetached => some (s.setSched g (if s.detached then .loadReady else .done))
  | .loadReady => some (s.setSched g (if s.reclaimReady then .claim else .done))
  | .claim =>
    if s.reclaimClaimed then some (s.setSched g .done)
    else some ((s.claimReclaim (.scheduler g)).setSched g .invalidate)
  | .invalidate => (invalidate s).map fun s => s.setSched g .free
  | .free => (free s).map fun s => s.setSched g .done

/-! ## Runs -/

/-- `llam_spawn` in a recycled storage: every flag is reset, and the current activation is the new task's handle. -/
def spawn (group : Option G) (scopeCompletion : Bool) : State C G :=
  let g := s.incarnation + 1
  { s with
    incarnation := g
    allocated := true
    owningGroup := group
    scopeCompletion := scopeCompletion
    joinClaimed := false
    detached := false
    completed := false
    reclaimReady := false
    reclaimClaimed := false
    unlisted := false
    joinWaiters := []
    joinWaiterCountAtExit := 0
    refs := 0
    holder := none
    sched := update s.sched g .running
    handleOf := update s.handleOf g s.handleGen }

inductive Action (C G : Type)
  | spawn (group : Option G) (scopeCompletion : Bool)
  | start (c : C) (call : Call G)
  | advance (c : C) (env : Env)
  | resolveJoin (c : C) (error : Errno)
  | schedule (g : Nat)
  | pin
  | unpin

/-- The timer and the cancellation path take a joiner off the list of waiters. -/
def resolveJoin (error : Errno) : Option (State C G) :=
  if s.taskLock ≠ none then none
  else match s.pc c with
    | .joinParked args =>
      if c ∈ s.joinWaiters then
        some (({ s with joinWaiters := s.joinWaiters.erase c } : State C G).setPc c (.joinWoken args (some error)))
      else none
    | _ => none

/-- A call may be made with a handle that some spawn has returned. -/
def State.issued : Bool :=
  (List.range s.incarnation).any fun g => s.handleOf (g + 1) = handle

def step : Action C G → Option (State C G)
  | .spawn group scopeCompletion => if s.allocated then none else some (spawn s group scopeCompletion)
  | .start c call =>
    if !s.issued call.handle then none
    else match s.pc c, call with
      | .idle, .join args | .returned _ _, .join args => some (s.setPc c (.joinClaim args))
      | .idle, .detach handle | .returned _ _, .detach handle => some (s.setPc c (.detachEnter handle))
      | _, _ => none
  | .advance c env => advance s c env
  | .resolveJoin c error => resolveJoin s c error
  | .schedule g => schedule s g
  | .pin => if s.allocated && !s.unlisted then some { s with refs := s.refs + 1 } else none
  | .unpin => if s.refs = 0 then none else some { s with refs := s.refs - 1 }

/-- The storage has never been used. -/
def State.init : State C G where
  incarnation := 0
  allocated := false
  handleGen := 0
  owningGroup := none
  scopeCompletion := false
  joinClaimed := false
  detached := false
  completed := false
  reclaimReady := false
  reclaimClaimed := false
  unlisted := false
  joinWaiters := []
  joinWaiterCountAtExit := 0
  refs := 0
  registryLock := none
  taskLock := none
  pc _ := .idle
  sched _ := .unborn
  holder := none
  handleOf _ := 0
  offStack _ := false
  consumers _ := []
  detacher _ := none
  reclaimer _ := none
  freed _ := 0

end Llam.Reclaim
