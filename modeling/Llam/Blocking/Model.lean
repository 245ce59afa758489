import Llam.Basic
import Llam.Lib.Run
import Llam.Wait.Gate
import Llam.Wait.WakeWord

/-!
# Blocking calls

Tasks `T` submit callbacks (`blocking_api.c`), workers `W` run them (`block.c`), and resolvers `K` cancel the waits, for
a token or for a stop of the runtime (`timer.c`). Jobs are pool objects, named by numbers, that are recycled
(`alloc.c`).

Every compare-and-swap, every store another party may read and every wait is an action of its own; a section with
`block_lock` held is one action, and so is the commit of a submission, which holds the locks of the cancellation tokens.
The callback of a call is run by a worker in two actions, its start and its return. A task makes its calls one after
another, and `call` counts them. Whether an allocation, the setup of a wait, a token or the counter of active workers
refuses is left to the environment. The model is of one run of the runtime, so that `stop_requested` is not cleared.
-/

namespace Llam.Blocking

open Llam.Wait Function

/-! ## State -/

/-- `LLAM_BLOCK_JOB_*`. -/
inductive JobState
  | queued | running | finished | aborted
  deriving DecidableEq

/-- What a blocking call returns: 0 with the result and the `errno` of the callback, or -1. -/
inductive Outcome (V : Type)
  | ok (result : V) (errno : Option Errno)
  | failed (error : Errno)
  deriving DecidableEq

/-- Where somebody who wakes a task stands: `llam_wait_node_prepare_wake`, then `llam_reinject_task_on_shard`. -/
inductive Waking
  | prepare | close | drain | run
  deriving DecidableEq

/-- Where somebody who gives a job back stands in `llam_block_job_release`. -/
inductive Releasing
  | cas | close | drain | push
  deriving DecidableEq

/-- Program counters of a task in `llam_blocking_submit_wait` and `llam_blocking_finish_wait`. -/
inductive Pc (V : Type)
  | idle
  | returned (outcome : Outcome V)
  | enter
  | alloc
  | prepare (job : Nat)
  | close (job : Nat)
  | publish (job : Nat)
  | submit (job : Nat)
  | shouldPark (job : Nat)
  | parked (job : Nat)
  | unregister
  | finishClose
  | finishDrain
  | rollback (job : Nat) (error : Errno)
  | rollbackDrain (job : Nat) (error : Errno)
  | release (job : Nat) (error : Errno) (phase : Releasing)
  deriving DecidableEq

/-- Program counters of a worker in `llam_block_worker_main`. -/
inductive WorkerPc
  | idle
  | claim (job : Nat)
  | discard (job : Nat)
  | noteActive (job : Nat)
  | calling (job : Nat)
  | complete (job : Nat)
  | finish (job : Nat)
  | storeResult (job : Nat)
  | storeCancelled (job : Nat)
  | wake (job : Nat) (phase : Waking)
  | release (job : Nat) (phase : Releasing)
  deriving DecidableEq

/-- Program counters of a resolver in `llam_cancel_task_wait_impl`; `expected` is `none` for a stop. -/
inductive CancelPc (T : Type)
  | idle
  | enter (task : T) (expected : Option Nat)
  | check (task : T) (expected : Option Nat)
  | abortQueued (task : T) (job generation : Nat)
  | recheck (task : T) (job generation : Nat)
  | abortRunning (task : T) (job generation : Nat)
  | store (task : T)
  | finish (task : T)
  | done (task : T)
  | wake (task : T) (phase : Waking)
  deriving DecidableEq

/-- Who owes a task its wake-up: nobody, whoever claims its queued job first, a worker, or a resolver. -/
inductive Duty (W K : Type)
  | nobody
  | offered
  | worker (w : W)
  | canceller (k : K)
  deriving DecidableEq

/-- A task, with its wait tracking and its embedded wait node. The last fields are history: who owes the wake-up, and
for each call how often its callback was started, what that returned, whether a resolver aborted the queued job, how often
the task parked, and how often the parked task was put on a run queue. -/
structure Task (V W K : Type) where
  pc : Pc V
  call : Nat
  gate : Gate K
  generation : Nat
  activeJob : Option Nat
  parked : Bool
  wakeError : Option Errno
  result : V
  errno : Option Errno
  node : WakeWord
  nodeLive : Bool
  registered : Option Nat
  duty : Duty W K
  started : Nat → Nat
  callback : Nat → Option (V × Option Errno)
  aborted : Nat → Bool
  parks : Nat → Nat
  wakes : Nat → Nat

/-- A job object; `call` is history. -/
structure Job (T V : Type) where
  state : JobState
  task : Option T
  holdsTaskRef : Bool
  result : V
  errno : Option Errno
  call : Nat

/-- Where a job object is. -/
inductive Place (T W : Type)
  | fresh
  | pool
  | task (t : T)
  | queue
  | worker (w : W)
  deriving DecidableEq

/-- The runtime. The last fields are history: where each job object is, how often it was taken from the pool and given
back, and which jobs were admitted and not yet discarded or finished. -/
structure State (T V W K : Type) where
  stopRequested : Bool
  maxBlockingJobs : Nat
  pool : List Nat
  fresh : Nat
  queue : List Nat
  pending : Nat
  jobs : Nat → Job T V
  tasks : T → Task V W K
  workers : W → WorkerPc
  cancellers : K → CancelPc T
  place : Nat → Place T W
  allocs : Nat → Nat
  frees : Nat → Nat
  outstanding : Finset Nat

/-- What the environment answers to one action, and what a callback returns. -/
structure Env (V : Type) where
  allocFails : Bool
  setupFails : Option Errno
  tokens : Option Errno
  refuses : Option Errno
  result : V
  errno : Option Errno

variable {T V W K : Type} [DecidableEq T] [DecidableEq W] [DecidableEq K] [Inhabited V]
  (s : State T V W K) (t : T) (j : Nat)

namespace State

def setTask (x : Task V W K) : State T V W K :=
  { s with tasks := update s.tasks t x }

def setJob (y : Job T V) : State T V W K :=
  { s with jobs := update s.jobs j y }

def setWorker (w : W) (pc : WorkerPc) : State T V W K :=
  { s with workers := update s.workers w pc }

def setCanceller (k : K) (pc : CancelPc T) : State T V W K :=
  { s with cancellers := update s.cancellers k pc }

def goto (pc : Pc V) : State T V W K := s.setTask t { s.tasks t with pc := pc }

def move (p : Place T W) : State T V W K :=
  { s with place := update s.place j p }

/-- `llam_runtime_complete_block_pending`. -/
def completePending : State T V W K :=
  { s with
    pending := s.pending - 1
    outstanding := s.outstanding.erase j }

/-- The object goes back to the pool. -/
def recycle : State T V W K :=
  { (s.setJob j { s.jobs j with task := none, holdsTaskRef := false }).move j .pool with
    pool := j :: s.pool
    frees := update s.frees j (s.frees j + 1) }

end State

/-- The fields `llam_task_clear_wait_tracking` resets once the gate is drained. -/
def Task.clearTracking (x : Task V W K) : Task V W K :=
  { x with
    generation := x.generation + 1
    activeJob := none }

/-! ## Giving a job back, and waking a task -/

/-- `llam_block_job_release`: the state, and where it goes on. -/
def releaseStep : Releasing → Option (State T V W K × Option Releasing)
  | .cas =>
    match (s.jobs j).task with
    | some t =>
      if (s.jobs j).holdsTaskRef && (s.tasks t).activeJob = some j then
        some (s.setTask t { s.tasks t with activeJob := none }, some .close)
      else some (s, some .push)
    | none => some (s, some .push)
  | .close =>
    (s.jobs j).task.map fun t => (s.setTask t { s.tasks t with gate := (s.tasks t).gate.close }, some .drain)
  | .drain => (s.jobs j).task.bind fun t => if (s.tasks t).gate.drained then some (s, some .push) else none
  | .push => some (s.recycle j, none)

/-- `llam_wait_node_prepare_wake` and, when it says so, `llam_reinject_task_on_shard`. -/
def wakeStep : Waking → Option (State T V W K × Option Waking)
  | .prepare =>
    let x := s.tasks t
    if !x.nodeLive then some (s.setTask t { x with duty := .nobody }, none)
    else if x.node.prepareWake.2 then some (s.setTask t { x with node := x.node.prepareWake.1 }, some .close)
    else some (s.setTask t { x with node := x.node.prepareWake.1, duty := .nobody }, none)
  | .close => some (s.setTask t { s.tasks t with gate := (s.tasks t).gate.close }, some .drain)
  | .drain => if (s.tasks t).gate.drained then some (s.setTask t (s.tasks t).clearTracking, some .run) else none
  | .run =>
    let x := s.tasks t
    some (s.setTask t { x with
      pc := match x.pc with
        | .parked _ => .unregister
        | pc => pc
      parked := false
      duty := .nobody
      wakes := update x.wakes x.call (x.wakes x.call + 1) }, none)

/-! ## The caller -/

def ret (outcome : Outcome V) : State T V W K := s.goto t (.returned outcome)

/-- `LLAM_BLOCK_JOB_SLAB_COUNT`. -/
def slabCount : Nat := 64

/-- `llam_block_job_grow_pool`. -/
def growPool : State T V W K :=
  { s with
    pool := ((List.range slabCount).map (s.fresh + ·)).reverse ++ s.pool
    fresh := s.fresh + slabCount
    place := fun j => if s.fresh ≤ j ∧ j < s.fresh + slabCount then .pool else s.place j }

/-- `llam_block_job_alloc`; it tries again after it has grown the pool. -/
def alloc (env : Env V) : State T V W K :=
  match s.pool with
  | j :: rest =>
    ({ (s.setJob j ⟨.aborted, none, false, default, none, (s.jobs j).call⟩).move j (.task t) with
      pool := rest
      allocs := update s.allocs j (s.allocs j + 1) } : State T V W K).goto t (.prepare j)
  | [] => if env.allocFails then ret s t (.failed .ENOMEM) else growPool s

/-- The wait node, the scan reference, and the fields of the job. -/
def prepare (env : Env V) : State T V W K :=
  match env.setupFails with
  | some error => s.goto t (.release j error .cas)
  | none => (s.setJob j { s.jobs j with
      task := some t
      holdsTaskRef := true
      state := .queued
      call := (s.tasks t).call }).setTask t { s.tasks t with
      node := .unarmed
      nodeLive := true
      result := default
      errno := none
      pc := .close j }

/-- `llam_task_set_block_tracking`, once the gate is drained. -/
def publish (env : Env V) : Option (State T V W K) :=
  let x := s.tasks t
  if !x.gate.drained then none
  else match env.setupFails with
    | some error => some (s.setTask t { x.clearTracking with
        nodeLive := false
        node := .unarmed
        pc := .release j error .cas })
    | none => some (s.setTask t { x with
        gate := x.gate.publish
        generation := x.generation + 2
        activeJob := some j
        wakeError := none
        parked := true
        duty := .offered
        pc := .submit j })

/-- The token locks, the admission check and the queue commit. -/
def submit (env : Env V) : State T V W K :=
  match env.tokens with
  | some error => s.goto t (.rollback j error)
  | none =>
    if s.stopRequested then s.goto t (.rollback j .ECANCELED)
    else if s.maxBlockingJobs ≠ 0 && s.maxBlockingJobs ≤ s.pending then s.goto t (.rollback j .EAGAIN)
    else if s.pending = uintMax then s.goto t (.rollback j .EOVERFLOW)
    else ({ s.move j .queue with
      pending := s.pending + 1
      queue := s.queue ++ [j]
      outstanding := insert j s.outstanding } : State T V W K).setTask t { s.tasks t with
      registered := some (s.tasks t).generation
      pc := .shouldPark j }

/-- `llam_wait_node_should_park`. -/
def shouldPark : State T V W K :=
  let x := s.tasks t
  if x.node.shouldPark.2 then s.setTask t { x with
    node := x.node.shouldPark.1
    parks := update x.parks x.call (x.parks x.call + 1)
    pc := .parked j }
  else s.setTask t { x with node := x.node.shouldPark.1, parked := false, pc := .unregister }

/-- The end of `llam_blocking_finish_wait`, once the gate is drained. -/
def finishDrain : Option (State T V W K) :=
  let x := s.tasks t
  if !x.gate.drained then none
  else some (s.setTask t { x.clearTracking with
    nodeLive := false
    node := .unarmed
    wakeError := none
    pc := .returned (match x.wakeError with
      | some error => .failed error
      | none => .ok x.result x.errno) })

/-- The rollback of a submission, once the gate is drained. -/
def rollbackDrain (error : Errno) : Option (State T V W K) :=
  let x := s.tasks t
  if !x.gate.drained then none
  else some (s.setTask t { x.clearTracking with
    nodeLive := false
    node := .unarmed
    duty := if x.duty = .offered then .nobody else x.duty
    pc := .release j error .cas })

/-- The next action of a task. -/
def taskStep (env : Env V) : Option (State T V W K) :=
  let x := s.tasks t
  match x.pc with
  | .idle | .returned _ | .parked _ => none
  | .enter => some (if s.stopRequested then ret s t (.failed .ECANCELED) else s.goto t .alloc)
  | .alloc => some (alloc s t env)
  | .prepare j => some (prepare s t j env)
  | .close j => some (s.setTask t { x with gate := x.gate.close, pc := .publish j })
  | .publish j => publish s t j env
  | .submit j => some (submit s t j env)
  | .shouldPark j => some (shouldPark s t j)
  | .unregister => some (s.setTask t { x with registered := none, pc := .finishClose })
  | .finishClose => some (s.setTask t { x with gate := x.gate.close, pc := .finishDrain })
  | .finishDrain => finishDrain s t
  | .rollback j error =>
    some (s.setTask t { x with gate := x.gate.close, parked := false, pc := .rollbackDrain j error })
  | .rollbackDrain j error => rollbackDrain s t j error
  | .release j error phase => (releaseStep s j phase).map fun (s, next) =>
    match next with
    | some phase => s.goto t (.release j error phase)
    | none => ret s t (.failed error)

/-! ## The workers -/

/-- `LLAM_BLOCK_JOB_QUEUED → LLAM_BLOCK_JOB_RUNNING`. -/
def claim (w : W) (j : Nat) (t : T) : State T V W K :=
  if (s.jobs j).state = .queued then
    ((s.setJob j { s.jobs j with state := .running }).setTask t { s.tasks t with duty := .worker w }).setWorker w
      (.noteActive j)
  else s.setWorker w (.discard j)

/-- `llam_runtime_note_block_active`, and either the start of the callback or the failure of the job. -/
def noteActive (w : W) (j : Nat) (t : T) (env : Env V) : State T V W K :=
  let x := s.tasks t
  match env.refuses with
  | some error => (((s.completePending j).setJob j { s.jobs j with
      state := .aborted
      result := default
      errno := some error }).setTask t { x with
      result := default
      errno := some error
      wakeError := some error }).setWorker w (.wake j .prepare)
  | none => (s.setTask t { x with started := update x.started x.call (x.started x.call + 1) }).setWorker w
      (.calling j)

/-- The callback returns. -/
def callbackReturns (w : W) (j : Nat) (t : T) (env : Env V) : State T V W K :=
  let x := s.tasks t
  ((s.setJob j { s.jobs j with
    result := env.result
    errno := env.errno }).setTask t { x with
    callback := update x.callback x.call (some (env.result, env.errno)) }).setWorker w (.complete j)

/-- `LLAM_BLOCK_JOB_RUNNING → LLAM_BLOCK_JOB_FINISHED`. -/
def finishJob (w : W) (j : Nat) : State T V W K :=
  match (s.jobs j).state with
  | .running => (s.setJob j { s.jobs j with state := .finished }).setWorker w (.storeResult j)
  | .aborted => s.setWorker w (.storeCancelled j)
  | _ => s.setWorker w (.release j .cas)

/-- The next action of a worker. -/
def workerStep (w : W) (env : Env V) : Option (State T V W K) :=
  match s.workers w with
  | .idle =>
    match s.queue with
    | [] => none
    | j :: rest => some (({ s.move j (.worker w) with queue := rest } : State T V W K).setWorker w (.claim j))
  | .claim j => (s.jobs j).task.map fun t => claim s w j t
  | .discard j => some ((s.completePending j).setWorker w (.release j .cas))
  | .noteActive j => (s.jobs j).task.map fun t => noteActive s w j t env
  | .calling j => (s.jobs j).task.map fun t => callbackReturns s w j t env
  | .complete j => some ((s.completePending j).setWorker w (.finish j))
  | .finish j => some (finishJob s w j)
  | .storeResult j => (s.jobs j).task.map fun t => (s.setTask t { s.tasks t with
      result := (s.jobs j).result
      errno := (s.jobs j).errno }).setWorker w (.wake j .prepare)
  | .storeCancelled j => (s.jobs j).task.map fun t =>
      (s.setTask t { s.tasks t with wakeError := some .ECANCELED }).setWorker w (.wake j .prepare)
  | .wake j phase => (s.jobs j).task.bind fun t => (wakeStep s t phase).map fun (s, next) =>
    match next with
    | some phase => s.setWorker w (.wake j phase)
    | none => s.setWorker w (.release j .cas)
  | .release j phase => (releaseStep s j phase).map fun (s, next) =>
    match next with
    | some phase => s.setWorker w (.release j phase)
    | none => s.setWorker w .idle

/-! ## The resolvers -/

/-- The checks of `llam_cancel_task_wait_impl` before its first compare-and-swap. -/
def cancelCheck (k : K) (t : T) (expected : Option Nat) : State T V W K :=
  let x := s.tasks t
  match x.activeJob with
  | some j =>
    if (expected = none || expected = some x.generation) && x.parked && x.generation ≠ 0 &&
        (s.jobs j).task = some t then
      s.setCanceller k (.abortQueued t j x.generation)
    else s.setCanceller k (.done t)
  | none => s.setCanceller k (.done t)

/-- `LLAM_BLOCK_JOB_QUEUED → LLAM_BLOCK_JOB_ABORTED`. -/
def abortQueued (k : K) (t : T) (j generation : Nat) : State T V W K :=
  let x := s.tasks t
  if (s.jobs j).state = .queued then
    ((s.setJob j { s.jobs j with state := .aborted }).setTask t { x with
      duty := .canceller k
      aborted := update x.aborted x.call true }).setCanceller k (.store t)
  else s.setCanceller k (.recheck t j generation)

/-- The same checks again before the second. -/
def recheck (k : K) (t : T) (j generation : Nat) : State T V W K :=
  let x := s.tasks t
  if (s.jobs j).task = some t && x.generation = generation && x.activeJob = some j && x.parked then
    s.setCanceller k (.abortRunning t j generation)
  else s.setCanceller k (.done t)

/-- `LLAM_BLOCK_JOB_RUNNING → LLAM_BLOCK_JOB_ABORTED`. -/
def abortRunning (k : K) (t : T) (j : Nat) : State T V W K :=
  (if (s.jobs j).state = .running then s.setJob j { s.jobs j with state := .aborted } else s).setCanceller k (.done t)

/-- The next action of a resolver. -/
def cancelStep (k : K) : Option (State T V W K) :=
  match s.cancellers k with
  | .idle => none
  | .enter t expected => some (match (s.tasks t).gate.tryBegin k with
    | some gate => (s.setTask t { s.tasks t with gate := gate }).setCanceller k (.check t expected)
    | none => s.setCanceller k .idle)
  | .check t expected => some (cancelCheck s k t expected)
  | .abortQueued t j generation => some (abortQueued s k t j generation)
  | .recheck t j generation => some (recheck s k t j generation)
  | .abortRunning t j _ => some (abortRunning s k t j)
  | .store t =>
    some ((s.setTask t { s.tasks t with wakeError := some .ECANCELED }).setCanceller k (.finish t))
  | .finish t => some ((s.setTask t { s.tasks t with gate := (s.tasks t).gate.finish k }).setCanceller k
      (.wake t .prepare))
  | .done t => some ((s.setTask t { s.tasks t with gate := (s.tasks t).gate.finish k }).setCanceller k .idle)
  | .wake t phase => (wakeStep s t phase).map fun (s, next) =>
    match next with
    | some phase => s.setCanceller k (.wake t phase)
    | none => s.setCanceller k .idle

/-! ## Runs -/

inductive Action (T V W K : Type)
  | call (t : T) (valid : Bool)
  | task (t : T) (env : Env V)
  | worker (w : W) (env : Env V)
  | requestStop
  | cancelToken (k : K) (t : T)
  | cancelStop (k : K) (t : T)
  | canceller (k : K)

/-- A call of a task that is in none; `valid` says that neither of its pointers is null. -/
def start (valid : Bool) : Option (State T V W K) :=
  let x := s.tasks t
  let pc : Pc V := if valid then .enter else .returned (.failed .EINVAL)
  match x.pc with
  | .idle | .returned _ => some (s.setTask t { x with call := x.call + 1, pc := pc })
  | _ => none

def step : Action T V W K → Option (State T V W K)
  | .call t valid => start s t valid
  | .task t env => taskStep s t env
  | .worker w env => workerStep s w env
  | .requestStop => some { s with stopRequested := true }
  | .cancelToken k t =>
    match s.cancellers k, (s.tasks t).registered with
    | .idle, some generation => some (s.setCanceller k (.enter t (some generation)))
    | _, _ => none
  | .cancelStop k t =>
    if s.cancellers k = .idle && s.stopRequested && (s.tasks t).parked then
      some (s.setCanceller k (.enter t none))
    else none
  | .canceller k => cancelStep s k

/-- No call has been made. -/
def State.init (maxBlockingJobs : Nat) : State T V W K where
  stopRequested := false
  maxBlockingJobs := maxBlockingJobs
  pool := []
  fresh := 0
  queue := []
  pending := 0
  jobs _ := ⟨.aborted, none, false, default, none, 0⟩
  tasks _ :=
    { pc := .idle
      call := 0
      gate := Gate.init
      generation := 0
      activeJob := none
      parked := false
      wakeError := none
      result := default
      errno := none
      node := .unarmed
      nodeLive := false
      registered := none
      duty := .nobody
      started := fun _ => 0
      callback := fun _ => none
      aborted := fun _ => false
      parks := fun _ => 0
      wakes := fun _ => 0 }
  workers _ := .idle
  cancellers _ := .idle
  place _ := .fresh
  allocs _ := 0
  frees _ := 0
  outstanding := ∅

end Llam.Blocking
