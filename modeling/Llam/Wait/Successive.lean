import Llam.Blocking.Model

/-!
# The successive waits of a task

One task waits again and again, in blocking calls and otherwise, and every wait is published through the same gate word.
Workers finish its jobs, wake it and then recycle the jobs; timers, cancellers and the producers of the other waits
resolve waits from outside, with or without a reference through the gate. Every compare-and-swap, store and drain is a
step of its own; the wake of a node and the removal of a wait from its queue are one step each. The other waits stand
for mutexes, conditions, channels, sleeps and I/O: whoever removes such a wait from its queue has resolved it.

`resolved` is history: it says of the wait that was published last whether somebody has resolved it. `duty` is who has
resolved a wait and not woken the task yet, and `unlinked` are the workers between the two steps of
`llam_block_job_release`, the unlink of the job from the task and the close of the gate. `earlier_job_closes_gate` is a
run in which the close comes when the task is in a later wait; `pending_gate_open` says that the gate of a pending wait
is open, and that only the task closes it, if no wait starts before everybody is done with the earlier ones.
-/

namespace Llam.Wait.Successive

open Llam.Wait Llam.Blocking Llam.Lib Function

/-! ## State -/

inductive Kind
  | block (job : Nat)
  | other
  deriving DecidableEq

/-- What is stored to `active_block_job` -/
def Kind.job : Kind → Option Nat
  | block j => some j
  | other => none

/-- Where the task is. -/
inductive Pc
  | running
  /-- `llam_task_prepare_wait_tracking` closes the gate. -/
  | close (kind : Kind)
  | drain (kind : Kind)
  | publish (kind : Kind)
  | submit (kind : Kind)
  | shouldPark (kind : Kind)
  | parked (kind : Kind)
  /-- The task clears its wait at the end. -/
  | finishClose (kind : Kind)
  | finishDrain (kind : Kind)
  /-- A submission was refused. -/
  | rollbackClose (job : Nat)
  | rollbackDrain (job : Nat)
  | release (job : Nat) (phase : Releasing)
  deriving DecidableEq

inductive WorkerPc
  | idle
  | claim (job : Nat)
  | calling (job : Nat)
  | wake (job : Nat) (phase : Waking)
  | release (job : Nat) (phase : Releasing)
  deriving DecidableEq

/-- Where a timer, a canceller or a producer is. -/
inductive AgentPc
  | idle
  /-- It has a reference through the gate. -/
  | inside
  | leaving (wakes : Bool)
  | wake (phase : Waking)
  deriving DecidableEq

/-- The task with those who deal with its waits. A job that is not in the pool has a state. -/
structure State (W A : Type) where
  pc : Pc
  gate : Gate A
  generation : Nat
  activeJob : Option Nat
  word : WakeWord
  nodeLive : Bool
  job : Nat → Option JobState
  queue : List Nat
  worker : W → WorkerPc
  agent : A → AgentPc
  resolved : Bool
  duty : Option (W ⊕ A)
  unlinked : List W

variable {W A : Type} [DecidableEq W] [DecidableEq A]

def State.init : State W A :=
  ⟨.running, .init, 0, none, .unarmed, false, fun _ => none, [], fun _ => .idle, fun _ => .idle, false, none, []⟩

/-! ## Steps -/

variable (s : State W A)

/-- `llam_wait_node_prepare_wake` and, if it says so, `llam_reinject_task_on_shard`; where it goes on -/
def wakeStep : Waking → Option (State W A × Option Waking)
  | .prepare =>
    if !s.nodeLive then some ({ s with duty := none }, none)
    else if s.word.prepareWake.2 then some ({ s with word := s.word.prepareWake.1 }, some .close)
    else some ({ s with word := s.word.prepareWake.1, duty := none }, none)
  | .close => some ({ s with gate := s.gate.close }, some .drain)
  | .drain =>
    if s.gate.drained then some ({ s with generation := s.generation + 1, activeJob := none }, some .run) else none
  | .run =>
    let pc := match s.pc with
      | .parked k => .finishClose k
      | pc => pc
    some ({ s with pc := pc, duty := none }, none)

/-- `llam_block_job_release` -/
def releaseStep (j : Nat) : Releasing → Option (State W A × Option Releasing)
  | .cas => if s.activeJob = some j then some ({ s with activeJob := none }, some .close) else some (s, some .push)
  | .close => some ({ s with gate := s.gate.close }, some .drain)
  | .drain => if s.gate.drained then some (s, some .push) else none
  | .push => some ({ s with job := update s.job j none }, none)

/-- A new wait: the wait node is acquired, and for a blocking call a job from the pool is prepared. -/
def begin (kind : Kind) : Option (State W A) :=
  let s' := { s with word := .unarmed, nodeLive := true, pc := .close kind }
  match s.pc, kind with
  | .running, .other => some s'
  | .running, .block j =>
    if s.job j = none then some { s' with job := update s.job j (some .queued) } else none
  | _, _ => none

/-- The next step of the task. With `fails` a submission is refused, or the setup of another wait fails. -/
def taskStep (fails : Bool) : Option (State W A) :=
  match s.pc with
  | .running | .parked _ => none
  | .close k => some { s with gate := s.gate.close, pc := .drain k }
  | .drain k =>
    if s.gate.drained then
      some { s with generation := s.generation + 2, activeJob := k.job, pc := .publish k }
    else none
  | .publish k =>
    if s.gate.closed && s.gate.drained then
      some { s with gate := s.gate.publish, resolved := false, pc := .submit k }
    else none
  | .submit (.block j) =>
    if fails then some { s with pc := .rollbackClose j }
    else some { s with queue := s.queue ++ [j], pc := .shouldPark (.block j) }
  | .submit .other =>
    if fails && !s.resolved then some { s with pc := .finishClose .other }
    else some { s with pc := .shouldPark .other }
  | .shouldPark k =>
    if s.word.shouldPark.2 then some { s with word := s.word.shouldPark.1, pc := .parked k }
    else some { s with word := s.word.shouldPark.1, pc := .finishClose k }
  | .finishClose k => some { s with gate := s.gate.close, pc := .finishDrain k }
  | .finishDrain _ =>
    if s.gate.drained then
      some { s with generation := s.generation + 1, activeJob := none, nodeLive := false, pc := .running }
    else none
  | .rollbackClose j => some { s with gate := s.gate.close, pc := .rollbackDrain j }
  | .rollbackDrain j =>
    if s.gate.drained then
      some { s with generation := s.generation + 1, activeJob := none, nodeLive := false, pc := .release j .cas }
    else none
  | .release j phase => (releaseStep s j phase).map fun (s, next) =>
    match next with
    | some phase => { s with pc := .release j phase }
    | none => { s with pc := .running }

def setWorker (w : W) (pc : WorkerPc) : State W A :=
  { s with worker := update s.worker w pc }

def setAgent (a : A) (pc : AgentPc) : State W A :=
  { s with agent := update s.agent a pc }

/-- The callback has returned, or could not be started: the job is finished or aborted, and the task is to be woken. -/
def complete (w : W) (j : Nat) (state : JobState) : State W A :=
  setWorker { s with job := update s.job j (some state), resolved := true, duty := some (.inl w) } w
    (.wake j .prepare)

/-- The next step of a worker. With `fails` the callback is not started. -/
def workerStep (w : W) (fails : Bool) : Option (State W A) :=
  match s.worker w with
  | .idle =>
    match s.queue with
    | [] => none
    | j :: rest => some (setWorker { s with queue := rest } w (.claim j))
  | .claim j =>
    if s.job j = some .queued then
      some (setWorker { s with job := update s.job j (some .running) } w (.calling j))
    else some (setWorker s w (.release j .cas))
  | .calling j =>
    if fails then some (complete s w j .aborted)
    else match s.job j with
      | some .running => some (complete s w j .finished)
      | some .aborted => some (complete s w j .aborted)
      | _ => some (setWorker s w (.release j .cas))
  | .wake j phase => (wakeStep s phase).map fun (s, next) =>
    match next with
    | some phase => setWorker s w (.wake j phase)
    | none => setWorker s w (.release j .cas)
  | .release j phase => (releaseStep s j phase).map fun (s', next) =>
    match next with
    | some .close => setWorker { s' with unlinked := w :: s.unlinked } w (.release j .close)
    | some phase => setWorker { s' with unlinked := s.unlinked.erase w } w (.release j phase)
    | none => setWorker s' w .idle

/-- The task waits for something other than a job, and the wait is in its queue. -/
def Pc.queuesOther : Pc → Bool
  | .submit .other | .shouldPark .other | .parked .other => true
  | _ => false

/-- A party that is inside the gate tries to resolve the wait. -/
def resolve (a : A) : State W A :=
  match s.activeJob with
  | some j =>
    match s.job j with
    | some .queued =>
      setAgent { s with
        job := update s.job j (some .aborted), resolved := true, duty := some (.inr a) } a (.leaving true)
    | some .running => setAgent { s with job := update s.job j (some .aborted) } a (.leaving false)
    | _ => setAgent s a (.leaving false)
  | none =>
    if s.pc.queuesOther && !s.resolved then
      setAgent { s with resolved := true, duty := some (.inr a) } a (.leaving true)
    else setAgent s a (.leaving false)

/-- The next step of a party that is inside the gate or has to wake the task. With `acts` it tries to resolve it. -/
def agentStep (a : A) (acts : Bool) : Option (State W A) :=
  match s.agent a with
  | .idle => none
  | .inside => some (if acts then resolve s a else setAgent s a (.leaving false))
  | .leaving wakes =>
    some (setAgent { s with gate := s.gate.finish a } a (if wakes then .wake .prepare else .idle))
  | .wake phase => (wakeStep s phase).map fun (s, next) =>
    match next with
    | some phase => setAgent s a (.wake phase)
    | none => setAgent s a .idle

/-- `llam_task_wait_resolver_try_begin` of a party that has nothing else to do with the task -/
def enter (a : A) : Option (State W A) :=
  match s.agent a with
  | .idle => (s.gate.tryBegin a).map fun gate => setAgent { s with gate := gate } a .inside
  | _ => none

/-- A producer or a timer removes a wait from its queue without a reference through the gate. -/
def remove (a : A) : Option (State W A) :=
  match s.agent a with
  | .idle =>
    if s.pc.queuesOther && !s.resolved then
      some (setAgent { s with resolved := true, duty := some (.inr a) } a (.wake .prepare))
    else none
  | _ => none

inductive Action (W A : Type)
  | begin (kind : Kind)
  | task (fails : Bool)
  | worker (w : W) (fails : Bool)
  | enter (a : A)
  | agent (a : A) (acts : Bool)
  | remove (a : A)

def step : Action W A → Option (State W A)
  | .begin kind => begin s kind
  | .task fails => taskStep s fails
  | .worker w fails => workerStep s w fails
  | .enter a => enter s a
  | .agent a acts => agentStep s a acts
  | .remove a => remove s a

/-- The task starts a wait only when everybody is done with its earlier ones: no worker is between the unlink and the
close of a job, and nobody who has resolved a wait still has to wake the task. -/
def quiet : Action W A → Bool
  | .begin _ => s.unlinked.isEmpty && s.duty.isNone
  | _ => true

/-- The wait is published, and the task has not gone on from it. -/
def Pc.waiting : Pc → Bool
  | .submit _ | .shouldPark _ | .parked _ => true
  | _ => false

/-- A wait is published and nobody has resolved it. -/
def State.pending : Bool := s.pc.waiting && !s.resolved

/-! ## The wake word -/

attribute [grind] Kind.job Pc.queuesOther Pc.waiting

@[grind =] theorem prepareWake_snd (w : WakeWord) : w.prepareWake.2 = decide (w = .armed) := by cases w <;> rfl

@[grind =] theorem prepareWake_fst (w : WakeWord) :
    w.prepareWake.1 = if w = .armed ∨ w = .completedQueued then .completedQueued else .completedInline := by
  cases w <;> rfl

@[grind =] theorem shouldPark_fst (w : WakeWord) : w.shouldPark.1 = if w = .unarmed then .armed else w := by
  cases w <;> rfl

@[grind =] theorem shouldPark_snd (w : WakeWord) : w.shouldPark.2 = decide (w = .unarmed ∨ w = .completedQueued) := by
  cases w <;> rfl

/-! ## The invariant -/

/-- The job a worker has. -/
@[grind] def WorkerPc.job : WorkerPc → Option Nat
  | .idle => none
  | .claim j | .calling j | .wake j _ | .release j _ => some j

/-- The worker has resolved the wait of its job, or found it resolved. -/
@[grind] def WorkerPc.served : WorkerPc → Bool
  | .wake _ _ | .release _ _ => true
  | _ => false

/-- The job of the task that is not with the workers. -/
@[grind] def Pc.holds : Pc → Option Nat
  | .close k | .drain k | .publish k | .submit k => k.job
  | .rollbackClose j | .rollbackDrain j | .release j _ => some j
  | _ => none

/-- The job of the wait whose fields are stored. -/
@[grind] def Pc.current : Pc → Option Nat
  | .publish k | .submit k | .shouldPark k | .parked k | .finishClose k | .finishDrain k => k.job
  | .rollbackClose j | .rollbackDrain j => some j
  | _ => none

/-- The wait is not published yet. -/
@[grind] def Pc.starting : Pc → Bool
  | .close _ | .drain _ | .publish _ => true
  | _ => false

/-- The wait was published and its fields are not cleared. -/
@[grind] def Pc.settled : Pc → Bool
  | .submit _ | .shouldPark _ | .parked _ | .finishClose _ | .finishDrain _ => true
  | .rollbackClose _ | .rollbackDrain _ => true
  | _ => false

/-- The task has not closed the gate of its wait. -/
@[grind] def Pc.opened : Pc → Bool
  | .submit _ | .shouldPark _ | .parked _ | .finishClose _ | .rollbackClose _ => true
  | _ => false

@[grind] def AgentPc.holds : AgentPc → Bool
  | .inside | .leaving _ => true
  | _ => false

/-- It has resolved a wait and not woken the task yet. -/
@[grind] def AgentPc.owes : AgentPc → Bool
  | .leaving wakes => wakes
  | .wake _ => true
  | _ => false

@[grind →] theorem queuesOther_spec {pc : Pc} (h : pc.queuesOther = true) :
    pc.starting = false ∧ pc.settled = true ∧ pc.waiting = true ∧ pc.current = none := by
  cases pc with
  | submit k | shouldPark k | parked k => cases k <;> simp_all [Pc.queuesOther, Pc.starting, Pc.settled, Pc.waiting,
      Pc.current, Kind.job]
  | _ => simp [Pc.queuesOther] at h

@[grind →] theorem waiting_spec {pc : Pc} (h : pc.waiting = true) : pc.starting = false ∧ pc.settled = true := by
  cases pc <;> simp_all [Pc.waiting, Pc.starting, Pc.settled]

/-- The task waits for a job that nobody has resolved. -/
@[grind] def Waits (j : Nat) : Prop :=
  (s.pc = .shouldPark (.block j) ∨ s.pc = .parked (.block j)) ∧ s.resolved = false

/-- Where the jobs are. -/
structure Jobs (s : State W A) : Prop where
  nodup : s.queue.Nodup
  apart : ∀ w j, (s.worker w).job = some j → j ∉ s.queue
  unique : ∀ w w' j, (s.worker w).job = some j → (s.worker w').job = some j → w = w'
  mine : ∀ j, s.pc.holds = some j → j ∉ s.queue ∧ ∀ w, (s.worker w).job ≠ some j
  pooled : ∀ j, s.job j = none → j ∉ s.queue ∧ (∀ w, (s.worker w).job ≠ some j) ∧ s.pc.holds ≠ some j
  prepared : ∀ j, s.pc.starting = true → s.pc.holds = some j → s.job j = some .queued
  calling : ∀ w j, s.worker w = .calling j → s.job j = some .running ∨ s.job j = some .aborted
  active : ∀ j, s.activeJob = some j → s.pc.current = some j

/-- The gate and those inside. -/
structure Gated (s : State W A) : Prop where
  closed : s.pc.opened = false → s.gate.closed = true
  inside : ∀ a, a ∈ s.gate.holders ↔ (s.agent a).holds = true
  drained : ∀ k, s.pc = .publish k → s.gate.holders = ∅
  pending : s.pc.waiting = true → s.resolved = false → s.gate.closed = false

/-- Who has resolved the wait. -/
structure Resolving (s : State W A) : Prop where
  queued : ∀ j, s.job j = some .queued → j ∈ s.queue ∨ (∃ w, s.worker w = .claim j) → Waits s j
  calling : ∀ w j, s.worker w = .calling j → Waits s j
  current : ∀ j, s.pc.settled = true → s.pc.current = some j → s.job j = some .queued → s.resolved = false
  submitted : ∀ j, s.pc = .submit (.block j) → s.job j ≠ some .queued → s.resolved = true
  aborted : ∀ j, s.job j ≠ some .queued → j ∈ s.queue ∨ (∃ w, s.worker w = .claim j) → s.pc.current = some j →
    s.resolved = true
  served : ∀ w j, (s.worker w).served = true → (s.worker w).job = some j → s.pc.current = some j →
    s.resolved = true
  unlinked : ∀ w j, s.worker w = .release j .close → w ∈ s.unlinked ∧ s.resolved = true

/-- Who has to wake the task. -/
structure Owing (s : State W A) : Prop where
  starting : s.pc.starting = true → s.unlinked = [] ∧ s.duty = none ∧ s.word = .unarmed ∧ s.nodeLive = true
  owed : s.pc.settled = true → s.resolved = false → s.duty = none
  fresh : s.pc.waiting = true → s.resolved = false →
    s.nodeLive = true ∧ ((∃ k, s.pc = .parked k) ∧ s.word = .armed ∨ s.word = .unarmed)
  armed : s.word = .armed → ∃ k, s.pc = .parked k
  worker : ∀ w j phase, s.worker w = .wake j phase → s.duty = some (.inl w)
  agent : ∀ a, (s.agent a).owes = true → s.duty = some (.inr a)
  woken : ∀ w j phase, s.worker w = .wake j phase → phase ≠ .prepare →
    s.resolved = true ∧ s.word = .completedQueued ∧ ∃ k, s.pc = .parked k
  called : ∀ a phase, s.agent a = .wake phase → phase ≠ .prepare →
    s.resolved = true ∧ s.word = .completedQueued ∧ ∃ k, s.pc = .parked k

structure Inv (s : State W A) : Prop where
  jobs : Jobs s
  gated : Gated s
  resolving : Resolving s
  owing : Owing s

theorem init_inv : Inv (State.init : State W A) := by
  refine ⟨?_, ?_, ?_, ?_⟩ <;> constructor <;>
    simp [State.init, WorkerPc.job, Pc.holds, Pc.current, Pc.starting, Pc.opened, Pc.settled, Pc.waiting, Gate.init,
      AgentPc.owes, AgentPc.holds, WorkerPc.served]

variable {s s' : State W A}

variable {w : W} {a : A} {kind : Kind} {fails acts : Bool}

theorem Jobs.not_starting (hj : Jobs s) {j : Nat} (hw : (s.worker w).job = some j)
    (ha : s.activeJob = some j) : s.pc.starting = false := by
  have hcurrent := hj.active j ha
  have hmine := hj.mine j
  cases hpc : s.pc <;> grind -ring -linarith -lia

/-- A party inside the gate that finds a job finds a published wait. -/
theorem Gated.settled (hj : Jobs s) (hg : Gated s) {j : Nat} (hin : s.agent a = .inside)
    (ha : s.activeJob = some j) : s.pc.starting = false ∧ s.pc.settled = true := by
  have hcurrent := hj.active j ha
  have hmem : a ∈ s.gate.holders := by
    rw [hg.inside, hin]
    rfl
  have hdrained := hg.drained
  cases hpc : s.pc <;> grind -ring -linarith -lia

/-! ## Steps of the task -/

theorem Inv.of_begin (hi : Inv s) (hu : s.unlinked = []) (hd : s.duty = none) (hs : begin s kind = some s') : Inv s' := by
  obtain ⟨⟨hnodup, hapart, hunique, hmine, hpooled, hprepared, hcalling, hactive⟩,
    ⟨hclosed, hinside, hdrained, hpending⟩, ⟨hqueued, hcalled, hcurrent, hsubmitted, haborted, hserved, hunlinked⟩,
    ⟨hstart, howed, hfresh, harmed, hworker, hagent, hwoken, hwoke⟩⟩ := hi
  simp only [begin] at hs
  repeat' split at hs
  all_goals cases hs
  all_goals constructor <;> constructor
  all_goals first | assumption | grind -ring -linarith -lia

theorem Jobs.of_task (hj : Jobs s) (hs : taskStep s fails = some s') : Jobs s' := by
  obtain ⟨hnodup, hapart, hunique, hmine, hpooled, hprepared, hcalling, hactive⟩ := hj
  simp only [taskStep, releaseStep] at hs
  repeat' split at hs
  all_goals cases hs
  all_goals constructor
  all_goals first | assumption | grind -ring -linarith -lia

theorem Gated.of_task (hg : Gated s) (hs : taskStep s fails = some s') : Gated s' := by
  obtain ⟨hclosed, hinside, hdrained, hpending⟩ := hg
  simp only [taskStep, releaseStep] at hs
  repeat' split at hs
  all_goals cases hs
  all_goals constructor
  all_goals first | assumption | grind -ring -linarith -lia [Gate.drained_iff, Gate.close, Gate.publish, Gate.finish]

theorem Resolving.of_task (hj : Jobs s) (hr : Resolving s) (ho : Owing s)
    (hs : taskStep s fails = some s') : Resolving s' := by
  obtain ⟨_, hapart, _, hmine, _, hprepared, _, _⟩ := hj
  have hstart := ho.starting
  have hfresh := ho.fresh
  obtain ⟨hqueued, hcalled, hcurrent, hsubmitted, haborted, hserved, hunlinked⟩ := hr
  simp only [taskStep, releaseStep] at hs
  repeat' split at hs
  all_goals cases hs
  all_goals constructor
  all_goals first | assumption | grind -ring -linarith -lia

theorem Owing.of_task (ho : Owing s) (hs : taskStep s fails = some s') : Owing s' := by
  obtain ⟨hstart, howed, hfresh, harmed, hworker, hagent, hwoken, hwoke⟩ := ho
  simp only [taskStep, releaseStep] at hs
  repeat' split at hs
  all_goals cases hs
  all_goals constructor
  all_goals first | assumption | grind -ring -linarith -lia

/-! ## Steps of the workers -/

theorem Jobs.of_worker (hj : Jobs s) (hs : workerStep s w fails = some s') : Jobs s' := by
  obtain ⟨hnodup, hapart, hunique, hmine, hpooled, hprepared, hcalling, hactive⟩ := hj
  simp only [workerStep, wakeStep, releaseStep, complete, setWorker] at hs
  repeat' split at hs
  all_goals cases hs
  all_goals constructor
  all_goals first | assumption | grind -ring -linarith -lia

theorem Gated.of_worker (hg : Gated s) (hr : Resolving s) (ho : Owing s)
    (hs : workerStep s w fails = some s') : Gated s' := by
  have hunlinked := hr.unlinked w
  have hwoken := ho.woken w
  obtain ⟨hclosed, hinside, hdrained, hpending⟩ := hg
  simp only [workerStep, wakeStep, releaseStep, complete, setWorker] at hs
  repeat' split at hs
  all_goals cases hs
  all_goals constructor
  all_goals first | assumption | grind -ring -linarith -lia [Gate.drained_iff, Gate.close, Gate.publish, Gate.finish]

theorem Resolving.of_worker (hj : Jobs s) (hr : Resolving s) (ho : Owing s)
    (hs : workerStep s w fails = some s') : Resolving s' := by
  obtain ⟨_, hapart, hunique, hmine, _, _, hcalling, hactive⟩ := hj
  have hwoken := ho.woken w
  obtain ⟨hqueued, hcalled, hcurrent, hsubmitted, haborted, hserved, hunlinked⟩ := hr
  simp only [workerStep, wakeStep, releaseStep, complete, setWorker] at hs
  repeat' split at hs
  all_goals cases hs
  all_goals constructor
  all_goals first | assumption | grind -ring -linarith -lia

theorem Owing.of_worker (hj : Jobs s) (hr : Resolving s) (ho : Owing s)
    (hs : workerStep s w fails = some s') : Owing s' := by
  have hstarting : ∀ j, (s.worker w).job = some j → s.activeJob = some j → s.pc.starting = false :=
    fun _ => hj.not_starting
  have hcalled := hr.calling w
  obtain ⟨hstart, howed, hfresh, harmed, hworker, hagent, hwoken, hwoke⟩ := ho
  simp only [workerStep, wakeStep, releaseStep, complete, setWorker] at hs
  repeat' split at hs
  all_goals cases hs
  all_goals constructor
  all_goals first | assumption | grind -ring -linarith -lia

/-! ## Steps of the others -/

theorem Jobs.of_agent (hj : Jobs s) (hg : Gated s) (hs : agentStep s a acts = some s') : Jobs s' := by
  have hsettled : ∀ j, s.agent a = .inside → s.activeJob = some j → s.pc.starting = false ∧ s.pc.settled = true :=
    fun _ => hg.settled hj
  obtain ⟨hnodup, hapart, hunique, hmine, hpooled, hprepared, hcalling, hactive⟩ := hj
  simp only [agentStep, wakeStep, resolve, setAgent] at hs
  repeat' split at hs
  all_goals cases hs
  all_goals constructor
  all_goals first | assumption | grind -ring -linarith -lia

theorem Gated.of_agent (hg : Gated s) (ho : Owing s) (hs : agentStep s a acts = some s') : Gated s' := by
  have hwoke := ho.called a
  obtain ⟨hclosed, hinside, hdrained, hpending⟩ := hg
  simp only [agentStep, wakeStep, resolve, setAgent] at hs
  repeat' split at hs
  all_goals cases hs
  all_goals constructor
  all_goals first | assumption | grind -ring -linarith -lia [Gate.drained_iff, Gate.close, Gate.publish, Gate.finish]

theorem Resolving.of_agent (hj : Jobs s) (hg : Gated s) (hr : Resolving s) (ho : Owing s)
    (hs : agentStep s a acts = some s') : Resolving s' := by
  have hsettled : ∀ j, s.agent a = .inside → s.activeJob = some j → s.pc.starting = false ∧ s.pc.settled = true :=
    fun _ => hg.settled hj
  obtain ⟨_, hapart, _, hmine, _, _, _, hactive⟩ := hj
  have hwoke := ho.called a
  obtain ⟨hqueued, hcalled, hcurrent, hsubmitted, haborted, hserved, hunlinked⟩ := hr
  simp only [agentStep, wakeStep, resolve, setAgent] at hs
  repeat' split at hs
  all_goals cases hs
  all_goals constructor
  all_goals first | assumption | grind -ring -linarith -lia

theorem Owing.of_agent (hj : Jobs s) (hg : Gated s) (hr : Resolving s) (ho : Owing s)
    (hs : agentStep s a acts = some s') : Owing s' := by
  have hsettled : ∀ j, s.agent a = .inside → s.activeJob = some j → s.pc.starting = false ∧ s.pc.settled = true :=
    fun _ => hg.settled hj
  have hactive := hj.active
  have hcurrent := hr.current
  obtain ⟨hstart, howed, hfresh, harmed, hworker, hagent, hwoken, hwoke⟩ := ho
  simp only [agentStep, wakeStep, resolve, setAgent] at hs
  repeat' split at hs
  all_goals cases hs
  all_goals constructor
  all_goals first | assumption | grind -ring -linarith -lia

theorem Inv.of_enter (hi : Inv s) (hs : enter s a = some s') : Inv s' := by
  obtain ⟨hj, ⟨hclosed, hinside, hdrained, hpending⟩, hr, ho⟩ := hi
  simp only [enter] at hs
  split at hs
  · obtain ⟨gate, hgate, rfl⟩ := Option.map_eq_some_iff.mp hs
    have hopen : s.gate.closed = false ∧ gate.closed = false := by
      unfold Gate.tryBegin at hgate
      split at hgate
      · contradiction
      cases hgate
      rename_i hout
      exact ⟨by simpa using (not_or.mp hout).1, rfl⟩
    have hholders := Gate.tryBegin_holders hgate
    refine ⟨{ hj with }, ?_, { hr with }, ?_⟩
    · dsimp only [setAgent]
      constructor <;> grind -ring -linarith -lia
    · obtain ⟨hstart, howed, hfresh, harmed, hworker, hagent, hwoken, hwoke⟩ := ho
      dsimp only [setAgent]
      constructor <;> first | assumption | grind -ring -linarith -lia
  · contradiction

theorem Inv.of_remove (hi : Inv s) (hs : remove s a = some s') : Inv s' := by
  obtain ⟨hj, ⟨hclosed, hinside, hdrained, hpending⟩, hr, ho⟩ := hi
  simp only [remove, setAgent] at hs
  split at hs
  · split at hs
    · cases hs
      refine ⟨{ hj with }, ?_, ?_, ?_⟩
      · constructor <;> first | assumption | grind -ring -linarith -lia
      · obtain ⟨hqueued, hcalled, hcurrent, hsubmitted, haborted, hserved, hunlinked⟩ := hr
        constructor <;> first | assumption | grind -ring -linarith -lia
      · obtain ⟨hstart, howed, hfresh, harmed, hworker, hagent, hwoken, hwoke⟩ := ho
        constructor <;> first | assumption | grind -ring -linarith -lia
    · contradiction
  · contradiction

/-! ## The system -/

/-- **Step**: a step that starts no wait too early keeps the invariant. -/
theorem inv_step {act : Action W A} (hi : Inv s) (hq : quiet s act = true) (hs : step s act = some s') : Inv s' := by
  have hinv := hi
  obtain ⟨hj, hg, hr, ho⟩ := hi
  cases act with
  | begin kind =>
    obtain ⟨hu, hd⟩ : s.unlinked = [] ∧ s.duty = none := by simpa [quiet] using hq
    exact hinv.of_begin hu hd hs
  | task fails => exact ⟨hj.of_task hs, hg.of_task hs, hr.of_task hj ho hs, ho.of_task hs⟩
  | worker w fails =>
    exact ⟨hj.of_worker hs, hg.of_worker hr ho hs, hr.of_worker hj ho hs, ho.of_worker hj hr hs⟩
  | enter a => exact hinv.of_enter hs
  | agent a acts =>
    exact ⟨hj.of_agent hg hs, hg.of_agent ho hs, hr.of_agent hj hg ho hs, ho.of_agent hj hg hr hs⟩
  | remove a => exact hinv.of_remove hs

theorem reachable_inv (h : Reachable (guarded quiet step) State.init s) : Inv s :=
  h.induction init_inv fun _ _ _ hi hs => inv_step hi (guarded_some.mp hs).1 (guarded_some.mp hs).2

/-- Somebody other than the task closes the gate only of a wait that was resolved. -/
theorem closes_resolved {act : Action W A} (hi : Inv s) (hs : step s act = some s') (hopen : s.gate.closed = false)
    (hclosed : s'.gate.closed = true) : (∃ fails, act = .task fails) ∨ s.resolved = true := by
  cases act with
  | begin kind =>
    simp only [step, begin] at hs
    grind -ring -linarith -lia
  | task fails => exact .inl ⟨fails, rfl⟩
  | worker w fails =>
    have hunlinked := hi.resolving.unlinked w
    have hwoken := hi.owing.woken w
    simp only [step, workerStep, wakeStep, releaseStep, complete, setWorker] at hs
    grind -ring -linarith -lia
  | enter a =>
    simp only [step, enter, setAgent, Gate.tryBegin] at hs
    grind -ring -linarith -lia
  | agent a acts =>
    have hwoke := hi.owing.called a
    simp only [step, agentStep, wakeStep, resolve, setAgent, Gate.finish] at hs
    grind -ring -linarith -lia
  | remove a =>
    simp only [step, remove, setAgent] at hs
    grind -ring -linarith -lia

/-- **Gates of successive waits**: if the task starts a wait only when everybody is done with its earlier ones, the gate
of a wait nobody has resolved is open, so that nobody is refused, and only the task closes it. -/
theorem pending_gate_open (s : State W A) (h : Reachable (guarded quiet step) State.init s) :
    (s.pending = true → s.gate.closed = false ∧ ∀ a, s.agent a = .idle → (enter s a).isSome = true) ∧
      ∀ act s', step s act = some s' → s.gate.closed = false → s'.gate.closed = true →
        (∃ fails, act = .task fails) ∨ s.resolved = true := by
  have hi := reachable_inv h
  refine ⟨?_, fun _ _ => closes_resolved hi⟩
  intro hp
  obtain ⟨hwaiting, hresolved⟩ : s.pc.waiting = true ∧ s.resolved = false := by simpa [State.pending] using hp
  have hopen := hi.gated.pending hwaiting hresolved
  refine ⟨hopen, ?_⟩
  intro a ha
  have hout : a ∉ s.gate.holders := by simp [hi.gated.inside, ha, AgentPc.holds]
  simp [enter, ha, Gate.tryBegin, hopen, hout]

/-- A blocking call, then another wait that is pending when the worker has recycled the job. -/
theorem pending_gate_open_two : ∃ s : State Unit Unit, Reachable (guarded quiet step) State.init s ∧
    s.pending = true ∧ s.gate.closed = false ∧ (enter s ()).isSome = true := by
  obtain ⟨s, hr, hs⟩ := exists_reachable (guarded quiet step) (State.init : State Unit Unit)
    (fun s => (s.pending, s.agent ())) (b := (true, .idle))
    ([.begin (.block 0)] ++ List.replicate 5 (.task false) ++ List.replicate 9 (.worker () false) ++
      List.replicate 2 (.task false) ++ [.begin .other] ++ List.replicate 5 (.task false)) (by decide +kernel)
  obtain ⟨hp, ha⟩ := Prod.mk.inj hs
  obtain ⟨hopen, henter⟩ := (pending_gate_open s hr).1 hp
  exact ⟨s, hr, hp, hopen, henter () ha⟩

/-- The task has left the wait of a job that its worker has unlinked and waits again when the worker closes the gate. -/
theorem earlier_job_closes_gate :
    ¬ ∀ s : State Unit Unit, Reachable step State.init s → s.pending = true → s.gate.closed = false := by
  intro hall
  obtain ⟨s, hr, hs⟩ := exists_reachable step (State.init : State Unit Unit)
    (fun s => (s.pending, s.gate.closed)) (b := (true, true))
    ([.begin (.block 0)] ++ List.replicate 4 (.task false) ++ List.replicate 5 (.worker () false) ++
      List.replicate 3 (.task false) ++ [.begin .other] ++ List.replicate 5 (.task false) ++ [.worker () false])
    (by decide +kernel)
  obtain ⟨hp, hc⟩ := Prod.mk.inj hs
  rw [hall s hr hp] at hc
  contradiction

end Llam.Wait.Successive
