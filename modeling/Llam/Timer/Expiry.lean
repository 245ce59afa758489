import Llam.Timer.Rehome

/-!
# Firing expired timers

`llam_fire_expired_timers` of `core/time/timer.c`. A pass over a shard samples the clock and pops the due timers in one
section under the shard's lock. It then takes the popped timers one after another: a timer of a sleep of this shard is put
aside, every other timer is given to `llam_timeout_task_wait`. The sleepers are woken in a second section, and their
timers are released last.

Any number of passes run at the same time, and between any two of their steps tasks park with and without a timer, are
woken by others, and have their timers removed by cancellation. A wait is published with its timer in one step. A task
that sleeps is woken by its timer alone, or by the cancellation that has removed the timer from the heap.
-/

namespace Llam.Timer

open Llam.Lib Function

/-! ## Passes -/

/-- Where a pass is. `checked`, `reasoned` and `acting` are inside `llam_timeout_task_wait`. -/
inductive Stage
  | idle
  /-- At the head of the loop over the popped timers. -/
  | next
  /-- The generation matched and the task was parked. -/
  | checked (timer : Ptr)
  /-- The wait reason was read. -/
  | reasoned (timer : Ptr) (reason : WaitReason)
  /-- The generation matched again. -/
  | acting (timer : Ptr) (reason : WaitReason)
  /-- `llam_timeout_task_wait` has returned. -/
  | returned (timer : Ptr)
  /-- In the section of the sleepers, with those that are left. -/
  | waking (rest : List Ptr)
  /-- Releasing the timers of the sleepers. -/
  | releasing
  deriving DecidableEq

/-- A timer that was popped, with its fields at that time. -/
structure Popped where
  timer : Ptr
  deadline : UInt64
  generation : UInt64
  deriving DecidableEq

/-- The locals of a pass, and as history: the armed timers when it sampled the clock and the time, whether a reference to
a task was refused, the popped timers, those that were handed to timeout resolution, those that ended a wait with the
generation of that wait, and the nodes that were armed since. -/
structure Pass where
  stage : Stage
  expired : List Ptr
  sleepers : List Ptr
  count : UInt32
  before : List Ptr
  now : UInt64
  refused : Bool
  popped : List Popped
  handed : List Ptr
  ended : List (Ptr × UInt64)
  since : List Ptr
  deriving DecidableEq

def Pass.init : Pass := ⟨.idle, [], [], 0, [], 0, false, [], [], [], []⟩

/-- The timer that is in `llam_timeout_task_wait`. -/
def Stage.current : Stage → List Ptr
  | .checked x | .reasoned x _ | .acting x _ | .returned x => [x]
  | _ => []

/-- The timers that a pass holds: they are not in the heap, and not with the allocator. -/
def Pass.flight (x : Pass) : List Ptr := x.stage.current ++ x.expired ++ x.sleepers

/-- A shard with its passes. As history it has the nodes that the allocator has handed out, and what a pass has added to
`timer_callbacks_active` and not subtracted. -/
structure Shard (P : Type) where
  id : Nat
  mem : Memory
  proc : Processor
  callbacks : UInt32
  pass : P → Pass
  held : List Ptr
  net : P → UInt32

/-! ## The first section -/

variable (m : Memory) (timer : Ptr)

/-- `llam_task_scan_ref_try_acquire`, which refuses at saturation -/
def Memory.scanRefTryAcquire (task : Ptr) : Option Memory :=
  if (m.task task).scanRefs = uintMax then none
  else some (m.setTask task { m.task task with scanRefs := (m.task task).scanRefs + 1 })

/-- The reference that a popped timer has to its task. -/
def Memory.pinTimer : Option Memory :=
  if (m.node timer).task = NULL then some m else m.scanRefTryAcquire (m.node timer).task

/-- The task has no timer any more. -/
def Memory.forgetTimer (task : Ptr) : Memory :=
  m.setTask task { m.task task with activeTimer := NULL, deadlineNs := 0, activeTimerHeapShard := none }

/-- What a pop does to the task of the timer. -/
def Memory.detach : Memory :=
  if (m.node timer).task ≠ NULL ∧ (m.task (m.node timer).task).activeTimer = timer then
    m.forgetTimer (m.node timer).task
  else m

/-- The loop that pops the due timers, at most `n`, and whether it ended since a reference was refused. -/
def popDue (now : UInt64) : Nat → Memory → Processor → Memory × Processor × List Ptr × Bool
  | 0, m, p => (m, p, [], false)
  | n + 1, m, p =>
    if p.timers = NULL ∨ ¬ m.deadline p.timers ≤ now then (m, p, [], false)
    else
      match m.pinTimer p.timers with
      | none => (m, p, [], true)
      | some m =>
        let r := popMinLocked m p
        let r' := popDue now n (r.1.detach r.2.2) r.2.1
        (r'.1, r'.2.1, r.2.2 :: r'.2.2.1, r'.2.2.2)

/-! ## Resolution -/

/-- `llam_timer_wait_generation_matches` -/
def Memory.generationMatches : Bool :=
  (m.node timer).task ≠ NULL ∧ (m.node timer).waitGeneration ≠ 0 ∧ (m.node timer).waitGeneration ≠ noGeneration ∧
    (m.task (m.node timer).task).waitGeneration = (m.node timer).waitGeneration

/-- The timer is for a sleep of this shard. -/
def Memory.sleepsOn (shard : Nat) (timer : Ptr) : Bool :=
  m.generationMatches timer ∧ (m.task (m.node timer).task).waitReason = .SLEEP ∧
    (m.task (m.node timer).task).parkedShard = shard

/-- The wait of a task is over. -/
def Memory.endWait (task : Ptr) : Memory := m.setTask task { m.task task with state := .RUNNABLE }

/-- `llam_task_clear_wait_tracking` as far as the generation goes -/
def Memory.clearWait (task : Ptr) : Memory :=
  m.setTask task { m.task task with waitGeneration := (m.task task).waitGeneration + 1 }

/-- `llam_timer_release_ownership`: the node goes back to the allocator; a popped timer has a reference to its task -/
def Memory.release (holdsTaskRef : Bool) : Memory :=
  let task := (m.node timer).task
  let m := { m with node := update m.node timer { m.node timer with task := NULL } }
  if holdsTaskRef ∧ task ≠ NULL then m.setTask task { m.task task with scanRefs := (m.task task).scanRefs - 1 } else m

/-- The waits that a timeout ends under the lock of what the task waits for, after one more look at the generation. -/
def WaitReason.removable : WaitReason → Bool
  | .JOIN | .MUTEX | .COND | .CHANNEL_SEND | .CHANNEL_RECV | .IOWAIT => true
  | _ => false

/-- The end of a timeout: a sleep is woken without another look, and other waits are removed if they are still pending. -/
def Memory.timesOut (reason : WaitReason) : Bool :=
  reason = .SLEEP ∨
    (reason.removable ∧ m.generationMatches timer ∧ (m.task (m.node timer).task).state = .PARKED)

namespace Shard

variable {P : Type} [DecidableEq P] (s : Shard P) (p : P)

def setPass (x : Pass) : Shard P := { s with pass := update s.pass p x }

/-- Move a pass on. -/
def goto (stage : Stage) : Shard P := s.setPass p { s.pass p with stage := stage }

/-- The timer ends the wait of its task. -/
def endBy (timer : Ptr) : Shard P :=
  let task := (s.mem.node timer).task
  { s with mem := s.mem.endWait task }.setPass p
    { s.pass p with ended := (timer, (s.mem.task task).waitGeneration) :: (s.pass p).ended }

/-- A timer is released, with its reference to the task. -/
def release (timer : Ptr) : Shard P := { s with mem := s.mem.release timer true, held := s.held.erase timer }

/-- The end of a pass. -/
def finish : Shard P :=
  { s with
    callbacks := s.callbacks - (s.pass p).count
    net := update s.net p (s.net p - (s.pass p).count) }.goto p .idle

/-- The section that samples the clock. A shard without timers is left alone. -/
def sample (now : UInt64) : Option (Shard P) :=
  if (s.pass p).stage ≠ .idle then none
  else if s.proc.count = 0 ∨ s.proc.timers = NULL then some s
  else
    let r := popDue now s.proc.len s.mem s.proc
    let count := UInt32.ofNat r.2.2.1.length
    some
      { s with
        mem := r.1
        proc := r.2.1
        callbacks := s.callbacks + count
        net := update s.net p (s.net p + count)
        pass := update s.pass p
          ⟨.next, r.2.2.1, [], count, s.proc.armed, now, r.2.2.2,
            r.2.2.1.map fun x => ⟨x, (s.mem.node x).deadlineNs, (s.mem.node x).waitGeneration⟩, [], [], []⟩ }

/-- The next step of a pass. `parked` is what `llam_wait_node_prepare_wake` says of a sleeper. -/
def advance (parked : Bool) : Option (Shard P) :=
  let x := s.pass p
  match x.stage with
  | .idle => none
  | .next =>
    match x.expired with
    | timer :: rest =>
      let x := { x with expired := rest, handed := x.handed ++ [timer] }
      if s.mem.sleepsOn s.id timer then some (s.setPass p { x with sleepers := x.sleepers ++ [timer] })
      else if s.mem.generationMatches timer ∧ (s.mem.task (s.mem.node timer).task).state = .PARKED then
        some (s.setPass p { x with stage := .checked timer })
      else some (s.setPass p { x with stage := .returned timer })
    | [] => if x.sleepers = [] then some (s.finish p) else some (s.goto p (.waking x.sleepers))
  | .checked timer => some (s.goto p (.reasoned timer (s.mem.task (s.mem.node timer).task).waitReason))
  | .reasoned timer reason =>
    if s.mem.generationMatches timer then some (s.goto p (.acting timer reason))
    else some (s.goto p (.returned timer))
  | .acting timer reason =>
    if s.mem.timesOut timer reason then some ((s.endBy p timer).goto p (.returned timer))
    else some (s.goto p (.returned timer))
  | .returned timer => some ((s.goto p .next).release timer)
  | .waking (timer :: rest) =>
    if s.mem.sleepsOn s.id timer then
      let s' := (s.endBy p timer).goto p (.waking rest)
      some (if parked then { s' with mem := s'.mem.clearWait (s.mem.node timer).task } else s')
    else some (s.goto p (.waking rest))
  | .waking [] => some (s.goto p .releasing)
  | .releasing =>
    match x.sleepers with
    | timer :: rest => some ((s.setPass p { x with sleepers := rest }).release timer)
    | [] => some (s.finish p)

/-! ## The others -/

/-- A new wait of a task. -/
def parkTask (task : Ptr) (reason : WaitReason) (parkedShard : Nat) (deadline : UInt64) : Shard P :=
  let t := s.mem.task task
  let waiting : Task :=
    { t with
      state := .PARKED
      waitReason := reason
      waitGeneration := t.waitGeneration + 1
      parkedShard := parkedShard
      deadlineNs := deadline }
  { s with mem := s.mem.setTask task waiting }

/-- The fields of a node that is armed for the wait of a task. -/
def timerFor (t : Task) (task : Ptr) : Node :=
  ⟨t.ownerRuntime, s.id, task, t.activeSelectState, t.activeWaitLifetimeOps, t.deadlineNs, t.waitGeneration⟩

/-- `llam_timer_insert_locked` for the wait of a task, with a node from the allocator -/
def arm (task node : Ptr) (allocated : Bool) : Shard P :=
  if (s.mem.task task).activeTimer ≠ NULL then s
  else
    let m := { s.mem with node := update s.mem.node node (s.timerFor (s.mem.task task) task) }
    let r := pushLocked m s.proc node allocated
    match r.2.2 with
    | none =>
      { s with
        mem := r.1.setTask task { r.1.task task with activeTimer := node, activeTimerHeapShard := some s.id }
        proc := r.2.1
        held := node :: s.held
        pass := fun p => { s.pass p with since := node :: (s.pass p).since } }
    | some _ => { s with mem := r.1.release node false, proc := r.2.1 }

/-- `llam_timer_remove_locked`: the timer of the task is removed; if the task sleeps, its wait was cancelled -/
def cancel (task : Ptr) : Option (Shard P) :=
  let node := (s.mem.task task).activeTimer
  if task = NULL ∨ node = NULL ∨ (s.mem.task task).activeTimerHeapShard ≠ some s.id then none
  else
    let index :=
      if s.mem.heapIndex node < s.proc.len ∧ s.proc.heap (s.mem.heapIndex node) = node then s.mem.heapIndex node
      else s.proc.armed.idxOf node
    if index < s.proc.len then
      let r := removeAtLocked s.mem s.proc index
      let m := (r.1.forgetTimer task).release node false
      let sleeps := (s.mem.task task).state = .PARKED ∧ (s.mem.task task).waitReason = .SLEEP
      some { s with mem := if sleeps then m.endWait task else m, proc := r.2.1, held := s.held.erase node }
    else none

end Shard

/-- The steps of the passes and of everybody else. -/
inductive Move (P : Type)
  | sample (p : P) (now : UInt64)
  | advance (p : P) (parked : Bool)
  /-- A task parks; with a deadline it arms a timer on this shard with a node that is free. -/
  | park (task : Ptr) (reason : WaitReason) (parkedShard : Nat) (timer : Option (Ptr × UInt64 × Bool))
  /-- Somebody ends a wait that is not a sleep. -/
  | wake (task : Ptr)
  /-- A task that is not parked clears its wait tracking. -/
  | clear (task : Ptr)
  | cancel (task : Ptr)
  /-- Others take and drop references to a task. -/
  | scanRefs (task : Ptr) (refs : Nat)

/-- One step. The generation of a task is never advanced beyond its last value. -/
def Shard.move {P : Type} [DecidableEq P] (s : Shard P) : Move P → Option (Shard P)
  | .sample p now => s.sample p now
  | .advance p parked => s.advance p parked
  | .park task reason parkedShard timer =>
    if task = NULL ∨ (s.mem.task task).state = .PARKED ∨ (s.mem.task task).waitGeneration ≥ noGeneration - 1 then none
    else
      match timer with
      | none => some (s.parkTask task reason parkedShard 0)
      | some (node, deadline, allocated) =>
        if node = NULL ∨ node ∈ s.held then none
        else some ((s.parkTask task reason parkedShard deadline).arm task node allocated)
  | .wake task =>
    if (s.mem.task task).state = .PARKED ∧ (s.mem.task task).waitReason ≠ .SLEEP then
      some { s with mem := s.mem.endWait task }
    else none
  | .clear task =>
    if (s.mem.task task).state ≠ .PARKED ∧ (s.mem.task task).waitGeneration ≠ noGeneration then
      some { s with mem := s.mem.clearWait task }
    else none
  | .cancel task => s.cancel task
  | .scanRefs task refs => some { s with mem := s.mem.setTask task { s.mem.task task with scanRefs := refs } }

end Llam.Timer
