import Llam.Broker.Operations

/-!
# The tasks of the broker, reclaim and rollback

`llam_broker_spawn_task` is not one section: the slot is reserved under the lock, the token is issued under the lock
again, and then the command is computed, or a sleep is started as a task of the runtime, without the lock. The task runs
`llam_broker_task_trampoline`, which writes its result to the slot.
-/

namespace Llam.Broker

/-- `LLAM_BROKER_TASKS_PER_SUBJECT`, `LLAM_BROKER_LONG_SLEEP_TASKS_MAX` and `LLAM_BROKER_SLEEP_MAX_NS` -/
def tasksPerSubject : Nat := 16
def longSleepTasksMax : Nat := 16
def sleepMaxNs : UInt64 := 60 * 1000 * 1000 * 1000

/-- `llam_broker_task_kind_valid` -/
def TaskKind.ofCode (code : UInt32) : Option TaskKind :=
  if code = 1 then some .RETURN_U64
  else if code = 2 then some .INCREMENT_U64
  else if code = 3 then some .POPCOUNT_U64
  else if code = 4 then some .SLEEP_NS_RETURN_U64
  else none

/-- The loop of `llam_broker_popcount_u64`; a word has at most 64 bits. -/
def popcountLoop : Nat → UInt64 → UInt64 → UInt64
  | 0, _, count => count
  | n + 1, value, count => if value = 0 then count else popcountLoop n (value >>> 1) (count + (value &&& 1))

def popcount (value : UInt64) : UInt64 := popcountLoop 64 value 0

/-- `llam_broker_task_compute`: the result and the error of a command; a sleep fails if `llam_sleep_ns` does. -/
def taskCompute (kind : TaskKind) (arg0 : UInt64) (slept : Option Errno) : UInt64 × Option Errno :=
  match kind with
  | .RETURN_U64 => (arg0, none)
  | .INCREMENT_U64 => (arg0 + 1, none)
  | .POPCOUNT_U64 => (popcount arg0, none)
  | .SLEEP_NS_RETURN_U64 =>
    match slept with
    | none => (arg0, none)
    | some e => (0, some e)

/-- A sleep that has not ended. -/
def Slot.pendingSleep (s : Slot Task) : Bool :=
  s.active && s.body.kind == some .SLEEP_NS_RETURN_U64 && (s.body.state == .SPAWNED || s.body.state == .DETACHED)

/-- What is left of a task slot that is taken from its owner: a live command stays for its trampoline. -/
def Slot.abandoned (s : Slot Task) : Slot Task :=
  if s.body.state = .SPAWNED ∨ s.body.state = .DETACHED then
    { s with rights := ⊥, body := { s.body with state := .DETACHED } }
  else .cleared .TASK

/-- The same for the token of a response that was not delivered, which looks at a live or completed command only. -/
def Slot.withdrawn (s : Slot Task) : Slot Task :=
  match s.body.state with
  | .SPAWNED | .COMPLETED => s.abandoned
  | _ => s

/-- What `llam_broker_reclaim_subject_*` does to a slot of the subject -/
def Slot.reclaimed : (f : Family) → Slot (Body f) → Slot (Body f)
  | .TASK, s => s.abandoned
  | f, _ => .cleared f

namespace Control

variable (b : Control)

variable (i : Fin slotCount) (subject : UInt64) (load : Nat → UInt64)

/-- `llam_broker_find_task` -/
def findTask (epoch : UInt64) (t : Token) (required : Rights) : Except Errno (Fin slotCount) :=
  b.findObject .TASK subject epoch t required

/-- `llam_broker_has_pending_sleep_task_locked` -/
def hasPendingSleepTask : Bool := (List.finRange slotCount).any fun i => (b.tasks i).pendingSleep

/-- `llam_broker_long_sleep_task_count_locked` -/
def longSleepTaskCount : Nat := (List.finRange slotCount).countP fun i => (b.tasks i).pendingSleep

/-- `llam_broker_subject_task_count_locked` -/
def subjectTaskCount : Nat :=
  if subject = 0 then 0
  else (List.finRange slotCount).countP fun i => (b.tasks i).active && (b.tasks i).subjectId == subject

/-! ## Spawning -/

/-- `llam_broker_spawn_task` up to the end of its first section -/
def spawnReserve (code : UInt32) (arg0 : UInt64) (rights : Rights) (env : Env) :
    Except Errno (TaskKind × Fin slotCount) :=
  if rights = ⊥ then .error .EINVAL
  else
    match validateObjectRights .TASK rights, TaskKind.ofCode code with
    | .error e, _ => .error e
    | .ok (), none => .error .EINVAL
    | .ok (), some kind =>
      if kind = .SLEEP_NS_RETURN_U64 ∧ sleepMaxNs < arg0 then .error .EINVAL
      else
        match env.refused with
        | some e => .error e
        | none =>
          if kind = .SLEEP_NS_RETURN_U64 ∧ longSleepTasksMax ≤ b.longSleepTaskCount then .error .ENOSPC
          else if subject ≠ 0 ∧ tasksPerSubject ≤ b.subjectTaskCount subject then .error .ENOSPC
          else
            match b.first .TASK fun s => !s.active with
            | none => .error .ENOSPC
            | some i =>
              match validateNextObjectId (b.next .TASK) with
              | .error e => .error e
              | .ok () => .ok (kind, i)

/-- The slot of a command that was reserved. -/
def reserved (kind : TaskKind) (arg0 : UInt64) (rights : Rights) : Control :=
  b.allot .TASK i subject rights (⟨none, .SPAWNED, some kind, arg0, 0, none⟩ : Task)

/-- The token of the slot, in a section of its own. -/
def spawnIssue (rights : Rights) (env : Env) : Except Errno Token :=
  match env.refused with
  | some e => .error e
  | none =>
    b.issueObjectCap .TASK subject (load 0) (b.slots .TASK i).id (b.slots .TASK i).generation rights env.entropy

/-- A result is written to the slot. -/
def setResult (r : UInt64 × Option Errno) : Control :=
  b.setBody .TASK i ({ (b.tasks i).body with result0 := r.1, errorCode := r.2 } : Task)

def setTaskState (state : TaskState) : Control :=
  b.setBody .TASK i ({ (b.tasks i).body with state := state } : Task)

def setTask (task : Nat) : Control :=
  b.setBody .TASK i ({ (b.tasks i).body with task := some task } : Task)

/-- A live command is left to its trampoline: it is `DETACHED` and gives no rights. -/
def detachSlot : Control :=
  b.setSlot .TASK i { b.slots .TASK i with
    rights := ⊥
    body := ({ (b.tasks i).body with state := .DETACHED } : Task) }

/-! ## Joining -/

/-- `llam_broker_task_join_runtime_drive_allowed` -/
def driveAllowed (t : Token) (env : Env) : Outcome :=
  match env.refused, b.findTask subject (load 0) t .JOIN with
  | some e, _ => .fail e
  | none, .error e => .fail e
  | none, .ok i =>
    let x := (b.tasks i).body
    .done (if x.state ≠ .SPAWNED ∨ (x.kind ≠ some .SLEEP_NS_RETURN_U64 ∧ !b.hasPendingSleepTask) then 1 else 0)

/-- `llam_broker_join_task`: the slot is free before the runtime's task is joined -/
def joinTask (t : Token) (env : Env) : Control × Outcome :=
  match env.refused, b.findTask subject (load 0) t .JOIN with
  | some e, _ => (b, .fail e)
  | none, .error e => (b, .fail e)
  | none, .ok i =>
    let x := (b.tasks i).body
    if x.state = .SPAWNED then (b, .fail .EAGAIN)
    else if x.state ≠ .COMPLETED then (b, .fail .EINVAL)
    else
      (b.clearSlot .TASK i,
        match x.task, env.taskCall, x.errorCode with
        | some _, some e, _ => .fail e
        | _, _, some e => .fail e
        | _, _, none => .done x.result0)

/-- `llam_broker_detach_task` -/
def detachTask (t : Token) (env : Env) : Control × Outcome :=
  match env.refused, b.findTask subject (load 0) t .DETACH with
  | some e, _ => (b, .fail e)
  | none, .error e => (b, .fail e)
  | none, .ok i =>
    let x := (b.tasks i).body
    match x.state with
    | .COMPLETED =>
      (b.clearSlot .TASK i,
        match x.task, env.taskCall with
        | some _, some e => .fail e
        | _, _ => .done 0)
    | .SPAWNED => if x.task = none then (b, .fail .EINVAL) else (b.detachSlot i, .done 0)
    | _ => (b, .fail .EINVAL)

/-! ## Reclaim and rollback -/

/-- `llam_broker_reclaim_subject_buffers`, `_descriptors`, `_channels` and `_tasks` -/
def reclaimSubject (f : Family) (subject : UInt64) : Control :=
  if subject = 0 then b
  else
    { b with slots := Function.update b.slots f fun i =>
        if (b.slots f i).active && (b.slots f i).subjectId == subject then Slot.reclaimed f (b.slots f i) else b.slots f i }

/-- What `llam_broker_rollback_response_token_locked` does to the slot of the token -/
def rolledBack : (f : Family) → Slot (Body f) → Slot (Body f)
  | .TASK, s => s.withdrawn
  | f, _ => .cleared f

/-- `llam_broker_rollback_response_token_locked` -/
def rollbackToken (t : Token) : Control :=
  match Family.ofCode t.family with
  | none => b
  | some f =>
    match b.first f fun s => s.named t with
    | none => b
    | some i => b.setSlot f i (rolledBack f (b.slots f i))

end Control

end Llam.Broker
