import Llam.Lib.Run
import Llam.Broker.Tasks

/-!
# Clients and threads

The broker with its clients: any number of threads perform operations for any subjects, spawn tasks section by section, and
the tasks of the runtime run. Subjects disconnect and are reclaimed, responses are rolled back, and the epoch advances at
any time.

A client may present any token it has invented; that a MAC cannot be forged is the condition that a token with the right
MAC was issued to a client before (`State.unforged`).
-/

namespace Llam.Broker

open Llam.Lib Function

/-- The operations of one section. -/
inductive Op
  | validate (t : Token) (required : Rights)
  | attenuate (t : Token) (subset : Rights)
  | revoke (t : Token) (replacement : Rights)
  | registerBuffer (data : List UInt8) (rights : Rights)
  | readBuffer (t : Token) (offset length : UInt64)
  | writeBuffer (t : Token) (offset : UInt64) (bytes : List UInt8)
  | registerHandle (handle : Int) (rights : Rights) (closeOnDestroy : Bool)
  | readHandle (t : Token) (length : UInt64)
  | writeHandle (t : Token) (bytes : List UInt8)
  | createChannel (capacity : Nat) (rights : Rights)
  | channelSend (t : Token) (bytes : List UInt8)
  | channelRecv (t : Token) (capacity : UInt64)
  | channelClose (t : Token)
  | driveAllowed (t : Token)
  | joinTask (t : Token)
  | detachTask (t : Token)

/-- The token that the operation presents. -/
def Op.presents : Op → Option Token
  | .validate t _ | .attenuate t _ | .revoke t _ | .readBuffer t _ _ | .writeBuffer t _ _ | .readHandle t _
  | .writeHandle t _ | .channelSend t _ | .channelRecv t _ | .channelClose t | .driveAllowed t | .joinTask t
  | .detachTask t => some t
  | .registerBuffer _ _ | .registerHandle _ _ _ | .createChannel _ _ => none

/-- The kind of object that the operation creates, and its rights. -/
def Op.creates : Op → Option (Family × Rights)
  | .registerBuffer _ rights => some (.BUFFER, rights)
  | .registerHandle _ rights _ => some (.DESCRIPTOR, rights)
  | .createChannel _ rights => some (.CHANNEL, rights)
  | _ => none

/-- The kind of object whose contents the operation writes. -/
def Op.writes : Op → Option Family
  | .writeBuffer _ _ _ => some .BUFFER
  | .channelSend _ _ | .channelRecv _ _ | .channelClose _ => some .CHANNEL
  | _ => none

namespace Control

/-- `llam_broker_validate_cap` -/
def validate (b : Control) (subject : UInt64) (load : Nat → UInt64) (t : Token) (required : Rights) (env : Env) : Outcome :=
  match env.refused, b.validateCap subject (load 0) t required with
  | some e, _ => .fail e
  | none, .error e => .fail e
  | none, .ok () => .done 0

/-- An operation for a subject. -/
def perform (b : Control) (subject : UInt64) (load : Nat → UInt64) (o : Op) (env : Env) : Control × Outcome :=
  match o with
  | .validate t required => (b, b.validate subject load t required env)
  | .attenuate t subset => (b, b.attenuateCap subject load t subset env)
  | .revoke t replacement => b.revokeObjectCap subject load t replacement env
  | .registerBuffer data rights => b.registerBuffer subject load data rights env
  | .readBuffer t offset length => (b, b.readBuffer subject load t offset length env)
  | .writeBuffer t offset bytes => b.writeBuffer subject load t offset bytes env
  | .registerHandle handle rights closeOnDestroy => b.registerHandle subject load handle rights closeOnDestroy env
  | .readHandle t length => (b, b.readHandle subject load t length env)
  | .writeHandle t bytes => (b, b.writeHandle subject load t bytes env)
  | .createChannel capacity rights => b.createChannel subject load capacity rights env
  | .channelSend t bytes => b.channelSend subject load t bytes env
  | .channelRecv t capacity => b.channelRecv subject load t capacity env
  | .channelClose t => b.channelClose subject load t env
  | .driveAllowed t => (b, b.driveAllowed subject load t env)
  | .joinTask t => b.joinTask subject load t env
  | .detachTask t => b.detachTask subject load t env

end Control

/-- The epoch after `llam_broker_revoke_all`: 0 is terminal. -/
def nextEpoch (epoch : UInt64) : UInt64 := if epoch = 0 ∨ epoch = wordMax then 0 else epoch + 1

/-- A spawn between its sections: the slot, the command, the token once it is issued and the task once it is started. -/
structure Call where
  index : Fin slotCount
  kind : TaskKind
  arg0 : UInt64
  rights : Rights
  subject : UInt64
  token : Option Token
  task : Option Nat
  deriving DecidableEq

inductive Phase
  | entered | computed | detached
  deriving DecidableEq

/-- A task of the runtime in `llam_broker_task_trampoline`, for the subject that spawned it. -/
structure Fiber where
  index : Fin slotCount
  subject : UInt64
  phase : Phase
  deriving DecidableEq

/-- The broker, the spawns of the `n` threads, the tasks, and the history: all tokens and the rights that the objects were
created with. -/
structure State (n : Nat) where
  control : Control
  calls : Fin n → Option Call
  fibers : List Fiber
  minted : List Token
  created : Family → Nat → Option Rights

def State.init (n : Nat) (runtimeId : UInt64) (key : Key) : State n :=
  ⟨.init runtimeId key, fun _ => none, [], [], fun _ _ => none⟩

/-- What happens next. `overtakes k` is the number of `llam_broker_revoke_all` calls before the `k`-th load of the epoch
and after the one before. -/
inductive Action (n : Nat)
  | op (subject : UInt64) (o : Op) (overtakes : Nat → Nat) (env : Env)
  | spawn (thread : Fin n) (subject : UInt64) (code : UInt32) (arg0 : UInt64) (rights : Rights) (env : Env)
  | issue (thread : Fin n) (overtakes : Nat → Nat) (env : Env)
  | finish (thread : Fin n) (started : Except Errno Nat)
  | store (thread : Fin n)
  | fiber (position : Nat) (slept : Option Errno)
  | revokeAll
  | reclaim (f : Family) (subject : UInt64)
  | rollback (t : Token)

namespace State

variable {n : Nat} (s : State n)

/-- The epoch at the `k`-th load. -/
def load (overtakes : Nat → Nat) (k : Nat) : UInt64 :=
  nextEpoch^[((List.range (k + 1)).map overtakes).sum] s.control.epoch

/-- A client has the token: it was issued, and not in a spawn that has not returned. -/
def known (t : Token) : Bool := decide (t ∈ s.minted) && decide (∀ k, (s.calls k).bind Call.token ≠ some t)

/-- The token is not forged. -/
def unforged (t : Token) : Bool := decide (t.mac ≠ capMac s.control.key t) || s.known t

/-- The history after a section that may have created an object. -/
def record (b : Control) (f : Family) (rights : Rights) : Family → Nat → Option Rights :=
  if b.next f = s.control.next f then s.created
  else update s.created f (update (s.created f) (s.control.next f).toNat (some rights))

def setCall (k : Fin n) (c : Option Call) : State n := { s with calls := update s.calls k c }

/-- The control state after a section, with the epoch after the last load. -/
def after (b : Control) (overtakes : Nat → Nat) : State n := { s with control := { b with epoch := s.load overtakes 2 } }

/-- The history after an operation that leaves the tables `b`. -/
def recorded (o : Op) (b : Control) : Family → Nat → Option Rights :=
  match o.creates with
  | none => s.created
  | some (f, rights) => s.record b f rights

/-- An operation, of which the client gets the token. -/
def performOp (subject : UInt64) (o : Op) (overtakes : Nat → Nat) (env : Env) : State n × Outcome :=
  let r := s.control.perform subject (s.load overtakes) o env
  ({ s.after r.1 overtakes with
    minted := s.minted ++ r.2.token.toList
    created := s.recorded o r.1 }, r.2)

/-- The spawn `c` of a thread goes on: its token is issued, or the slot is given up. -/
def spawnToken (k : Fin n) (c : Call) (overtakes : Nat → Nat) (env : Env) : State n × Option Outcome :=
  match s.control.spawnIssue c.index c.subject (s.load overtakes) c.rights env with
  | .error e => ((s.setCall k none).after (s.control.clearSlot .TASK c.index) overtakes, some (.fail e))
  | .ok t =>
    ({ (s.setCall k (some { c with token := some t })).after s.control overtakes with minted := s.minted ++ [t] }, none)

/-- The command is computed, or a sleep is started as a task of the runtime. -/
def spawnFinish (k : Fin n) (c : Call) (t : Token) (started : Except Errno Nat) : State n × Option Outcome :=
  if c.kind = .SLEEP_NS_RETURN_U64 then
    match started with
    | .error e => ({ s.setCall k none with control := s.control.clearSlot .TASK c.index }, some (.fail e))
    | .ok task =>
      ({ s.setCall k (some { c with task := some task }) with fibers := s.fibers ++ [⟨c.index, c.subject, .entered⟩] },
        none)
  else
    ({ s.setCall k none with
      control := (s.control.setResult c.index (taskCompute c.kind c.arg0 none)).setTaskState c.index .COMPLETED },
      some (.give (.ok t)))

/-- The next part of `llam_broker_task_trampoline`: the command, the end of a live task, the end of a detached task. -/
def fiberStep (p : Nat) (x : Fiber) (slept : Option Errno) : State n :=
  let body := (s.control.tasks x.index).body
  match x.phase with
  | .entered =>
    let r := match body.kind with
      | none => (0, some Errno.EINVAL)
      | some kind => taskCompute kind body.arg0 slept
    { s with control := s.control.setResult x.index r, fibers := s.fibers.set p { x with phase := .computed } }
  | .computed =>
    match body.state with
    | .SPAWNED => { s with control := s.control.setTaskState x.index .COMPLETED, fibers := s.fibers.eraseIdx p }
    | .DETACHED => { s with fibers := s.fibers.set p { x with phase := .detached } }
    | _ => { s with fibers := s.fibers.eraseIdx p }
  | .detached => { s with control := s.control.clearSlot .TASK x.index, fibers := s.fibers.eraseIdx p }

/-- A subject is reclaimed when its transport is closed and none of its ring batches runs, so that no spawn of it is in
progress. -/
def idle (subject : UInt64) : Bool := decide (∀ k c, s.calls k = some c → c.subject ≠ subject)

/-- One step, and what the call that ends with it returns. -/
def exec : Action n → Option (State n × Option Outcome)
  | .op subject o overtakes env =>
    if o.presents.all s.unforged then
      let r := s.performOp subject o overtakes env
      some (r.1, some r.2)
    else none
  | .spawn k subject code arg0 rights env =>
    match s.calls k, s.control.spawnReserve subject code arg0 rights env with
    | some _, _ => none
    | none, .error e => some (s, some (.fail e))
    | none, .ok (kind, i) =>
      let b := s.control.reserved i subject kind arg0 rights
      some ({ s.setCall k (some ⟨i, kind, arg0, rights, subject, none, none⟩) with
        control := b
        created := s.record b .TASK rights }, none)
  | .issue k overtakes env =>
    match s.calls k with
    | some c => if c.token = none then some (s.spawnToken k c overtakes env) else none
    | none => none
  | .finish k started =>
    match s.calls k with
    | some c =>
      match c.token, c.task with
      | some t, none => some (s.spawnFinish k c t started)
      | _, _ => none
    | none => none
  | .store k =>
    match s.calls k with
    | some c =>
      match c.token, c.task with
      | some t, some task =>
        some ({ s.setCall k none with control := s.control.setTask c.index task }, some (.give (.ok t)))
      | _, _ => none
    | none => none
  | .fiber p slept => (s.fibers[p]?).map fun x => (s.fiberStep p x slept, none)
  | .revokeAll =>
    let epoch := nextEpoch s.control.epoch
    some ({ s with control := { s.control with epoch := epoch } },
      some (if epoch = 0 then .fail .EOVERFLOW else .done epoch))
  | .reclaim f subject =>
    if s.idle subject then some ({ s with control := s.control.reclaimSubject f subject }, none) else none
  | .rollback t => if s.known t then some ({ s with control := s.control.rollbackToken t }, none) else none

/-- **What a step can do**: the parts of a call, what they leave and what the call returns. -/
inductive Executes (s : State n) : Action n → State n → Option Outcome → Prop
  | op {subject o overtakes env} (hunforged : o.presents.all s.unforged = true) :
    Executes s (.op subject o overtakes env) (s.performOp subject o overtakes env).1
      (some (s.performOp subject o overtakes env).2)
  | refused {k subject code arg0 rights env e} (hk : s.calls k = none)
    (hreserve : s.control.spawnReserve subject code arg0 rights env = .error e) :
    Executes s (.spawn k subject code arg0 rights env) s (some (.fail e))
  | reserved {k subject code arg0 rights env kind i} (hk : s.calls k = none)
    (hreserve : s.control.spawnReserve subject code arg0 rights env = .ok (kind, i)) :
    Executes s (.spawn k subject code arg0 rights env)
      { s.setCall k (some ⟨i, kind, arg0, rights, subject, none, none⟩) with
        control := s.control.reserved i subject kind arg0 rights
        created := s.record (s.control.reserved i subject kind arg0 rights) .TASK rights } none
  | unissued {k c overtakes env e} (hc : s.calls k = some c) (hnone : c.token = none)
    (hissue : s.control.spawnIssue c.index c.subject (s.load overtakes) c.rights env = .error e) :
    Executes s (.issue k overtakes env) ((s.setCall k none).after (s.control.clearSlot .TASK c.index) overtakes)
      (some (.fail e))
  | issued {k c overtakes env t} (hc : s.calls k = some c) (hnone : c.token = none)
    (hissue : s.control.spawnIssue c.index c.subject (s.load overtakes) c.rights env = .ok t) :
    Executes s (.issue k overtakes env) { (s.setCall k (some { c with token := some t })).after s.control overtakes with
      minted := s.minted ++ [t] } none
  | unstarted {k c t e} (hc : s.calls k = some c) (htoken : c.token = some t) (htask : c.task = none)
    (hkind : c.kind = .SLEEP_NS_RETURN_U64) : Executes s (.finish k (.error e))
      { s.setCall k none with control := s.control.clearSlot .TASK c.index } (some (.fail e))
  | started {k c t task} (hc : s.calls k = some c) (htoken : c.token = some t) (htask : c.task = none)
    (hkind : c.kind = .SLEEP_NS_RETURN_U64) : Executes s (.finish k (.ok task))
      { s.setCall k (some { c with task := some task }) with fibers := s.fibers ++ [⟨c.index, c.subject, .entered⟩] } none
  | computed {k c t started} (hc : s.calls k = some c) (htoken : c.token = some t) (htask : c.task = none)
    (hkind : c.kind ≠ .SLEEP_NS_RETURN_U64) : Executes s (.finish k started)
      { s.setCall k none with
        control := (s.control.setResult c.index (taskCompute c.kind c.arg0 none)).setTaskState c.index .COMPLETED }
      (some (.give (.ok t)))
  | stored {k c t task} (hc : s.calls k = some c) (htoken : c.token = some t) (htask : c.task = some task) :
    Executes s (.store k) { s.setCall k none with control := s.control.setTask c.index task } (some (.give (.ok t)))
  | fiber {p slept x} (hx : s.fibers[p]? = some x) : Executes s (.fiber p slept) (s.fiberStep p x slept) none
  | revokedAll : Executes s .revokeAll { s with control := { s.control with epoch := nextEpoch s.control.epoch } }
      (some (if nextEpoch s.control.epoch = 0 then .fail .EOVERFLOW else .done (nextEpoch s.control.epoch)))
  | reclaimed {f subject} (hidle : s.idle subject = true) :
    Executes s (.reclaim f subject) { s with control := s.control.reclaimSubject f subject } none
  | rolledBack {t} (hknown : s.known t = true) :
    Executes s (.rollback t) { s with control := s.control.rollbackToken t } none

theorem exec_executes {s s' : State n} {a : Action n} {out : Option Outcome} (h : s.exec a = some (s', out)) :
    Executes s a s' out := by
  cases a with
  | op subject o overtakes env =>
    simp only [exec] at h
    split at h <;> cases h
    exact .op ‹_›
  | spawn k subject code arg0 rights env =>
    simp only [exec] at h
    split at h <;> cases h
    · exact .refused ‹_› ‹_›
    · exact .reserved ‹_› ‹_›
  | issue k overtakes env =>
    simp only [exec, spawnToken] at h
    split at h <;> try cases h
    split at h <;> try cases h
    split at h <;> cases h
    · exact .unissued ‹_› ‹_› ‹_›
    · exact .issued ‹_› ‹_› ‹_›
  | finish k started =>
    simp only [exec, spawnFinish] at h
    split at h <;> try cases h
    split at h <;> try cases h
    split at h
    · split at h <;> cases h
      · exact .unstarted ‹_› ‹_› ‹_› ‹_›
      · exact .started ‹_› ‹_› ‹_› ‹_›
    · cases h
      exact .computed ‹_› ‹_› ‹_› ‹_›
  | store k =>
    simp only [exec] at h
    split at h <;> try cases h
    split at h <;> cases h
    exact .stored ‹_› ‹_› ‹_›
  | fiber p slept =>
    obtain ⟨x, hx, heq⟩ := Option.map_eq_some_iff.mp h
    cases heq
    exact .fiber hx
  | revokeAll =>
    cases h
    exact .revokedAll
  | reclaim f subject =>
    simp only [exec] at h
    split at h <;> cases h
    exact .reclaimed ‹_›
  | rollback t =>
    simp only [exec] at h
    split at h <;> cases h
    exact .rolledBack ‹_›

theorem fiberStep_rest (p : Nat) (x : Fiber) (slept : Option Errno) : (s.fiberStep p x slept).calls = s.calls ∧
    (s.fiberStep p x slept).minted = s.minted ∧ (s.fiberStep p x slept).created = s.created := by
  unfold fiberStep
  split
  · exact ⟨rfl, rfl, rfl⟩
  · dsimp only
    split <;> exact ⟨rfl, rfl, rfl⟩
  · exact ⟨rfl, rfl, rfl⟩

end State

/-- One step of the system. -/
def step {n : Nat} (s : State n) (a : Action n) : Option (State n) := (s.exec a).map Prod.fst

/-- The subject for which the broker acts. -/
def Action.subject {n : Nat} (s : State n) : Action n → Option UInt64
  | .op subject _ _ _ | .spawn _ subject _ _ _ _ | .reclaim _ subject => some subject
  | .issue k _ _ | .finish k _ | .store k => (s.calls k).map Call.subject
  | .fiber p _ => (s.fibers[p]?).map Fiber.subject
  | .rollback t => some t.subjectId
  | .revokeAll => none

end Llam.Broker
