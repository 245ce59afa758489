import Llam.Ring.Submission

/-!
# Ring sessions

The table of ring sessions of a broker (`core/broker/ring/`). A session keeps the broker's own cursors of a ring, outside
the memory that it shares with the client: whatever the client writes there, the broker compares with its cursors when it
reserves a batch (`Session.reserveBatch`) and again before it publishes one (`Session.validatePublish`).
-/

namespace Llam.Service

open Llam.Broker Llam.Ring Function

/-- `LLAM_BROKER_RING_SESSIONS` -/
abbrev sessionCount : Nat := 16

/-- `LLAM_BROKER_RING_CAP` and `LLAM_BROKER_RING_MASK` -/
def ringCap : UInt64 := 256
def ringMask : UInt64 := 255

/-- `LLAM_BROKER_RING_SERVE_BATCH_MAX` -/
def serveBatchMax : Nat := 32

/-- `llam_broker_ring_session_t`; `serial` tells one use of a slot from another and is not in the source. -/
structure Session where
  ring : Option Nat
  subjectId : UInt64
  submitHead : UInt64
  completeTail : UInt64
  active : Bool
  busy : Bool
  ownsMapping : Bool
  reclaimPending : Bool
  serial : Nat
  deriving DecidableEq

/-- What `llam_broker_ring_session_take_mapping` leaves -/
def Session.cleared : Session := ⟨none, 0, 0, 0, false, false, false, false, 0⟩

abbrev Sessions := Fin sessionCount → Session

/-- What a section of the broker finds in the shared memory of a ring: the client writes there at any time. -/
structure Shared where
  valid : Bool
  submitHead : UInt64
  submitTail : UInt64
  completeHead : UInt64
  completeTail : UInt64
  submissions : Nat → Submission

/-- The memory of a ring that no client has mapped. -/
def Shared.initial : Shared := ⟨true, 0, 0, 0, 0, fun _ => ⟨0, 0, 0, 0, 0, ⟨0, 0, 0, 0, 0, ⊥, 0, 0, (0, 0), (0, 0)⟩⟩⟩

/-- `llam_broker_ring_window_valid` -/
def windowValid (head tail : UInt64) : Bool := decide (head ≤ tail ∧ tail - head ≤ ringCap)

/-! ## Batches -/

namespace Session

variable (x : Session)

/-- `llam_broker_ring_session_reserve_batch` -/
def reserveBatch (mem : Shared) (max : Nat) : Except Errno (List Submission) :=
  if mem.valid = false ∨ max = 0 then .error .EINVAL
  else if mem.submitHead ≠ x.submitHead then .error .EINVAL
  else if windowValid x.submitHead mem.submitTail = false then .error .EINVAL
  else if mem.submitTail - x.submitHead = 0 then .error .EAGAIN
  else if mem.completeTail ≠ x.completeTail then .error .EINVAL
  else if windowValid mem.completeHead x.completeTail = false then .error .EINVAL
  else if ringCap - (x.completeTail - mem.completeHead) = 0 then .error .EAGAIN
  else
    let space := (ringCap - (x.completeTail - mem.completeHead)).toNat
    let count := min (min (min max serveBatchMax) (mem.submitTail - x.submitHead).toNat) space
    .ok ((List.range count).map fun i => mem.submissions ((x.submitHead + UInt64.ofNat i) &&& ringMask).toNat)

/-- `llam_broker_ring_session_validate_publish_locked` -/
def validatePublish (mem : Shared) (tail : UInt64) : Bool :=
  mem.valid && mem.submitHead == x.submitHead && mem.completeTail == tail

end Session

/-- `llam_broker_ring_authority_safe_batch_count`: a spawn is served alone -/
def authoritySafeBatchCount (submissions : List Submission) : Nat :=
  let i := submissions.findIdx fun sub => RingOp.ofCode sub.op == some .TASK_SPAWN
  if i < submissions.length then (if i = 0 then 1 else i) else submissions.length

/-! ## The table -/

/-- `llam_broker_ring_session_get`: the session of a ring, or a new one -/
def sessionGet (sessions : Sessions) (ring : Nat) (subject : UInt64) (serial : Nat) :
    Except Errno (Sessions × Fin sessionCount) :=
  match (List.finRange sessionCount).find? fun i => (sessions i).active && (sessions i).ring == some ring with
  | some i => if (sessions i).subjectId ≠ subject then .error .EACCES else .ok (sessions, i)
  | none =>
    match (List.finRange sessionCount).find? fun i => !(sessions i).active with
    | none => .error .ENOSPC
    | some i =>
      .ok (update sessions i
        { Session.cleared with ring := some ring, subjectId := subject, active := true, serial := serial }, i)

/-- `llam_broker_ring_register_mapping` -/
def registerMapping (sessions : Sessions) (ring : Nat) (subject : UInt64) (serial : Nat) (refused : Option Errno) :
    Except Errno (Sessions × Fin sessionCount) :=
  match refused, sessionGet sessions ring subject serial with
  | some e, _ => .error e
  | none, .error e => .error e
  | none, .ok (sessions', i) =>
    if (sessions' i).ownsMapping then .error .EBUSY
    else .ok (update sessions' i { sessions' i with ownsMapping := true }, i)

/-- `llam_broker_ring_begin_locked_owned_session` -/
def beginOwnedSession (sessions : Sessions) (id subject : UInt64) (refused : Option Errno) :
    Except Errno (Fin sessionCount) :=
  if h : id.toNat - 1 < sessionCount ∧ id ≠ 0 then
    let x := sessions ⟨id.toNat - 1, h.1⟩
    match refused with
    | some e => .error e
    | none =>
      if !x.active || !x.ownsMapping || x.ring.isNone then .error .EINVAL
      else if x.subjectId ≠ subject then .error .EACCES
      else .ok ⟨id.toNat - 1, h.1⟩
  else .error .EINVAL

/-- `llam_broker_ring_forget_session` -/
def forgetSession (sessions : Sessions) (id subject : UInt64) : Sessions :=
  match beginOwnedSession sessions id subject none with
  | .error _ => sessions
  | .ok i => if (sessions i).busy then sessions else update sessions i .cleared

/-- The session is one of the subject's. -/
def Session.belongs (x : Session) (subject : UInt64) : Bool := x.subjectId == subject && (x.active || x.ownsMapping)

/-- `llam_broker_reclaim_subject_rings`, and whether a batch is still running -/
def reclaimRings (sessions : Sessions) (subject : UInt64) : Sessions × Bool :=
  if subject = 0 then (sessions, false)
  else
    (fun i =>
      if (sessions i).belongs subject then
        if (sessions i).busy then { sessions i with reclaimPending := true } else .cleared
      else sessions i,
    (List.finRange sessionCount).any fun i => (sessions i).belongs subject && (sessions i).busy)

end Llam.Service
