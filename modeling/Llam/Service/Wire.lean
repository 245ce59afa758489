import Llam.Service.Session

/-!
# Requests

A request of a client over its transport (`core/broker/transport/`): what it asks of the broker (`Request.asks`), and what
the response says (`Request.response`). A response that cannot be delivered is rolled back (`Request.rollback`), if it is
one of those that create something.
-/

namespace Llam.Service

open Llam.Broker Llam.Ring

/-- `LLAM_BROKER_WIRE_OP_*` -/
inductive WireOp
  | PING | ISSUE_CAP | VALIDATE_CAP | REVOKE_ALL | STOP | ATTENUATE_CAP | REVOKE_CAP | CREATE_BUFFER | CREATE_CHANNEL
  | BUFFER_READ | BUFFER_WRITE | CHANNEL_SEND | CHANNEL_RECV | CHANNEL_CLOSE | TASK_SPAWN | TASK_JOIN | TASK_DETACH
  | DESCRIPTOR_READ | DESCRIPTOR_WRITE | REGISTER_DESCRIPTOR | CREATE_RING | SERVE_RING
  deriving DecidableEq

def WireOp.ofCode (code : UInt32) : Option WireOp :=
  match code.toNat with
  | 1 => some .PING
  | 2 => some .ISSUE_CAP
  | 3 => some .VALIDATE_CAP
  | 4 => some .REVOKE_ALL
  | 5 => some .STOP
  | 6 => some .ATTENUATE_CAP
  | 7 => some .REVOKE_CAP
  | 8 => some .CREATE_BUFFER
  | 9 => some .CREATE_CHANNEL
  | 10 => some .BUFFER_READ
  | 11 => some .BUFFER_WRITE
  | 12 => some .CHANNEL_SEND
  | 13 => some .CHANNEL_RECV
  | 14 => some .CHANNEL_CLOSE
  | 15 => some .TASK_SPAWN
  | 16 => some .TASK_JOIN
  | 17 => some .TASK_DETACH
  | 18 => some .DESCRIPTOR_READ
  | 19 => some .DESCRIPTOR_WRITE
  | 20 => some .REGISTER_DESCRIPTOR
  | 21 => some .CREATE_RING
  | 22 => some .SERVE_RING
  | _ => none

/-- `llam_broker_wire_request_t` with the descriptor that came with it; `framed` says that magic and version are right. -/
structure Request where
  framed : Bool
  op : UInt32
  slot : UInt64
  rights : Rights
  requiredRights : Rights
  offset : UInt64
  length : UInt64
  token : Token
  data : List UInt8
  descriptor : Option Int

/-- `llam_broker_wire_response_t`: `status` is 0 if there is no `error_code`, and -1 otherwise. -/
structure Response where
  errorCode : Option Errno
  result0 : UInt64
  result1 : UInt64
  result2 : UInt64
  token : Option Token
  data : List UInt8

/-- `llam_broker_mark_response_failure_clear_outputs` -/
def Response.failed (e : Errno) : Response := ⟨some e, 0, 0, 0, none, []⟩

def Response.plain : Response := ⟨none, 0, 0, 0, none, []⟩

/-- What a request comes to. -/
inductive Asks
  | answer (r : Response)
  | op (o : Op)
  | spawn (code : UInt32) (arg0 : UInt64) (rights : Rights)
  | createRing
  | serveRing (session : UInt64) (max : Nat)

/-- `LLAM_BROKER_WIRE_DATA_BYTES`, `LLAM_BROKER_BUFFER_MAX_BYTES` and `LLAM_BROKER_CHANNEL_CAPACITY` -/
def wireDataBytes : UInt64 := 256
def maxUnits : Family → UInt64
  | .CHANNEL => 64
  | _ => 1048576

namespace Request

variable (r : Request)

/-- `llam_broker_transport_rights`, and then the operation -/
def granted (f : Family) (a : Asks) : Asks :=
  if r.rights = ⊥ ∨ ¬ r.rights ≤ f.transportRights then .answer (.failed .EACCES) else a

/-- `llam_broker_transport_create_grant` -/
def createGrant (f : Family) (o : Op) : Asks :=
  if r.slot = 0 ∨ maxUnits f < r.slot then .answer (.failed .EINVAL) else r.granted f (.op o)

/-- The operation, if `llam_broker_wire_length_valid` -/
def measured (o : Op) : Asks :=
  if r.length = 0 ∨ wireDataBytes < r.length then .answer (.failed .EINVAL) else .op o

/-- `llam_broker_transport_serve_ring_batch_size` -/
def batchSize : Nat := if r.length = 0 then 1 else min r.length.toNat serveBatchMax

/-- The bytes of the request. -/
def bytes : List UInt8 := r.data.take r.length.toNat

/-- `llam_broker_process_request_with_descriptors` up to the operation. A join that is retried after the runtime was driven
is like a second request. -/
def asks : Asks :=
  if !r.framed then .answer (.failed .EINVAL)
  else if r.descriptor.isSome ∧ WireOp.ofCode r.op ≠ some .REGISTER_DESCRIPTOR then .answer (.failed .EINVAL)
  else
    match WireOp.ofCode r.op with
    | none => .answer (.failed .EINVAL)
    | some .PING | some .STOP => .answer .plain
    | some .ISSUE_CAP | some .REVOKE_ALL => .answer (.failed .EACCES)
    | some .VALIDATE_CAP => .op (.validate r.token r.requiredRights)
    | some .ATTENUATE_CAP => .op (.attenuate r.token r.rights)
    | some .REVOKE_CAP => .op (.revoke r.token r.rights)
    | some .CREATE_BUFFER => r.createGrant .BUFFER (.registerBuffer (List.replicate r.slot.toNat 0) r.rights)
    | some .CREATE_CHANNEL => r.createGrant .CHANNEL (.createChannel r.slot.toNat r.rights)
    | some .CREATE_RING => .createRing
    | some .SERVE_RING => .serveRing r.slot r.batchSize
    | some .BUFFER_READ => r.measured (.readBuffer r.token r.offset r.length)
    | some .BUFFER_WRITE => r.measured (.writeBuffer r.token r.offset r.bytes)
    | some .CHANNEL_SEND => r.measured (.channelSend r.token r.bytes)
    | some .CHANNEL_RECV => r.measured (.channelRecv r.token r.length)
    | some .CHANNEL_CLOSE => .op (.channelClose r.token)
    | some .REGISTER_DESCRIPTOR =>
      match r.descriptor with
      | none => .answer (.failed .EINVAL)
      | some handle => r.granted .DESCRIPTOR (.op (.registerHandle handle r.rights true))
    | some .DESCRIPTOR_READ => r.measured (.readHandle r.token r.length)
    | some .DESCRIPTOR_WRITE => r.measured (.writeHandle r.token r.bytes)
    | some .TASK_SPAWN =>
      r.granted .TASK
        (if 0xffffffff < r.slot then .answer (.failed .EINVAL) else .spawn r.slot.toUInt32 r.offset r.rights)
    | some .TASK_JOIN => .op (.joinTask r.token)
    | some .TASK_DETACH => .op (.detachTask r.token)

/-- `result0` of a response; a count or a value for some operations. -/
def result0 (value : UInt64) : UInt64 :=
  match WireOp.ofCode r.op with
  | some .BUFFER_READ | some .BUFFER_WRITE | some .CHANNEL_SEND => r.length
  | some .CHANNEL_RECV | some .DESCRIPTOR_READ | some .DESCRIPTOR_WRITE | some .TASK_JOIN => value
  | _ => 0

/-- The response to an operation. -/
def response (out : Outcome) : Response :=
  match out.status with
  | .error e => .failed e
  | .ok value => ⟨none, r.result0 value, 0, 0, out.token, out.output⟩

/-- The response to `CREATE_RING` -/
def ringResponse (i : Fin sessionCount) : Response :=
  ⟨none, UInt64.ofNat (i.val + 1), ringCap, UInt64.ofNat (i.val + 1), none, []⟩

end Request

/-- What `llam_broker_rollback_created_response` undoes -/
inductive Undo
  | nothing
  | session (id : UInt64)
  | object (t : Token)
  deriving DecidableEq

/-- `llam_broker_rollback_created_response`, apart from the removal -/
def Request.undo (r : Request) (resp : Response) : Undo :=
  if resp.errorCode ≠ none then .nothing
  else if WireOp.ofCode r.op = some .CREATE_RING ∧ resp.result2 ≠ 0 then .session resp.result2
  else
    match WireOp.ofCode r.op, resp.token with
    | some .CREATE_BUFFER, some t | some .CREATE_CHANNEL, some t | some .REGISTER_DESCRIPTOR, some t
    | some .TASK_SPAWN, some t => .object t
    | _, _ => .nothing

end Llam.Service
