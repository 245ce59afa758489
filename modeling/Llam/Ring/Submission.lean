import Llam.Lib.Bytes
import Llam.Broker.System

/-!
# Ring submissions

The shared ring of a client (`core/broker/ring/`): a submission asks for one broker operation (`Submission.request`), and
what comes of it is written to the data area of the ring and to a completion (`Submission.finish`). The input and the output
of an operation are windows of the data area that `dataRange` has checked.
-/

namespace Llam.Broker

/-- The bytes of a word, the lowest first. -/
def wordBytes (w : UInt64) : List UInt8 := (List.range 8).map fun i => (w >>> (8 * UInt64.ofNat i)).toUInt8

/-- A `llam_capability_token_t` in memory -/
def Token.bytes (t : Token) : List UInt8 := (t.words ++ [t.mac.1, t.mac.2]).flatMap wordBytes

theorem Token.bytes_length (t : Token) : t.bytes.length = 88 := rfl

end Llam.Broker

namespace Llam.Ring

open Llam.Lib Llam.Broker

/-- `LLAM_BROKER_RING_OP_*` -/
inductive RingOp
  | NOP | CAP_VALIDATE | BUFFER_READ | BUFFER_WRITE | DESCRIPTOR_READ | DESCRIPTOR_WRITE | CHANNEL_SEND | CHANNEL_RECV
  | CHANNEL_CLOSE | TASK_SPAWN | TASK_JOIN | TASK_DETACH | CAP_ATTENUATE | CAP_REVOKE
  deriving DecidableEq

def RingOp.ofCode (code : UInt32) : Option RingOp :=
  match code.toNat with
  | 0 => some .NOP
  | 1 => some .CAP_VALIDATE
  | 2 => some .BUFFER_READ
  | 3 => some .BUFFER_WRITE
  | 4 => some .DESCRIPTOR_READ
  | 5 => some .DESCRIPTOR_WRITE
  | 6 => some .CHANNEL_SEND
  | 7 => some .CHANNEL_RECV
  | 8 => some .CHANNEL_CLOSE
  | 9 => some .TASK_SPAWN
  | 10 => some .TASK_JOIN
  | 11 => some .TASK_DETACH
  | 12 => some .CAP_ATTENUATE
  | 13 => some .CAP_REVOKE
  | _ => none

/-- `llam_broker_ring_submission_t` -/
structure Submission where
  requestId : UInt64
  op : UInt32
  arg0 : UInt64
  arg1 : UInt64
  arg2 : UInt64
  token : Token
  deriving DecidableEq

/-- `llam_broker_ring_completion_t`: `status` is 0 if there is no `error_code`, and -1 otherwise. -/
structure Completion where
  requestId : UInt64
  errorCode : Option Errno
  result0 : UInt64
  deriving DecidableEq

/-! ## The data area -/

/-- `LLAM_BROKER_RING_DATA_BYTES` -/
def dataBytes : UInt64 := 4096

/-- `sizeof(llam_capability_token_t)` -/
def tokenBytes : UInt64 := 88

/-- `llam_broker_ring_data_range`: the offset and length of a window of the data area -/
def dataRange (offset length : UInt64) : Option (Nat × Nat) :=
  if length = 0 then none
  else if offset + length < offset ∨ dataBytes < offset + length then none
  else some (offset.toNat, length.toNat)

namespace Submission

variable (sub : Submission)

/-- The window that the operation writes, if it writes one that `dataRange` accepts. -/
def output : Option (Nat × Nat) :=
  match RingOp.ofCode sub.op with
  | some .CAP_ATTENUATE | some .CAP_REVOKE | some .TASK_SPAWN => dataRange sub.arg2 tokenBytes
  | some .BUFFER_READ | some .DESCRIPTOR_READ | some .CHANNEL_RECV => dataRange sub.arg2 sub.arg1
  | _ => none

/-- `llam_broker_ring_clear_submission_output` -/
def clearOutput (d : Bytes) : Bytes :=
  match sub.output with
  | none => d
  | some (offset, length) => d.clear offset length

end Submission

/-! ## Operations -/

/-- What a submission asks of the broker. -/
inductive Request
  | nothing
  | refused (e : Errno)
  | op (o : Op)
  | spawn (code : UInt32) (arg0 : UInt64)

/-- What the broker does not control while it executes a submission, section by section. -/
structure Trial where
  overtakes : Nat → Nat
  env : Env
  overtakesIssue : Nat → Nat
  envIssue : Env

/-- A submission with a window. -/
def Request.within (window : Option (Nat × Nat)) (r : Nat → Nat → Request) : Request :=
  match window with
  | none => .refused .EINVAL
  | some (offset, length) => r offset length

namespace Submission

variable (sub : Submission)

/-- The part of `llam_broker_ring_execute_submission` before the operation; the input is read from the data area. -/
def request (d : Bytes) : Request :=
  match RingOp.ofCode sub.op with
  | none => .refused .EINVAL
  | some .NOP => .nothing
  | some .CAP_VALIDATE => .op (.validate sub.token ⟨sub.arg0⟩)
  | some .CAP_ATTENUATE => .within (dataRange sub.arg2 tokenBytes) fun _ _ => .op (.attenuate sub.token ⟨sub.arg0⟩)
  | some .CAP_REVOKE => .within (dataRange sub.arg2 tokenBytes) fun _ _ => .op (.revoke sub.token ⟨sub.arg0⟩)
  | some .BUFFER_READ => .within (dataRange sub.arg2 sub.arg1) fun _ _ => .op (.readBuffer sub.token sub.arg0 sub.arg1)
  | some .BUFFER_WRITE =>
    .within (dataRange sub.arg2 sub.arg1) fun offset length =>
      .op (.writeBuffer sub.token sub.arg0 (d.read offset length))
  | some .DESCRIPTOR_READ => .within (dataRange sub.arg2 sub.arg1) fun _ _ => .op (.readHandle sub.token sub.arg1)
  | some .DESCRIPTOR_WRITE =>
    .within (dataRange sub.arg2 sub.arg1) fun offset length => .op (.writeHandle sub.token (d.read offset length))
  | some .CHANNEL_SEND =>
    .within (dataRange sub.arg2 sub.arg1) fun offset length => .op (.channelSend sub.token (d.read offset length))
  | some .CHANNEL_RECV => .within (dataRange sub.arg2 sub.arg1) fun _ _ => .op (.channelRecv sub.token sub.arg1)
  | some .CHANNEL_CLOSE => .op (.channelClose sub.token)
  | some .TASK_SPAWN =>
    .within (dataRange sub.arg2 tokenBytes) fun _ _ =>
      -- a sleep must not keep the batch of a client waiting
      if 0xffffffff < sub.arg0 ∨ sub.arg0 = 4 then .refused .EINVAL else .spawn sub.arg0.toUInt32 sub.arg1
  | some .TASK_JOIN => .op (.joinTask sub.token)
  | some .TASK_DETACH => .op (.detachTask sub.token)

/-- `llam_broker_ring_completion_fail` -/
def failed (e : Errno) : Completion := ⟨sub.requestId, some e, 0⟩

def completed (result0 : UInt64) : Completion := ⟨sub.requestId, none, result0⟩

/-- A token is copied to the output window, or the window is cleared. -/
def finishToken (d : Bytes) (out : Outcome) : Bytes × Completion :=
  match out.status, out.token with
  | .error e, _ => (sub.clearOutput d, sub.failed e)
  | .ok _, none => (d, sub.completed tokenBytes)
  | .ok _, some t => (d.write sub.arg2.toNat t.bytes, sub.completed tokenBytes)

/-- The operation has written `out.output` to the window; `llam_broker_ring_clear_output_suffix` clears the rest. -/
def finishRead (d : Bytes) (out : Outcome) : Bytes × Completion :=
  let d' := d.write sub.arg2.toNat out.output
  match out.status with
  | .error e => (sub.clearOutput d', sub.failed e)
  | .ok n => (d'.clear (sub.arg2.toNat + n.toNat) (sub.arg1.toNat - n.toNat), sub.completed n)

/-- The part of `llam_broker_ring_execute_submission` after the operation -/
def finish (d : Bytes) (out : Outcome) : Bytes × Completion :=
  match RingOp.ofCode sub.op with
  | some .CAP_ATTENUATE | some .CAP_REVOKE | some .TASK_SPAWN => sub.finishToken d out
  | some .DESCRIPTOR_READ | some .CHANNEL_RECV => sub.finishRead d out
  | some .BUFFER_READ =>
    match out.status with
    | .error e => (sub.clearOutput (d.write sub.arg2.toNat out.output), sub.failed e)
    | .ok _ => (d.write sub.arg2.toNat out.output, sub.completed sub.arg1)
  | some .CAP_VALIDATE =>
    match out.status with
    | .error e => (d, sub.failed e)
    | .ok _ => (d, sub.completed 1)
  | some .BUFFER_WRITE | some .CHANNEL_SEND =>
    match out.status with
    | .error e => (d, sub.failed e)
    | .ok _ => (d, sub.completed sub.arg1)
  | some .DESCRIPTOR_WRITE | some .TASK_JOIN =>
    match out.status with
    | .error e => (d, sub.failed e)
    | .ok n => (d, sub.completed n)
  | _ =>
    match out.status with
    | .error e => (d, sub.failed e)
    | .ok _ => (d, sub.completed 0)

/-- What a submission comes to that asks nothing of the broker; a spawn that is refused has its output cleared. -/
def refuse (d : Bytes) (e : Errno) : Bytes × Completion := (sub.clearOutput d, sub.failed e)

/-- `llam_broker_ring_execute_submission` in thread `k` for a subject, with nothing between its sections. -/
def execute {n : Nat} (s : State n) (k : Fin n) (subject : UInt64) (d : Bytes) (e : Trial) :
    Option (State n × Bytes × Completion) :=
  match sub.request d with
  | .nothing => some (s, d, sub.completed 0)
  | .refused e => some (s, sub.refuse d e)
  | .op o =>
    let r := s.performOp subject o e.overtakes e.env
    some (r.1, sub.finish d r.2)
  | .spawn code arg0 =>
    match s.exec (.spawn k subject code arg0 (.JOIN ||| .DETACH) e.env) with
    | none => none
    | some (s₁, some out) => some (s₁, sub.finish d out)
    | some (s₁, none) =>
      match s₁.exec (.issue k e.overtakesIssue e.envIssue) with
      | none => none
      | some (s₂, some out) => some (s₂, sub.finish d out)
      | some (s₂, none) =>
        -- the command is not a sleep, so that no task of the runtime is started
        (s₂.exec (.finish k (.error .EINVAL))).bind fun r => r.2.map fun out => (r.1, sub.finish d out)

end Submission

end Llam.Ring
