import Llam.Broker.Model

/-!
# The operations of the broker

The sections of `core/broker/` under the lock, for the subject of the calling transport. An operation gives the new state
and an `Outcome`; the answers of the operating system and of the runtime are in `Env`.
-/

namespace Llam.Broker

open Function

/-- What an operation returns: its status with a count or a value, the token that it issued and its output area. -/
structure Outcome where
  status : Except Errno UInt64
  token : Option Token
  output : List UInt8
  deriving DecidableEq

namespace Outcome

def fail (e : Errno) : Outcome := ⟨.error e, none, []⟩

def done (value : UInt64) : Outcome := ⟨.ok value, none, []⟩

def give : Except Errno Token → Outcome
  | .error e => .fail e
  | .ok t => ⟨.ok 0, some t, []⟩

/-- `llam_broker_fail_clear_output` -/
def failClear (length : Nat) (e : Errno) : Outcome := ⟨.error e, none, List.replicate length 0⟩

/-- `llam_broker_finish_read_clear_tail` after `bytes` were read to an area of `length` bytes -/
def read (bytes : List UInt8) (length : Nat) : Outcome :=
  ⟨.ok (UInt64.ofNat bytes.length), none, bytes ++ List.replicate (length - bytes.length) 0⟩

end Outcome

/-- What the broker does not control: whether `llam_broker_begin_op` and the lock refuse the operation, the entropy for
nonces, allocation, the descriptors and the tasks of the runtime. -/
structure Env where
  refused : Option Errno
  entropy : Option (UInt64 × UInt64)
  noMemory : Bool
  setCloexec : Option Errno
  duplicate : Option Errno
  recv : Int → Nat → Except Errno (List UInt8)
  send : Int → List UInt8 → Except Errno Nat
  taskCall : Option Errno

namespace Control

variable (b : Control)

/-! ## Issuing tokens -/

/-- `llam_broker_validate_object_rights` -/
def validateObjectRights (f : Family) (rights : Rights) : Except Errno Unit :=
  if rights = ⊥ then .error .EINVAL else if ¬ rights ≤ f.transportRights then .error .EACCES else .ok ()

/-- `llam_broker_validate_next_object_id` -/
def validateNextObjectId (next : UInt64) : Except Errno Unit :=
  if next = 0 then .error .ENOSPC else if next = wordMax then .error .EOVERFLOW else .ok ()

/-- `llam_broker_issue_object_cap_unlocked` -/
def issueObjectCap (f : Family) (subject epoch id generation : UInt64) (rights : Rights)
    (entropy : Option (UInt64 × UInt64)) : Except Errno Token :=
  match validateObjectRights f rights with
  | .error e => .error e
  | .ok () => capabilityIssue b.key ⟨b.runtimeId, f.code, id, generation, epoch, subject⟩ rights entropy

/-- A slot that a new object may use: no object is active in it, or a channel that is closed and drained. -/
def reusable : (f : Family) → Slot (Body f) → Bool
  | .CHANNEL, s => !s.active || ((s.body : Channel).closed && (s.body : Channel).count == 0)
  | _, s => !s.active

/-- A slot for a new object with number `next_*_id`. -/
def allot (f : Family) (i : Fin slotCount) (subject : UInt64) (rights : Rights) (body : Body f) : Control :=
  { b.setSlot f i ⟨b.next f, 1, rights, subject, true, body⟩ with next := update b.next f (b.next f + 1) }

/-- The common part of `llam_broker_register_buffer`, `llam_broker_register_handle` and `llam_broker_create_channel` under
the lock: the first slot that may be used gets the object. -/
def createObject (f : Family) (body : Body f) (subject epoch : UInt64) (rights : Rights)
    (entropy : Option (UInt64 × UInt64)) : Control × Outcome :=
  match b.first f (reusable f) with
  | none => (b, .fail .ENOSPC)
  | some i =>
    match validateNextObjectId (b.next f) with
    | .error e => (b, .fail e)
    | .ok () =>
      match b.issueObjectCap f subject epoch (b.next f) 1 rights entropy with
      | .error e => ((b.allot f i subject rights body).clearSlot f i, .fail e)
      | .ok t => (b.allot f i subject rights body, .give (.ok t))

variable (subject : UInt64) (load : Nat → UInt64)

/-- `llam_broker_attenuate_cap` -/
def attenuateCap (t : Token) (subset : Rights) (env : Env) : Outcome :=
  if subset = ⊥ then .fail .EINVAL
  else
    match env.refused, b.validateCap subject (load 0) t subset with
    | some e, _ => .fail e
    | none, .error e => .fail e
    | none, .ok () => .give (capabilityAttenuate b.key t subset (load 1) env.entropy)

/-- `llam_broker_prepare_rotated_cap_unlocked` and the rotation of the slot -/
def rotate (f : Family) (i : Fin slotCount) (subject epoch : UInt64) (t : Token) (replacement : Rights)
    (entropy : Option (UInt64 × UInt64)) : Control × Outcome :=
  let s := b.slots f i
  if s.generation = wordMax then (b, .fail .EOVERFLOW)
  else if replacement = ⊥ then (b, .fail .EINVAL)
  else if ¬ replacement ≤ t.rights then (b, .fail .EACCES)
  else
    match b.issueObjectCap f subject epoch s.id (s.generation + 1) replacement entropy with
    | .error e => (b, .fail e)
    | .ok t' =>
      (b.setSlot f i { s with generation := s.generation + 1, rights := replacement }, .give (.ok t'))

/-- `llam_broker_revoke_buffer_unlocked` and `llam_broker_revoke_channel_unlocked` -/
def revokeFound (f : Family) (subject : UInt64) (load : Nat → UInt64) (t : Token) (replacement : Rights)
    (entropy : Option (UInt64 × UInt64)) : Control × Outcome :=
  match b.findObject f subject (load 1) t .DESTROY with
  | .error e => (b, .fail e)
  | .ok i => b.rotate f i subject (load 2) t replacement entropy

/-- `llam_broker_revoke_descriptor_unlocked` looks for the slot itself. -/
def revokeDescriptor (t : Token) (replacement : Rights) (entropy : Option (UInt64 × UInt64)) : Control × Outcome :=
  match b.first .DESCRIPTOR fun s => s.named t with
  | none => (b, .fail .EACCES)
  | some i =>
    if ¬ Rights.DESTROY ≤ (b.slots .DESCRIPTOR i).rights then (b, .fail .EACCES)
    else b.rotate .DESCRIPTOR i subject (load 2) t replacement entropy

/-- `llam_broker_revoke_object_cap` -/
def revokeObjectCap (t : Token) (replacement : Rights) (env : Env) : Control × Outcome :=
  if replacement = ⊥ then (b, .fail .EINVAL)
  else
    match env.refused, b.validateCap subject (load 0) t .DESTROY with
    | some e, _ => (b, .fail e)
    | none, .error e => (b, .fail e)
    | none, .ok () =>
      match Family.ofCode t.family with
      | some .BUFFER => b.revokeFound .BUFFER subject load t replacement env.entropy
      | some .DESCRIPTOR => b.revokeDescriptor subject load t replacement env.entropy
      | some .CHANNEL => b.revokeFound .CHANNEL subject load t replacement env.entropy
      | _ => (b, .fail .EINVAL)

/-! ## Buffers -/

/-- `LLAM_BROKER_BUFFER_MAX_BYTES` -/
def bufferMaxBytes : Nat := 1024 * 1024

/-- `llam_broker_register_buffer` with the initial contents, or zeros -/
def registerBuffer (data : List UInt8) (rights : Rights) (env : Env) : Control × Outcome :=
  if data.length = 0 ∨ bufferMaxBytes < data.length ∨ rights = ⊥ then (b, .fail .EINVAL)
  else
    match validateObjectRights .BUFFER rights, env.noMemory, env.refused with
    | .error e, _, _ => (b, .fail e)
    | .ok (), true, _ => (b, .fail .ENOMEM)
    | .ok (), false, some e => (b, .fail e)
    | .ok (), false, none =>
      b.createObject .BUFFER (⟨data⟩ : Buffer) subject (load 0) rights env.entropy

/-- The range `[offset, offset + length)` is not in a buffer of `size` bytes. -/
def outside (offset length : UInt64) (size : Nat) : Bool :=
  offset + length < offset || UInt64.ofNat size < offset + length

/-- `llam_broker_read_buffer` -/
def readBuffer (t : Token) (offset length : UInt64) (env : Env) : Outcome :=
  if length = 0 then .fail .EINVAL
  else
    match env.refused, b.findObject .BUFFER subject (load 0) t .READ with
    | some e, _ => .failClear length.toNat e
    | none, .error e => .failClear length.toNat e
    | none, .ok i =>
      let data := (b.buffers i).body.data
      if outside offset length data.length then .failClear length.toNat .EINVAL
      else ⟨.ok 0, none, (data.drop offset.toNat).take length.toNat⟩

/-- `llam_broker_write_buffer` -/
def writeBuffer (t : Token) (offset : UInt64) (bytes : List UInt8) (env : Env) : Control × Outcome :=
  if bytes.length = 0 then (b, .fail .EINVAL)
  else
    match env.refused, b.findObject .BUFFER subject (load 0) t .WRITE with
    | some e, _ => (b, .fail e)
    | none, .error e => (b, .fail e)
    | none, .ok i =>
      let data := (b.buffers i).body.data
      if outside offset (UInt64.ofNat bytes.length) data.length then (b, .fail .EINVAL)
      else
        (b.setBody .BUFFER i
          (⟨data.take offset.toNat ++ bytes ++ data.drop (offset.toNat + bytes.length)⟩ : Buffer), .done 0)

/-! ## Descriptors -/

/-- `llam_broker_register_handle` -/
def registerHandle (handle : Int) (rights : Rights) (closeOnDestroy : Bool) (env : Env) : Control × Outcome :=
  if handle < 0 ∨ rights = ⊥ then (b, .fail .EINVAL)
  else
    match validateObjectRights .DESCRIPTOR rights, env.setCloexec, env.refused with
    | .error e, _, _ => (b, .fail e)
    | .ok (), some e, _ => (b, .fail e)
    | .ok (), none, some e => (b, .fail e)
    | .ok (), none, none =>
      b.createObject .DESCRIPTOR (⟨handle, closeOnDestroy⟩ : Descriptor) subject (load 0) rights env.entropy

/-- `llam_broker_duplicate_descriptor_unlocked`: the handle of the descriptor, of which the caller gets a duplicate -/
def duplicateDescriptor (epoch : UInt64) (t : Token) (required : Rights) (env : Env) : Except Errno Int :=
  match env.refused, b.findObject .DESCRIPTOR subject epoch t required with
  | some e, _ => .error e
  | none, .error e => .error e
  | none, .ok i =>
    match env.duplicate with
    | some e => .error e
    | none => .ok (b.descriptors i).body.handle

/-- `llam_broker_read_handle` -/
def readHandle (t : Token) (length : UInt64) (env : Env) : Outcome :=
  if length = 0 then .fail .EINVAL
  else
    match b.duplicateDescriptor subject (load 0) t .READ env with
    | .error e => .failClear length.toNat e
    | .ok handle =>
      match env.recv handle length.toNat with
      | .error e => .failClear length.toNat e
      | .ok bytes => .read (bytes.take length.toNat) length.toNat

/-- `llam_broker_write_handle` -/
def writeHandle (t : Token) (bytes : List UInt8) (env : Env) : Outcome :=
  if bytes.length = 0 then .fail .EINVAL
  else
    match b.duplicateDescriptor subject (load 0) t .WRITE env with
    | .error e => .fail e
    | .ok handle =>
      match env.send handle bytes with
      | .error e => .fail e
      | .ok n => .done (UInt64.ofNat n)

/-! ## Channels -/

/-- `LLAM_BROKER_CHANNEL_CAPACITY` and `LLAM_BROKER_CHANNEL_MESSAGE_BYTES` -/
def channelCapacity : Nat := 64
def channelMessageBytes : Nat := 256

/-- `llam_broker_create_channel` -/
def createChannel (capacity : Nat) (rights : Rights) (env : Env) : Control × Outcome :=
  if capacity = 0 ∨ channelCapacity < capacity ∨ rights = ⊥ then (b, .fail .EINVAL)
  else
    match validateObjectRights .CHANNEL rights, env.refused with
    | .error e, _ => (b, .fail e)
    | .ok (), some e => (b, .fail e)
    | .ok (), none =>
      b.createObject .CHANNEL (⟨fun _ => [], capacity, 0, 0, 0, false⟩ : Channel) subject (load 0) rights env.entropy

/-- `llam_broker_channel_send` -/
def channelSend (t : Token) (bytes : List UInt8) (env : Env) : Control × Outcome :=
  if bytes.length = 0 ∨ channelMessageBytes < bytes.length then (b, .fail .EINVAL)
  else
    match env.refused, b.findObject .CHANNEL subject (load 0) t .SEND with
    | some e, _ => (b, .fail e)
    | none, .error e => (b, .fail e)
    | none, .ok i =>
      let c := (b.channels i).body
      if c.closed then (b, .fail .EPIPE)
      else if c.capacity ≤ c.count then (b, .fail .EAGAIN)
      else
        (b.setBody .CHANNEL i ({ c with
          messages := update c.messages c.tail bytes
          tail := (c.tail + 1) % c.capacity
          count := c.count + 1 } : Channel), .done 0)

/-- `llam_broker_channel_recv` -/
def channelRecv (t : Token) (capacity : UInt64) (env : Env) : Control × Outcome :=
  if capacity = 0 then (b, .fail .EINVAL)
  else
    match env.refused, b.findObject .CHANNEL subject (load 0) t .RECV with
    | some e, _ => (b, .failClear capacity.toNat e)
    | none, .error e => (b, .failClear capacity.toNat e)
    | none, .ok i =>
      let c := (b.channels i).body
      if c.count = 0 then (b, .failClear capacity.toNat (if c.closed then .EPIPE else .EAGAIN))
      else
        let message := c.messages c.head
        if capacity.toNat < message.length then (b, .failClear capacity.toNat .EMSGSIZE)
        else
          (b.setBody .CHANNEL i ({ c with
            messages := update c.messages c.head []
            head := (c.head + 1) % c.capacity
            count := c.count - 1 } : Channel), .read message capacity.toNat)

/-- `llam_broker_channel_close` -/
def channelClose (t : Token) (env : Env) : Control × Outcome :=
  match env.refused, b.findObject .CHANNEL subject (load 0) t .CLOSE with
  | some e, _ => (b, .fail e)
  | none, .error e => (b, .fail e)
  | none, .ok i => (b.setBody .CHANNEL i ({ (b.channels i).body with closed := true } : Channel), .done 0)

end Control

end Llam.Broker
