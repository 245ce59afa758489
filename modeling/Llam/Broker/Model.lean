import Llam.Broker.Capability

/-!
# The broker

The tables of `llam_broker_t` and the operations on them (`core/broker/`). The broker keeps buffers, descriptors, channels
and tasks in four tables of slots. A client holds tokens; an operation looks its token up (`findObject`) under the
broker's lock and for the subject of the calling transport, and works on the slot that it finds.

Every function here is one section under the lock, or the part of an operation that follows it. Only
`llam_broker_revoke_all` does without the lock, so that the epoch may advance during a section: a section is given the
epochs that it loads.
-/

namespace Llam.Broker

open Function

/-! ## Tables -/

/-- `LLAM_BROKER_BUFFER_SLOTS` and the number of slots of the other tables -/
abbrev slotCount : Nat := 64

inductive Family
  | BUFFER | DESCRIPTOR | CHANNEL | TASK
  deriving DecidableEq

/-- `LLAM_BROKER_CAP_FAMILY_*` -/
def Family.code : Family → UInt32
  | .BUFFER => 8
  | .DESCRIPTOR => 9
  | .CHANNEL => 10
  | .TASK => 11

def Family.ofCode (code : UInt32) : Option Family :=
  if code = 8 then some .BUFFER
  else if code = 9 then some .DESCRIPTOR
  else if code = 10 then some .CHANNEL
  else if code = 11 then some .TASK
  else none

/-- `LLAM_BROKER_*_TRANSPORT_RIGHTS` -/
def Family.transportRights : Family → Rights
  | .BUFFER => .READ ||| .WRITE ||| .DESTROY
  | .DESCRIPTOR => .READ ||| .WRITE ||| .DESTROY
  | .CHANNEL => .SEND ||| .RECV ||| .CLOSE ||| .DESTROY
  | .TASK => .JOIN ||| .DETACH

/-- The memory of a `llam_broker_buffer_slot_t`, of `length` bytes. -/
structure Buffer where
  data : List UInt8
  deriving DecidableEq

structure Descriptor where
  handle : Int
  closeOnDestroy : Bool
  deriving DecidableEq

/-- The ring of a `llam_broker_channel_slot_t`; a message is the bytes that were sent. -/
structure Channel where
  messages : Nat → List UInt8
  capacity : Nat
  head : Nat
  tail : Nat
  count : Nat
  closed : Bool

inductive TaskKind
  | RETURN_U64 | INCREMENT_U64 | POPCOUNT_U64 | SLEEP_NS_RETURN_U64
  deriving DecidableEq

inductive TaskState
  | EMPTY | SPAWNED | COMPLETED | JOINED | DETACHED
  deriving DecidableEq

/-- The command of a `llam_broker_task_slot_t`; `task` is the runtime's task that runs it. -/
structure Task where
  task : Option Nat
  state : TaskState
  kind : Option TaskKind
  arg0 : UInt64
  result0 : UInt64
  errorCode : Option Errno
  deriving DecidableEq

/-- What a slot holds besides its header. -/
abbrev Body : Family → Type
  | .BUFFER => Buffer
  | .DESCRIPTOR => Descriptor
  | .CHANNEL => Channel
  | .TASK => Task

/-- The contents of a cleared slot. -/
def Body.cleared : (f : Family) → Body f
  | .BUFFER => (⟨[]⟩ : Buffer)
  | .DESCRIPTOR => (⟨-1, false⟩ : Descriptor)
  | .CHANNEL => (⟨fun _ => [], 0, 0, 0, 0, false⟩ : Channel)
  | .TASK => (⟨none, .EMPTY, none, 0, 0, none⟩ : Task)

/-- A slot of a table: the header is the same in all tables. -/
structure Slot (α : Type) where
  id : UInt64
  generation : UInt64
  rights : Rights
  subjectId : UInt64
  active : Bool
  body : α

/-- The slot holds the object that the token names. -/
def Slot.named {α : Type} (s : Slot α) (t : Token) : Bool :=
  s.active && s.id == t.slot && s.generation == t.generation

/-- `memset(slot, 0, sizeof(*slot))` and the resets of the tables -/
def Slot.cleared (f : Family) : Slot (Body f) := ⟨0, 0, ⊥, 0, false, Body.cleared f⟩

/-- `llam_broker_t`, the control-plane state of a broker: its key and epoch, the tables and `next_*_id` -/
structure Control where
  runtimeId : UInt64
  key : Key
  epoch : UInt64
  slots : (f : Family) → Fin slotCount → Slot (Body f)
  next : Family → UInt64

/-- The tables of `llam_broker_init` -/
def Control.init (runtimeId : UInt64) (key : Key) : Control :=
  ⟨runtimeId, key, 1, fun f _ => Slot.cleared f, fun _ => 1⟩

namespace Control

variable (b : Control)

def buffers (i : Fin slotCount) : Slot Buffer := b.slots .BUFFER i
def descriptors (i : Fin slotCount) : Slot Descriptor := b.slots .DESCRIPTOR i
def channels (i : Fin slotCount) : Slot Channel := b.slots .CHANNEL i
def tasks (i : Fin slotCount) : Slot Task := b.slots .TASK i

def setSlot (f : Family) (i : Fin slotCount) (s : Slot (Body f)) : Control :=
  { b with slots := update b.slots f (update (b.slots f) i s) }

/-- New contents for a slot. -/
def setBody (f : Family) (i : Fin slotCount) (x : Body f) : Control := b.setSlot f i { b.slots f i with body := x }

def clearSlot (f : Family) (i : Fin slotCount) : Control := b.setSlot f i (.cleared f)

/-- The first slot of a table for which `p` holds. -/
def first (f : Family) (p : Slot (Body f) → Bool) : Option (Fin slotCount) :=
  (List.finRange slotCount).find? fun i => p (b.slots f i)

/-! ## Validation -/

/-- `llam_broker_validate_live_object_unlocked` -/
def validateLiveObject (t : Token) (required : Rights) : Except Errno Unit :=
  match Family.ofCode t.family with
  | none => .error .EACCES
  | some f => if (b.first f fun s => s.named t && decide (required ≤ s.rights)).isSome then .ok () else .error .EACCES

/-- `llam_broker_validate_cap_unlocked` -/
def validateCap (subject epoch : UInt64) (t : Token) (required : Rights) : Except Errno Unit :=
  if required = ⊥ then .error .EINVAL
  else
    match validateSubject b.key t required epoch subject with
    | .error e => .error e
    | .ok () => if t.runtimeId ≠ b.runtimeId then .error .EACCES else b.validateLiveObject t required

/-- `llam_broker_find_*`: the slot of the object, after `llam_broker_validate_token_family_unlocked` -/
def findObject (f : Family) (subject epoch : UInt64) (t : Token) (required : Rights) : Except Errno (Fin slotCount) :=
  match b.validateCap subject epoch t required with
  | .error e => .error e
  | .ok () =>
    if t.family ≠ f.code then .error .EACCES
    else
      match b.first f fun s => s.named t with
      | none => .error .EACCES
      | some i => if required ≤ (b.slots f i).rights then .ok i else .error .EACCES

end Control

end Llam.Broker
