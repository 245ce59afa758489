import Llam.Basic
import Llam.Lib.Run

/-!
# Scopes, futures and owned values

The structured-task layer (`core/task`: `structured_registry.c`, `owned_value.c`, `future.c`, `scope.c`, `scope_spawn.c`,
`scope_wait.c`, `scoped_completion.c`). Values, futures and scopes share a header with a reference count, the number of
open public operations, whether the public handle is live, and whether a spawn has claimed it. A public handle names an
object and one publication of it: it resolves while that publication is live.

One global lock protects all of it, so a section with the lock held is one action. What a thread still has to do after a
section is a stack of such sections, `todo`: `exec` performs the topmost one and says what it pushes. A thread that
returns from its last section has returned from its call. The child of a scoped task is a thread as well; its retirement
runs on that thread, whenever it is scheduled.

`disposed`, `announced`, `retracted`, `freed`, `consumed`, `calls` and `last` are history: no branch reads them, except that
a future's handle can be used only after it was announced to the caller of the spawn.
-/

namespace Llam.Structured

open Function

/-! ## Types and contracts -/

/-- `llam_type_descriptor_t` -/
structure Descriptor where
  idHigh : Nat
  idLow : Nat
  size : Nat
  alignment : Nat
  reserved : Nat
  deriving DecidableEq

/-- `llam_type_is_unit` -/
def Descriptor.isUnit (d : Descriptor) : Bool := d.idHigh == 0 && d.idLow == 0

/-- `llam_type_validate` -/
def Descriptor.validate (d : Descriptor) : Bool :=
  d.reserved == 0 && d.alignment != 0 && (d.alignment &&& (d.alignment - 1)) == 0 && decide (d.size ≤ sizeMax) &&
    !(d.isUnit && (d.size != 0 || d.alignment != 1))

/-- `LLAM_TYPE_UNIT_INIT` -/
def Descriptor.unit : Descriptor := ⟨0, 0, 0, 1, 0⟩

/-- `llam_result_contract_t` -/
structure Contract where
  success : Descriptor
  error : Descriptor
  deriving DecidableEq

/-- `llam_contract_validate` -/
def Contract.validate (c : Contract) : Bool := c.success.validate && c.error.validate

/-! ## Objects -/

/-- `llam_structured_object_t`; `generation` counts its publications, `disposed` the calls of its dispose function. -/
structure Object where
  refs : Nat
  publicOps : Nat
  publicLive : Bool
  claimed : Bool
  generation : Nat
  disposed : Nat
  deriving DecidableEq

/-- `llam_structured_init` and the first publication. -/
def Object.published : Object := ⟨1, 0, true, false, 1, 0⟩

inductive Ref (V F S : Type)
  | value (v : V)
  | future (f : F)
  | scope (s : S)
  deriving DecidableEq

/-- A public handle: the object and the number of the publication. -/
abbrev Handle (ι : Type) := ι × Nat

structure Value where
  object : Object
  type : Descriptor
  deriving DecidableEq

/-- The outcome kinds; `kind = 0` of a future is `none`. -/
inductive Kind
  | OK | APP_ERROR | CANCELLED | RUNTIME_ERROR
  deriving DecidableEq

structure Future (V : Type) where
  object : Object
  contract : Contract
  argument : Option V
  result : Option V
  discarded : Option V
  kind : Option Kind
  runtimeError : Option Errno
  entryReturned : Bool
  ready : Bool
  doneClosed : Bool
  /-- the handle was stored where the caller of the spawn finds it -/
  announced : Bool
  /-- the claim on the argument was rolled back, and the slot is not cleared yet -/
  retracted : Bool
  /-- the storage was freed -/
  freed : Bool
  deriving DecidableEq

inductive ScopeState
  | OPEN | CLOSING | DRAINED
  deriving DecidableEq

/-- `llam_scope_report_t` -/
structure Report where
  state : ScopeState
  cancelRequested : Bool
  quiescent : Bool
  admittedTasks : Nat
  pendingTasks : Nat
  activeSpawns : Nat
  succeeded : Nat
  applicationErrors : Nat
  cancelled : Nat
  runtimeErrors : Nat
  runtimeError : Option Errno
  deriving DecidableEq

structure Scope where
  object : Object
  report : Report
  draining : Bool
  doneClosed : Bool
  tokenCancelled : Bool
  deriving DecidableEq

/-- `llam_scope_allocate` -/
def Scope.allocate : Scope :=
  ⟨.published, ⟨.OPEN, false, false, 0, 0, 0, 0, 0, 0, 0, none⟩, false, false, false⟩

/-! ## Threads -/

/-- What follows a cancellation request: the end of a cancel call, or the rest of a drain. -/
inductive After
  | cancel (notify : Bool)
  | drain (ready : Bool)
  deriving DecidableEq

/-- A section that a thread still has to perform. `s` and `f` are the scope and the future it works for. -/
inductive Section (V F S : Type)
  | endOp (r : Ref V F S)
  | release (r : Ref V F S)
  | freeArgument (f : F)
  | freeResult (f : F)
  | consume (r : Ref V F S)
  | valueType (v : V) (type : Descriptor)
  | awaitReady (f : F)
  | awaitDone (f : F)
  | awaitCheck (f : F)
  | take (f : F) (contract : Contract)
  | destroy (s : S)
  | cancelClose (s : S)
  | requestCheck (s : S) (after : After)
  | requestToken (s : S) (after : After)
  | requestDone (s : S) (after : After)
  | notifyScope (s : S)
  | beginDrain (s : S) (cancel : Bool)
  | drainWait (s : S)
  | finishDrain (s : S)
  | spawnCheck (s : S) (argument : Option (Handle V)) (contract : Contract)
  | prepare (s : S) (argument : Option (Handle V)) (contract : Contract)
  | reserve (s : S) (f : F) (argument : Option (Handle V))
  | spawnTask (s : S) (f : F) (argument : Option V)
  | commitClaim (s : S) (f : F) (v : V)
  | announce (s : S) (f : F)
  | rollbackClaim (s : S) (f : F) (v : V)
  | rollbackSpawn (s : S) (f : F)
  | finishSpawn (s : S) (f : F) (failed : Bool)
  | consumeFailed (s : S) (f : F)
  | entryReturned (s : S) (f : F)
  | prepareRetire (s : S) (f : F)
  | releaseInputs (s : S) (f : F)
  | publish (s : S) (f : F)
  | notifyFuture (f : F)
  deriving DecidableEq

/-- The public calls; the storage of a new object is the allocator's choice. -/
inductive Call (V F S : Type)
  | valueCreate (v : V) (type : Descriptor)
  | valueData (h : Handle V) (type : Descriptor)
  | valueRelease (h : Handle V)
  | scopeCreate (s : S)
  | scopeSpawn (h : Handle S) (argument : Option (Handle V)) (contract : Contract)
  | setOutcome (kind : Kind) (value : Option (Handle V))
  | futureWait (h : Handle F)
  | futureTake (h : Handle F) (contract : Contract)
  | futureRelease (h : Handle F)
  | scopeReport (h : Handle S)
  | scopeCancel (h : Handle S)
  | scopeDrain (h : Handle S) (cancel : Bool)
  | scopeDestroy (h : Handle S)
  deriving DecidableEq

/-- A thread; `completion` is the future of the scoped task it runs, with its scope (`task->scope_completion`). -/
structure Thread (V F S : Type) where
  alive : Bool
  completion : Option (F × S)
  todo : List (Section V F S)
  call : Option (Call V F S)
  error : Option Errno
  calls : Nat
  last : Option (Call V F S × Option Errno)
  deriving DecidableEq

/-- A call has consumed a handle that was passed to it. -/
structure Consumption (V F S T : Type) where
  object : Ref V F S
  generation : Nat
  thread : T
  call : Nat
  deriving DecidableEq

structure Store (V F S T : Type) where
  values : V → Option Value
  futures : F → Option (Future V)
  scopes : S → Option Scope
  consumed : List (Consumption V F S T)

structure State (V F S T : Type) where
  store : Store V F S T
  threads : T → Thread V F S
  aborted : Bool

/-- What the environment decides in a section: a failure of an allocation, a slot, an owner check, a wait or a task spawn,
the storage of a new future, the thread of a new task, and whether the task was cancelled or its runtime failed. -/
structure Env (F T : Type) where
  fails : Option Errno
  future : Option F
  child : Option T
  cancelled : Bool
  fatal : Option Errno

/-! ## The registry -/

/-- `llam_structured_drop_locked`; `none` is `abort()`. The dispose function runs when the last reference is dropped. -/
def Object.drop (o : Object) : Option Object :=
  match o.refs with
  | 0 => none
  | n + 1 => some { o with refs := n, disposed := if n = 0 then o.disposed + 1 else o.disposed }

/-- `llam_structured_drop_locked` where the caller aborts when it was the last reference. -/
def Object.dropKept (o : Object) : Option Object :=
  match o.refs with
  | n + 2 => some { o with refs := n + 1 }
  | _ => none

/-- `llam_structured_unpublish_locked`; `none` is `abort()`. -/
def Object.unpublish (o : Object) : Option Object :=
  if o.publicLive then some { o with publicLive := false, claimed := false } else none

/-- `llam_structured_publish_locked` -/
def Object.publish (o : Object) (fails : Option Errno) : Except Errno Object :=
  if o.publicLive then .error .EINVAL
  else
    match fails with
    | some e => .error e
    | none => .ok { o with publicLive := true, generation := o.generation + 1 }

/-- `llam_structured_consume_locked`: the error, or the object without its handle; `none` is `abort()`. -/
def Object.consume (o : Object) : Except Errno (Option Object) :=
  if !o.publicLive then .error .EINVAL
  else if o.claimed || o.publicOps != 1 then .error .EBUSY
  else .ok (o.unpublish.bind Object.dropKept)

section Store

variable {V F S T : Type} [DecidableEq V] [DecidableEq F] [DecidableEq S] [DecidableEq T]
  (st : Store V F S T) (r : Ref V F S) (o : Object)

def Store.setValue (v : V) (x : Value) : Store V F S T :=
  { st with values := update st.values v (some x) }

def Store.setFuture (f : F) (x : Future V) : Store V F S T :=
  { st with futures := update st.futures f (some x) }

def Store.setScope (s : S) (x : Scope) : Store V F S T :=
  { st with scopes := update st.scopes s (some x) }

/-- The header of an object. -/
def Store.object : Ref V F S → Option Object
  | .value v => (st.values v).map Value.object
  | .future f => (st.futures f).map Future.object
  | .scope s => (st.scopes s).map Scope.object

def Store.setObject : Store V F S T :=
  match r with
  | .value v => { st with values := update st.values v ((st.values v).map fun x => { x with object := o }) }
  | .future f => { st with futures := update st.futures f ((st.futures f).map fun x => { x with object := o }) }
  | .scope s => { st with scopes := update st.scopes s ((st.scopes s).map fun x => { x with object := o }) }

/-- The caller of a spawn knows the handle of its future only when it is announced. -/
def Store.announced : Ref V F S → Bool
  | .future f =>
    match st.futures f with
    | some x => x.announced
    | none => false
  | _ => true

/-- `llam_structured_resolve_locked` -/
def Store.resolve (generation : Nat) : Except Errno Object :=
  match st.object r with
  | none => .error .EINVAL
  | some o =>
    if !o.publicLive || o.generation != generation || !st.announced r then .error .EINVAL
    else if o.claimed then .error .EBUSY
    else .ok o

/-- `llam_structured_begin`, without the owner check. -/
def Store.begin (generation : Nat) : Except Errno (Store V F S T) :=
  match st.resolve r generation with
  | .error e => .error e
  | .ok o =>
    if o.refs = sizeMax then .error .EBUSY
    else .ok (st.setObject r { o with refs := o.refs + 1, publicOps := o.publicOps + 1 })

/-- The history of consumed handles. -/
def Store.consumes (generation : Nat) (t : T) (call : Nat) : Store V F S T :=
  { st with consumed := st.consumed ++ [⟨r, generation, t, call⟩] }

/-- What a section does: the new store, the sections it makes necessary, the result of the call so far, and the thread of
a task it has started. -/
structure Effect (V F S T : Type) where
  store : Store V F S T
  push : List (Section V F S)
  error : Option Errno
  child : Option (T × F × S)

inductive Exec (V F S T : Type)
  | blocked
  | aborted
  | done (effect : Effect V F S T)

/-- The dispose function of an object whose last reference was dropped: a future releases what its slots hold. -/
def disposal : List (Section V F S) :=
  match r with
  | .future f => if o.refs = 0 then [.freeArgument f] else []
  | _ => []

/-- Drop one reference to an object (`llam_structured_drop_locked` with the dispose call of its callers). -/
def dropRef (error : Option Errno) : Exec V F S T :=
  match o.drop with
  | none => .aborted
  | some o' => .done ⟨st.setObject r o', disposal r o', error, none⟩

/-- `llam_structured_end` -/
def structuredEnd (error : Option Errno) : Exec V F S T :=
  match st.object r with
  | none => .aborted
  | some o =>
    match o.publicOps with
    | 0 => .aborted
    | n + 1 => dropRef st r { o with publicOps := n } error

/-- `llam_structured_release` -/
def structuredRelease (error : Option Errno) : Exec V F S T :=
  match st.object r with
  | none => .aborted
  | some o => dropRef st r o error

/-- A consuming call between its begin and its end: `llam_value_release`, `llam_future_release`, and the destroy of a
drained scope. -/
def structuredConsume (t : T) (call : Nat) : Exec V F S T :=
  match st.object r with
  | none => .aborted
  | some o =>
    match o.consume with
    | .error e => .done ⟨st, [.endOp r], some e, none⟩
    | .ok none => .aborted
    | .ok (some o') => .done ⟨(st.setObject r o').consumes r o.generation t call, [.endOp r], none, none⟩

end Store

end Llam.Structured
