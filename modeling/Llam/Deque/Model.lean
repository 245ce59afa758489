import Llam.Lib.Run

/-!
# The work-stealing deque

The Chase-Lev deque of the normal runnable lane (`norm_queue.c`): one owner pushes and pops at `bottom`, any number of
thieves `T` steal at `top`. Every load, store and compare-and-swap of a shared word is an action of its own; the calls and
the local computations that follow an access belong to its action. The indices are machine words that wrap around, the
slot of an index is found with the mask of the capacity.

A task is stored with the number of its push and the position it was pushed to, and `topAt` counts the advances of `top`.
No branch reads these three: they are the history in which the properties are stated.
-/

namespace Llam.Deque

open Function

/-- `size_t` -/
abbrev Index := BitVec 64

/-- `LLAM_CLDEQUE_DISTANCE_SIGN_BIT` -/
def distanceSignBit : Index := BitVec.ofNat 64 (2 ^ 63)

/-- `llam_cldeque_distance_is_negative` -/
def distanceIsNegative (distance : Index) : Bool := decide (distance &&& distanceSignBit ≠ 0)

/-- What the static assertions say of `LLAM_NORM_QUEUE_CAP`. -/
structure Capacity where
  value : Nat
  powerOfTwo : ∃ k, value = 2 ^ k
  belowSignBit : value < 2 ^ 63

/-- `LLAM_NORM_QUEUE_CAP` -/
def normQueueCap : Capacity := ⟨4096, ⟨12, rfl⟩, by decide⟩

/-- The slot of an index: `index & (LLAM_NORM_QUEUE_CAP - 1U)`. -/
def slot (cap : Nat) (index : Index) : Nat := index.toNat &&& (cap - 1)

/-! ## State -/

/-- A task in a slot, with the number of its push and the position it was pushed to. -/
structure Entry (α : Type) where
  number : Nat
  position : Nat
  task : α
  deriving DecidableEq

/-- An entry as it is returned, with the position the operation consumed. -/
abbrev Taken (α : Type) := Nat × Entry α

/-- The next access of the owner. -/
inductive OwnerPc (α : Type)
  | idle
  | pushTop (task : α) (bottom : Index)
  | pushSlot (task : α) (bottom : Index)
  | pushBottom (bottom : Index) (entry : Entry α)
  | popStore (bottom : Index)
  | popTop (bottom : Index)
  | popEmpty (top : Index)
  | popSlot (bottom top : Index)
  | popCas (top : Index) (entry : Option (Entry α))
  | popFinish (top : Index) (result : Option (Taken α))
  deriving DecidableEq

/-- The next access of a thief; `seen` is the position that its load of `top` stands for. -/
inductive ThiefPc (α : Type)
  | idle
  | loadBottom (top : Index) (seen : Nat)
  | loadSlot (top : Index) (seen : Nat)
  | cas (top : Index) (seen : Nat) (entry : Entry α)
  deriving DecidableEq

structure State (T α : Type) where
  top : Index
  bottom : Index
  buffer : Nat → Option (Entry α)
  owner : OwnerPc α
  thieves : T → ThiefPc α
  topAt : Nat
  pushed : List (Entry α)
  returned : List (Taken α)

/-- An empty deque whose two indices have the same value (`llam_cldeque_init`, at the value 0). -/
def State.init (T α : Type) (start : Index) : State T α where
  top := start
  bottom := start
  buffer := fun _ => none
  owner := .idle
  thieves := fun _ => .idle
  topAt := start.toNat
  pushed := []
  returned := []

/-- The owner calls `push_bottom` or `pop_bottom`, or goes on; a thief calls `steal_top` or goes on. -/
inductive Action (T α : Type)
  | push (task : α)
  | pop
  | owner
  | thief (t : T)

section Steps

variable {T α : Type} [DecidableEq T] (cap : Nat)

/-- The position of an index that `top` has not passed. -/
def State.position (s : State T α) (index : Index) : Nat := s.topAt + (index - s.top).toNat

/-- Move `top` on by one. -/
def State.advance (s : State T α) : State T α := { s with top := s.top + 1, topAt := s.topAt + 1 }

/-- A call of the owner returns a task or NULL. -/
def State.finish (s : State T α) (result : Option (Taken α)) : State T α :=
  { s with owner := .idle, returned := s.returned ++ result.toList }

/-! ## The owner -/

/-- The distance test of `push_bottom`: the deque is full, or its distance is negative. -/
def refusesPush (bottom top : Index) : Bool :=
  distanceIsNegative (bottom - top) || decide (cap ≤ (bottom - top).toNat)

/-- `llam_cldeque_push_bottom` and `llam_cldeque_pop_bottom` after their first access. -/
def ownerStep (s : State T α) : Option (State T α) :=
  match s.owner with
  | .idle => none
  | .pushTop task bottom =>
    if refusesPush cap bottom s.top then some (s.finish none) else some { s with owner := .pushSlot task bottom }
  | .pushSlot task bottom =>
    let entry : Entry α := ⟨s.pushed.length, s.position bottom, task⟩
    some { s with
      buffer := update s.buffer (slot cap bottom) (some entry)
      owner := .pushBottom bottom entry }
  | .pushBottom bottom entry =>
    some { s with bottom := bottom + 1, pushed := s.pushed ++ [entry], owner := .idle }
  | .popStore bottom => some { s with bottom := bottom, owner := .popTop bottom }
  | .popTop bottom =>
    if distanceIsNegative (bottom - s.top) then some { s with owner := .popEmpty s.top }
    else some { s with owner := .popSlot bottom s.top }
  | .popEmpty top => some ({ s with bottom := top }.finish none)
  | .popSlot bottom top =>
    let entry := s.buffer (slot cap bottom)
    if bottom - top = 0 then some { s with owner := .popCas top entry }
    else some (s.finish (entry.map fun e => (s.position bottom, e)))
  | .popCas top entry =>
    -- the last item: whoever moves top owns it
    if s.top = top then some { s.advance with owner := .popFinish top (entry.map fun e => (s.topAt, e)) }
    else some { s with owner := .popFinish top none }
  | .popFinish top result => some ({ s with bottom := top + 1 }.finish result)

/-! ## The thieves -/

def State.setThief (s : State T α) (t : T) (pc : ThiefPc α) : State T α :=
  { s with thieves := update s.thieves t pc }

/-- `llam_cldeque_steal_top` -/
def thiefStep (s : State T α) (t : T) : State T α :=
  match s.thieves t with
  | .idle => s.setThief t (.loadBottom s.top s.topAt)
  | .loadBottom top seen =>
    if s.bottom - top = 0 ∨ distanceIsNegative (s.bottom - top) then s.setThief t .idle
    else s.setThief t (.loadSlot top seen)
  | .loadSlot top seen =>
    match s.buffer (slot cap top) with
    | none => s.setThief t .idle
    | some entry => s.setThief t (.cas top seen entry)
  | .cas top _ entry =>
    if s.top = top then { s.advance.setThief t .idle with returned := s.returned ++ [(s.topAt, entry)] }
    else s.setThief t .idle

def step (s : State T α) : Action T α → Option (State T α)
  | .push task =>
    match s.owner with
    | .idle => some { s with owner := .pushTop task s.bottom }
    | _ => none
  | .pop =>
    match s.owner with
    | .idle => some { s with owner := .popStore (s.bottom - 1) }
    | _ => none
  | .owner => ownerStep cap s
  | .thief t => some (thiefStep cap s t)

/-- Less than a whole turn of the index space has passed since the thief loaded `top`. -/
def withinTurn (s : State T α) : Action T α → Bool
  | .thief t =>
    match s.thieves t with
    | .cas _ seen _ => decide (s.topAt < seen + 2 ^ 64)
    | _ => true
  | _ => true

end Steps

end Llam.Deque
