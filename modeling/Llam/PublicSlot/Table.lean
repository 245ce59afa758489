import Llam.Basic
import Llam.PublicSlot.Seal

/-!
# The public slot table

`llam_public_slot_table_t` and its operations (`runtime_public_slot.h`): a growing array of slots with an intrusive free
list, `reserve`, `reactivate`, `release` and `resolve`. One table serves one object family (`Config.family`); family 0 is
the plain generation counter.

The entropy behind the table key, the growth allocations that fail and the caller's arguments are inputs of the
operations (`Op`). A `void *` object is an element of `Obj`, and `none` is the null pointer: every caller of `release`
passes the object it registered, so its argument is never null. `step` performs one operation and also returns the
handle it issued, if any.
-/

namespace Llam.PublicSlot

variable {Obj : Type}

/-! ## Data -/

/-- `llam_public_slot_t`. -/
structure Slot (Obj : Type) where
  object : Option Obj
  generation : Nat
  epoch : Nat
  sealMultiplier : Nat
  sealAddend : Nat
  nextFreePlusOne : Nat

/-- A slot as `memset` leaves it. -/
def Slot.zero : Slot Obj := ⟨none, 0, 0, 0, 0, 0⟩

/-- `llam_public_slot_table_t`. -/
structure Table (Obj : Type) where
  slots : Nat → Slot Obj
  count : Nat
  capacity : Nat
  freeHeadPlusOne : Nat
  handleSecret : UInt64

/-- A zero-initialised table. -/
def Table.empty : Table Obj := ⟨fun _ => Slot.zero, 0, 0, 0, 0⟩

/-- What is fixed for a table: its family and its address, which is mixed into the seals. -/
structure Config where
  family : Nat
  address : UInt64

/-- A public handle before encoding: slot index and generation. -/
structure Handle where
  slot : Nat
  generation : Nat
  deriving DecidableEq, Repr

variable (cfg : Config) (t : Table Obj) (slot : Nat)

/-- Write one slot. -/
def Table.set (entry : Slot Obj) : Table Obj :=
  { t with slots := Function.update t.slots slot entry }

/-! ## Activating a slot -/

/-- `llam_public_slot_table_secret`; `entropy` is the value the operating system and the fallback source give. -/
def tableSecret (entropy : UInt64) : UInt64 :=
  if t.handleSecret ≠ 0 then t.handleSecret
  else
    let secret := mix64 entropy
    if secret = 0 then 0xa0761d6478bd642f else secret

/-- `llam_public_slot_prepare_affine_seal`. -/
def prepareAffineSeal (entropy : UInt64) : Table Obj :=
  let entry := t.slots slot
  if entry.sealMultiplier ≠ 0 then t
  else
    let key := tableSecret t entropy
    let seed := key ^^^ mix64 ((UInt64.ofNat (slot + 1) <<< 32) ^^^ cfg.address)
    { t.set slot { entry with
        sealMultiplier := chooseAffineMultiplier seed
        sealAddend := (mix64 (seed ^^^ 0xa0761d6478bd642f)).toNat % maxEpoch } with
      handleSecret := key }

/-- The `while` loop of `llam_public_slot_refresh_family_generation`, for at most as many rounds as epochs are left. -/
def refreshLoop (family previousGeneration : Nat) : Nat → Slot Obj → Slot Obj × Option Errno
  | 0, entry => (entry, some .EOVERFLOW)
  | fuel + 1, entry =>
    let entry := { entry with
      epoch := entry.epoch + 1
      generation := nextAffineGeneration previousGeneration family entry.sealMultiplier entry.sealAddend }
    if entry.generation ≠ previousGeneration then (entry, none)
    else refreshLoop family previousGeneration fuel entry

/-- `llam_public_slot_refresh_family_generation`. -/
def refreshFamilyGeneration (entropy : UInt64) : Table Obj × Option Errno :=
  if !familyValid cfg.family then (t, some .EINVAL)
  else
    let previousGeneration := (t.slots slot).generation
    let t := prepareAffineSeal cfg t slot entropy
    let entry := t.slots slot
    if !affineMultiplierValid entry.sealMultiplier || maxEpoch ≤ entry.sealAddend then (t, some .EINVAL)
    else
      let r := refreshLoop cfg.family previousGeneration (maxEpoch - entry.epoch) entry
      (t.set slot r.1, r.2)

/-- No epoch (for family 0: no generation) is left in the slot. -/
def exhausted (entry : Slot Obj) : Bool :=
  if cfg.family ≠ 0 then maxEpoch ≤ entry.epoch else entry.generation = maxGeneration

/-- Give a slot that has been active before its next generation. -/
def advance (entropy : UInt64) : Table Obj × Option Errno :=
  if cfg.family ≠ 0 then refreshFamilyGeneration cfg t slot entropy
  else
    let entry := t.slots slot
    let generation := nextGeneration entry.generation
    (t.set slot { entry with generation := generation, epoch := generation, sealMultiplier := 0, sealAddend := 0 }, none)

/-! ## Operations -/

/-- Write the object of a slot. -/
def Table.setObject (object : Option Obj) : Table Obj :=
  t.set slot { t.slots slot with object := object }

/-- Unlink the slot at the head of the free list. -/
def Table.popFree : Table Obj :=
  let slot := t.freeHeadPlusOne - 1
  let entry := t.slots slot
  { t.set slot { entry with nextFreePlusOne := 0 } with freeHeadPlusOne := entry.nextFreePlusOne }

/-- The `while` loop of `llam_public_slot_reserve_impl`: the first free slot that can still be activated. Slots that
cannot are dropped from the list for good. -/
def reserveFree (cfg : Config) (object : Obj) (entropy : UInt64) : Nat → Table Obj → Table Obj × Option Handle
  | 0, t => (t, none)
  | fuel + 1, t =>
    if t.freeHeadPlusOne = 0 then (t, none)
    else
      let slot := t.freeHeadPlusOne - 1
      let t := t.popFree
      if exhausted cfg (t.slots slot) then reserveFree cfg object entropy fuel (t.setObject slot none)
      else
        let r := advance cfg t slot entropy
        if r.2.isSome then reserveFree cfg object entropy fuel (r.1.setObject slot none)
        else
          let t := r.1.setObject slot (some object)
          (t, some ⟨slot, (t.slots slot).generation⟩)

/-- `LLAM_PUBLIC_HANDLE_MAX_SLOTS`. -/
def maxSlots : Nat := 4294967295

/-- `SIZE_MAX / sizeof(llam_public_slot_t)`: slots are 32 bytes. -/
def maxAllocSlots : Nat := sizeMax / 32

/-- Make room for one more slot. `allocOk` says whether `realloc` succeeds. -/
def grow (initialCapacity : Nat) (allocOk : Bool) : Except Errno (Table Obj) :=
  if t.count = t.capacity then
    let newCapacity := if t.capacity ≠ 0 then t.capacity * 2 else initialCapacity
    let newCapacity := if newCapacity = 0 then 64 else newCapacity
    let newCapacity := if maxSlots < newCapacity then maxSlots else newCapacity
    if newCapacity < t.count || maxAllocSlots < newCapacity then .error .ENOMEM
    else if !allocOk then .error .ENOMEM
    else .ok { t with
      slots := fun i => if t.capacity ≤ i ∧ i < newCapacity then Slot.zero else t.slots i
      capacity := newCapacity }
  else .ok t

/-- Take the slot behind the used ones into use. -/
def Table.pushSlot (object : Obj) : Table Obj :=
  { t.set t.count { t.slots t.count with
      object := some object
      epoch := if cfg.family ≠ 0 then 0 else 1
      sealMultiplier := 0
      sealAddend := 0 } with count := t.count + 1 }

/-- Give a slot that was never active its first generation. -/
def activateNew (entropy : UInt64) : Table Obj × Option Errno :=
  if cfg.family ≠ 0 then refreshFamilyGeneration cfg t slot entropy
  else (t.set slot { t.slots slot with generation := 1 }, none)

/-- The tail of `llam_public_slot_reserve_impl`: activate a slot that was never used. -/
def reserveNew (object : Obj) (initialCapacity : Nat) (allocOk : Bool)
    (entropy : UInt64) : Table Obj × Except Errno Handle :=
  if maxSlots ≤ t.count then (t, .error .ENOMEM)
  else match grow t initialCapacity allocOk with
    | .error e => (t, .error e)
    | .ok t =>
      let slot := t.count
      match activateNew cfg (t.pushSlot cfg object) slot entropy with
      | (t, some e) => (t.setObject slot none, .error e)
      | (t, none) =>
        let t := t.set slot { t.slots slot with nextFreePlusOne := 0 }
        (t, .ok ⟨slot, (t.slots slot).generation⟩)

/-- `llam_public_slot_reserve_impl`. -/
def reserve (object : Obj) (initialCapacity : Nat) (allocOk : Bool)
    (entropy : UInt64) : Table Obj × Except Errno Handle :=
  if cfg.family ≠ 0 && !familyValid cfg.family then (t, .error .EINVAL)
  else match reserveFree cfg object entropy (t.count + 1) t with
    | (t, some h) => (t, .ok h)
    | (t, none) => reserveNew cfg t object initialCapacity allocOk entropy

/-- `llam_public_slot_resolve`. -/
def resolve (h : Handle) : Option Obj :=
  if h.generation = 0 || t.count ≤ h.slot then none
  else
    let entry := t.slots h.slot
    if entry.generation = h.generation then entry.object else none

variable [DecidableEq Obj]

/-- `llam_public_slot_reactivate_impl`. -/
def reactivate (object : Obj) (entropy : UInt64) : Table Obj × Except Errno Handle :=
  if t.count ≤ slot || (cfg.family ≠ 0 && !familyValid cfg.family) then (t, .error .EINVAL)
  else if (t.slots slot).object ≠ some object then (t, .error .EINVAL)
  else if exhausted cfg (t.slots slot) then (t, .error .EOVERFLOW)
  else match advance cfg t slot entropy with
    | (t, some e) => (t, .error e)
    | (t, none) => (t, .ok ⟨slot, (t.slots slot).generation⟩)

/-- `llam_public_slot_release`. -/
def release (object : Obj) (generation : Nat) : Table Obj :=
  if t.count ≤ slot then t
  else
    let entry := t.slots slot
    if entry.object ≠ some object || entry.generation ≠ generation then t
    else
      { t.set slot { entry with object := none, nextFreePlusOne := t.freeHeadPlusOne } with
        freeHeadPlusOne := slot + 1 }

/-! ## Runs -/

/-- One operation with its arguments and its environment. -/
inductive Op (Obj : Type)
  | reserve (object : Obj) (initialCapacity : Nat) (allocOk : Bool) (entropy : UInt64)
  | reactivate (slot : Nat) (object : Obj) (entropy : UInt64)
  | release (slot : Nat) (object : Obj) (generation : Nat)

/-- A handle together with the object it was issued for. -/
abbrev Issue (Obj : Type) := Handle × Obj

/-- Perform one operation: the new table, and the handle issued when a `reserve` or `reactivate` succeeds. -/
def step : Op Obj → Table Obj × Option (Issue Obj)
  | .reserve object initialCapacity allocOk entropy =>
    let r := reserve cfg t object initialCapacity allocOk entropy
    (r.1, r.2.toOption.map fun h => (h, object))
  | .reactivate slot object entropy =>
    let r := reactivate cfg t slot object entropy
    (r.1, r.2.toOption.map fun h => (h, object))
  | .release slot object generation => (release t slot object generation, none)

/-- The table after a sequence of operations. -/
def after (cfg : Config) : Table Obj → List (Op Obj) → Table Obj
  | t, [] => t
  | t, op :: ops => after cfg (step cfg t op).1 ops

/-- The handles issued along a sequence of operations, in order. -/
def issues (cfg : Config) : Table Obj → List (Op Obj) → List (Issue Obj)
  | _, [] => []
  | t, op :: ops => (step cfg t op).2.toList ++ issues cfg (step cfg t op).1 ops

/-- The operation releases or reactivates the object behind `h`: it is the release of exactly that slot, object and
generation, or a reactivation of its slot that succeeds. -/
def Ends (op : Op Obj) (i : Issue Obj) : Prop :=
  match op with
  | .reserve .. => False
  | .reactivate slot _ _ => slot = i.1.slot ∧ (step cfg t op).2.isSome = true
  | .release slot object generation => slot = i.1.slot ∧ object = i.2 ∧ generation = i.1.generation

/-- Some operation of the sequence releases or reactivates the object behind `h`. -/
def EndsIn (cfg : Config) : Table Obj → List (Op Obj) → Issue Obj → Prop
  | _, [], _ => False
  | t, op :: ops, i => Ends cfg t op i ∨ EndsIn cfg (step cfg t op).1 ops i

end Llam.PublicSlot
