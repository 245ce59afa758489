import Llam.Basic
import Llam.Lib.Heap
import Llam.Lib.Run

/-!
# The timer heap of a processor

`core/time/timer_heap.c`. A processor keeps its armed timers in an array that is a heap of arity four by deadline, and
every timer node carries its index in the array. The heap is changed under the shard's lock, so that an operation is one
step. `timer_heap_contract` says what holds after every sequence of operations, and that popping the heap until it is
empty gives the deadlines in order.
-/

namespace Llam.Timer

open Llam.Lib Function

/-! ## Memory -/

/-- Addresses; `NULL` is 0. -/
abbrev Ptr := Nat

def NULL : Ptr := 0

inductive TaskState
  | NEW | RUNNABLE | RUNNING | PARKED | BLOCKED_OPAQUE | DEAD
  deriving DecidableEq

/-- `llam_wait_reason_t` -/
inductive WaitReason
  | NONE | YIELD | JOIN | SLEEP | BLOCKING | IOWAIT | CANCEL | MUTEX | COND | CHANNEL_SEND | CHANNEL_RECV | TIMEOUT
  deriving DecidableEq

/-- The fields of `llam_timer_node_t` that are set when the timer is armed -/
structure Node where
  ownerRuntime : Ptr
  ownerShard : Nat
  task : Ptr
  selectState : Ptr
  waitLifetimeOps : Ptr
  deadlineNs : UInt64
  waitGeneration : UInt64
  deriving DecidableEq

/-- The fields of `llam_task_t` that timers read and write; `resolverRefs` and `resolverClosed` are the parts of
`wait_resolver_state`, and `NULL` heap shards are `none`. -/
structure Task where
  id : UInt64
  ownerRuntime : Ptr
  state : TaskState
  waitReason : WaitReason
  waitGeneration : UInt64
  parkedShard : Nat
  homeShard : Nat
  deadlineNs : UInt64
  activeTimer : Ptr
  activeTimerHeapShard : Option Nat
  pinned : Bool
  activeSelectState : Ptr
  activeWaitLifetimeOps : Ptr
  resolverRefs : Nat
  resolverClosed : Bool
  scanRefs : Nat
  deriving DecidableEq

/-- The nodes and tasks. `next` and `heapIndex` are the fields of a node that change while it is armed. -/
structure Memory where
  node : Ptr → Node
  next : Ptr → Ptr
  heapIndex : Ptr → Nat
  task : Ptr → Task

/-- The timer fields of `llam_processor_t` -/
structure Processor where
  heap : Nat → Ptr
  len : Nat
  cap : Nat
  timers : Ptr
  count : Nat

/-- `LLAM_TIMER_HEAP_ARITY` -/
def ARITY : Nat := 4

/-- `SIZE_MAX / sizeof(llam_timer_node_t *)` -/
def maxItems : Nat := sizeMax / 8

variable (m : Memory) (p : Processor)

/-- `llam_timer_heap_less` -/
def Memory.less (lhs rhs : Ptr) : Bool :=
  if (m.node lhs).deadlineNs ≠ (m.node rhs).deadlineNs then (m.node lhs).deadlineNs < (m.node rhs).deadlineNs
  else if (m.node lhs).task = NULL ∨ (m.node rhs).task = NULL then lhs < rhs
  else (m.task (m.node lhs).task).id < (m.task (m.node rhs).task).id

def Memory.deadline (node : Ptr) : UInt64 := (m.node node).deadlineNs

/-! ## Operations -/

/-- The array with the heap indices of its nodes. -/
def slots : Slots Ptr := ⟨p.heap, p.len, m.heapIndex⟩

def Memory.withIndex (s : Slots Ptr) : Memory := { m with heapIndex := s.pos }

/-- `llam_timer_heap_refresh_root` -/
def Processor.refreshRoot : Processor := { p with timers := if p.len > 0 then p.heap 0 else NULL }

def Processor.withArray (s : Slots Ptr) : Processor := { p with heap := s.item, len := s.len }

/-- The loop of `llam_timer_heap_reserve`, which doubles until there is room -/
def growCap (needed : Nat) : Nat → Nat → Nat
  | 0, newCap => newCap
  | rounds + 1, newCap =>
    if newCap < needed then
      if newCap > maxItems / 2 then needed else growCap needed rounds (newCap * 2)
    else newCap

/-- The capacity that `llam_timer_heap_reserve` asks for -/
def Processor.newCap (needed : Nat) : Nat :=
  growCap needed needed (if p.cap = 0 then 64 else if p.cap > maxItems / 2 then needed else p.cap * 2)

/-- `llam_timer_heap_reserve`; `allocated` says whether `realloc` finds memory -/
def Processor.reserve (needed : Nat) (allocated : Bool) : Option Processor :=
  if needed > maxItems ∨ p.cap > maxItems then none
  else if needed ≤ p.cap then some p
  else if p.newCap needed > maxItems then none
  else if !allocated then none
  else some { p with cap := p.newCap needed }

/-- `llam_timer_count_decrement` -/
def Processor.decrement : Processor := { p with count := p.count - 1 }

/-- `llam_timer_heap_push_locked` -/
def pushLocked (node : Ptr) (allocated : Bool) : Memory × Processor × Option Errno :=
  if p.len ≥ maxItems then (m, p, some .ENOMEM)
  else
    match p.reserve (p.len + 1) allocated with
    | none => (m, p, some .ENOMEM)
    | some p =>
      if p.count = uintMax then (m, p, some .EOVERFLOW)
      else
        let s := (slots m p).push m.less ARITY node
        (m.withIndex s, ({ p with count := p.count + 1 }.withArray s).refreshRoot, none)

/-- `llam_timer_heap_remove_at_locked`; the result is the removed node or `NULL` -/
def removeAtLocked (index : Nat) : Memory × Processor × Ptr :=
  if index ≥ p.len then (m, p, NULL)
  else
    let node := p.heap index
    let s := (slots m p).fill m.less ARITY index
    let m := { m.withIndex s with heapIndex := update s.pos node 0 }
    let p := p.withArray { s with item := update s.item s.len NULL }
    (m, p.refreshRoot.decrement, node)

/-- `llam_timer_heap_pop_min_locked` -/
def popMinLocked : Memory × Processor × Ptr := removeAtLocked m p 0

/-- The armed timers of a processor. -/
def Processor.armed : List Ptr := (List.range p.len).map p.heap

/-! ## One operation -/

section operations

variable {m : Memory} {p p' : Processor} {node : Ptr} {index : Nat} {allocated : Bool}

theorem less_compares (m : Memory) : Slots.Compares m.less m.deadline := by
  constructor
  · intro x y h
    unfold Memory.less at h
    split at h
    · exact Std.le_of_lt (of_decide_eq_true h)
    · rename_i heq
      exact Std.le_of_eq (not_not.mp heq)
  · intro x y h
    unfold Memory.less at h
    split at h
    · exact Std.not_lt.mp (of_decide_eq_false h)
    · rename_i heq
      exact Std.le_of_eq (not_not.mp heq).symm

/-- A valid heap of a processor: the array is a min-heap by deadline, the nodes know their indices, and `timers`,
`timer_count` and the capacity agree with the array. -/
structure Valid (m : Memory) (p : Processor) : Prop where
  ordered : Slots.Ordered ARITY m.deadline (slots m p)
  indexed : (slots m p).Indexed
  count : p.count = p.len
  root : p.timers = if p.len > 0 then p.heap 0 else NULL
  fits : p.len ≤ p.cap

theorem le_growCap (needed : Nat) : ∀ rounds newCap, 0 < newCap → needed ≤ rounds + newCap →
    needed ≤ growCap needed rounds newCap := by
  intro rounds
  induction rounds with
  | zero =>
    intro newCap _ h
    simpa [growCap] using h
  | succ rounds ih =>
    intro newCap hpos h
    rw [growCap]
    split
    · split
      · exact Nat.le_refl _
      · exact ih _ (by omega) (by omega)
    · omega

theorem le_newCap {needed : Nat} (h : 0 < needed) : needed ≤ p.newCap needed := by
  apply le_growCap
  · split
    · decide
    split
    · exact h
    · omega
  · omega

/-- Reserving changes nothing but the capacity, which is large enough then. -/
theorem reserve_some {needed : Nat} (h : p.reserve needed allocated = some p') :
    ∃ cap, p' = { p with cap := cap } ∧ needed ≤ cap := by
  unfold Processor.reserve at h
  split at h
  · cases h
  split at h
  · rename_i hle
    exact ⟨p.cap, (Option.some.inj h).symm, hle⟩
  split at h
  · cases h
  split at h
  · cases h
  · exact ⟨p.newCap needed, (Option.some.inj h).symm, le_newCap (by omega)⟩

theorem Valid.withCap {cap : Nat} (h : Valid m p) (hcap : p.len ≤ cap) : Valid m { p with cap := cap } :=
  ⟨h.ordered, h.indexed, h.count, h.root, hcap⟩

/-- What a push does: it fails and changes the capacity at most, or it adds the node. -/
theorem pushLocked_cases (m : Memory) (p : Processor) (node : Ptr) (allocated : Bool) :
    (∃ cap e, (cap = p.cap ∨ p.len ≤ cap) ∧ pushLocked m p node allocated = (m, { p with cap := cap }, some e)) ∨
    ∃ cap, p.len + 1 ≤ cap ∧ pushLocked m p node allocated =
      (m.withIndex ((slots m p).push m.less ARITY node),
        ({ p with cap := cap, count := p.count + 1 }.withArray ((slots m p).push m.less ARITY node)).refreshRoot,
        none) := by
  unfold pushLocked
  split
  · exact .inl ⟨p.cap, _, .inl rfl, rfl⟩
  split
  · exact .inl ⟨p.cap, _, .inl rfl, rfl⟩
  rename_i hreserve
  obtain ⟨cap, rfl, hcap⟩ := reserve_some hreserve
  split
  · exact .inl ⟨cap, _, .inr (by omega), rfl⟩
  · exact .inr ⟨cap, hcap, rfl⟩

/-- A push of a node that is not armed keeps the heap valid, and adds the node if it succeeds. -/
theorem pushLocked_spec (h : Valid m p) (hnode : node ∉ p.armed) (allocated : Bool) :
    Valid (pushLocked m p node allocated).1 (pushLocked m p node allocated).2.1 ∧
    (pushLocked m p node allocated).2.1.armed.Perm
      (if (pushLocked m p node allocated).2.2 = none then node :: p.armed else p.armed) := by
  rcases pushLocked_cases m p node allocated with ⟨cap, e, hcap, heq⟩ | ⟨cap, hcap, heq⟩
  · rw [heq]
    refine ⟨h.withCap ?_, .refl _⟩
    rcases hcap with rfl | hcap
    · exact h.fits
    · exact hcap
  · rw [heq, if_pos rfl]
    have hmoves : Slots.Rearranges ((slots m p).append node) ((slots m p).push m.less ARITY node) := Slots.push_rearranges
    have hlen : ((slots m p).push m.less ARITY node).len = p.len + 1 := hmoves.len
    refine ⟨⟨Slots.push_ordered (less_compares m) h.ordered, hmoves.indexed (Slots.append_indexed h.indexed hnode), ?_,
      rfl, ?_⟩, ?_⟩
    · rw [h.count]
      exact hlen.symm
    · show ((slots m p).push m.less ARITY node).len ≤ cap
      rw [hlen]
      exact hcap
    · have hperm : ((slots m p).push m.less ARITY node).toList.Perm (p.armed ++ [node]) := by
        have happend : ((slots m p).append node).toList = p.armed ++ [node] := Slots.append_toList
        rw [← happend]
        exact hmoves.perm
      exact hperm.trans (List.perm_append_singleton _ _)

/-- An array that is stored after a removal: the cell behind it is cleared, and the removed node is told index 0. -/
theorem Valid.cleared {s : Slots Ptr} (hordered : Slots.Ordered ARITY m.deadline s) (hindexed : s.Indexed)
    (hnode : node ∉ s.toList) (hcount : p.count = s.len + 1) (hcap : s.len ≤ p.cap) :
    Valid { m with heapIndex := update s.pos node 0 }
      (p.withArray { s with item := update s.item s.len NULL }).refreshRoot.decrement := by
  have hitem : ∀ i, i < s.len → update s.item s.len NULL i = s.item i :=
    fun i hi => update_of_ne (Nat.ne_of_lt hi) _ _
  refine ⟨?_, ?_, Nat.sub_eq_of_eq_add hcount, rfl, hcap⟩
  · intro j hj hjl hlow
    have hjlt : j < s.len := hjl
    have hparent := Slots.parent_lt ARITY hj
    show m.deadline (update s.item s.len NULL _) ≤ m.deadline (update s.item s.len NULL _)
    rw [hitem j hjlt, hitem _ (Nat.lt_trans hparent hjlt)]
    exact hordered j hj hjl hlow
  · intro i hi
    have hilt : i < s.len := hi
    have hne : s.item i ≠ node := fun heq => hnode (Slots.mem_toList.mpr ⟨i, hilt, heq⟩)
    show update s.pos node 0 (update s.item s.len NULL i) = i
    rw [hitem i hilt, update_of_ne hne]
    exact hindexed i hilt

/-- Removing keeps the heap valid, and takes the node at the index away. -/
theorem removeAtLocked_spec (index : Nat) (h : Valid m p) (hindex : index < p.len) :
    Valid (removeAtLocked m p index).1 (removeAtLocked m p index).2.1 ∧
    (removeAtLocked m p index).2.2 = p.heap index ∧
    (p.heap index :: (removeAtLocked m p index).2.1.armed).Perm p.armed := by
  have hlen : ((slots m p).fill m.less ARITY index).len + 1 = p.len := Slots.fill_len hindex
  have hperm : (p.heap index :: ((slots m p).fill m.less ARITY index).toList).Perm p.armed :=
    Slots.fill_perm (s := slots m p) hindex
  have hordered : Slots.Ordered ARITY m.deadline ((slots m p).fill m.less ARITY index) :=
    Slots.fill_ordered (less_compares m) (by decide) h.ordered hindex
  have hindexed : ((slots m p).fill m.less ARITY index).Indexed := Slots.fill_indexed h.indexed hindex
  have hnot : p.heap index ∉ ((slots m p).fill m.less ARITY index).toList :=
    (List.nodup_cons.mp (hperm.nodup_iff.mpr h.indexed.nodup)).1
  unfold removeAtLocked
  rw [if_neg (Nat.not_le.mpr hindex)]
  generalize (slots m p).fill m.less ARITY index = s at *
  have hcount : p.count = s.len + 1 := by rw [h.count, hlen]
  have hcap : s.len ≤ p.cap := Nat.le_trans (by omega) h.fits
  have harmed : (List.range s.len).map (update s.item s.len NULL) = s.toList := by
    apply List.map_congr_left
    intro i hi
    exact update_of_ne (Nat.ne_of_lt (List.mem_range.mp hi)) _ _
  refine ⟨Valid.cleared hordered hindexed hnot hcount hcap, rfl, ?_⟩
  · show (p.heap index :: (List.range s.len).map (update s.item s.len NULL)).Perm p.armed
    rw [harmed]
    exact hperm

theorem popMinLocked_le (h : Valid m p) (hlen : 0 < p.len) :
    ∀ x ∈ p.armed, m.deadline (popMinLocked m p).2.2 ≤ m.deadline x := by
  intro x hx
  obtain ⟨i, hi, rfl⟩ := List.mem_map.mp hx
  rw [popMinLocked, (removeAtLocked_spec 0 h hlen).2.1]
  exact h.ordered.root_le i (List.mem_range.mp hi)

theorem removeAtLocked_node (m : Memory) (p : Processor) (index : Nat) : (removeAtLocked m p index).1.node = m.node := by
  unfold removeAtLocked
  split <;> rfl

end operations

/-! ## Popping until the heap is empty -/

/-- The deadlines of the timers that are popped while there are any, and the processor after that. -/
def drain : Nat → Memory → Processor → List UInt64 × Processor
  | 0, _, p => ([], p)
  | n + 1, m, p =>
    if p.len = 0 then ([], p)
    else
      let (m', p', node) := popMinLocked m p
      let (deadlines, p'') := drain n m' p'
      (m.deadline node :: deadlines, p'')

/-- **Popping gives the deadlines in order**: all of them, and no later than anything that bounds them from below. -/
theorem drain_spec : ∀ (n : Nat) (m : Memory) (p : Processor), Valid m p → p.len ≤ n →
    (drain n m p).2.len = 0 ∧ (drain n m p).1.Perm (p.armed.map m.deadline) ∧ (drain n m p).1.Pairwise (· ≤ ·) := by
  intro n
  induction n with
  | zero =>
    intro m p _ hlen
    have hzero : p.len = 0 := by omega
    simp [drain, Processor.armed, hzero]
  | succ n ih =>
    intro m p h hlen
    rw [drain]
    split
    · rename_i hzero
      simp [Processor.armed, hzero]
    obtain ⟨hvalid, hnode, hperm⟩ := removeAtLocked_spec 0 h (by omega)
    have hmin := popMinLocked_le h (by omega)
    have hmem := removeAtLocked_node m p 0
    have hlength : (removeAtLocked m p 0).2.1.len + 1 = p.len := by
      simpa [Processor.armed] using hperm.length_eq
    rw [popMinLocked] at hmin ⊢
    generalize removeAtLocked m p 0 = r at *
    obtain ⟨m', p', node⟩ := r
    dsimp only at *
    subst hnode
    have hdeadline : m'.deadline = m.deadline := by
      funext x
      rw [Memory.deadline, hmem, Memory.deadline]
    obtain ⟨hempty, hall, hsorted⟩ := ih m' p' hvalid (by omega)
    rw [hdeadline] at hall
    refine ⟨hempty, ?_, ?_⟩
    · exact (hall.cons _).trans (hperm.map m.deadline)
    · refine List.pairwise_cons.mpr ⟨?_, hsorted⟩
      intro d hd
      obtain ⟨x, hx, rfl⟩ := List.mem_map.mp (hall.mem_iff.mp hd)
      exact hmin x (hperm.mem_iff.mp (List.mem_cons_of_mem _ hx))

/-! ## Sequences of operations -/

/-- A processor with its memory; the pushes and the removals are history. -/
structure State where
  mem : Memory
  proc : Processor
  pushes : List Ptr
  removals : List Ptr

inductive Action
  /-- A timer is armed: its fields are written and it is pushed. -/
  | push (node : Ptr) (fields : Node) (allocated : Bool)
  | removeAt (index : Nat)
  | popMin
  /-- Something else writes to a task. -/
  | task (task : Ptr) (fields : Task)

/-- The processor of a runtime that starts. -/
def State.init : State := ⟨m, ⟨fun _ => NULL, 0, 0, NULL, 0⟩, [], []⟩

/-- The state after a removal; nothing was removed if the node is `NULL`. -/
def State.removed (s : State) (r : Memory × Processor × Ptr) : State :=
  { s with
    mem := r.1
    proc := r.2.1
    removals := if r.2.2 = NULL then s.removals else r.2.2 :: s.removals }

/-- One operation. A timer is armed with a node from the allocator, which is not armed already. -/
def step (s : State) : Action → Option State
  | .push node fields allocated =>
    if node = NULL ∨ node ∈ s.proc.armed then none
    else
      let r := pushLocked { s.mem with node := update s.mem.node node fields } s.proc node allocated
      some { s with
        mem := r.1
        proc := r.2.1
        pushes := if r.2.2 = none then node :: s.pushes else s.pushes }
  | .removeAt index => some (s.removed (removeAtLocked s.mem s.proc index))
  | .popMin => some (s.removed (popMinLocked s.mem s.proc))
  | .task task fields => some { s with mem := { s.mem with task := update s.mem.task task fields } }

/-- The heap is valid, and its timers are those that were pushed and not removed. -/
structure Inv (s : State) : Prop where
  valid : Valid s.mem s.proc
  nonnull : NULL ∉ s.proc.armed
  balance : s.pushes.Perm (s.proc.armed ++ s.removals)

theorem init_inv (m : Memory) : Inv (State.init m) := by
  refine ⟨⟨?_, ?_, rfl, rfl, Nat.le_refl _⟩, List.not_mem_nil, .refl _⟩
  · intro j _ hj
    exact absurd hj (Nat.not_lt_zero j)
  · intro i hi
    exact absurd hi (Nat.not_lt_zero i)

theorem Valid.node {m : Memory} {p : Processor} {node : Ptr} (h : Valid m p) (hnode : node ∉ p.armed) (fields : Node) :
    Valid { m with node := update m.node node fields } p := by
  refine ⟨?_, h.indexed, h.count, h.root, h.fits⟩
  have hsame : ∀ i, i < p.len → update m.node node fields (p.heap i) = m.node (p.heap i) := by
    intro i hi
    apply update_of_ne
    intro heq
    exact hnode (List.mem_map.mpr ⟨i, List.mem_range.mpr hi, heq⟩)
  intro j hj hjl hlow
  have hparent := Slots.parent_lt ARITY hj
  show (update m.node node fields (p.heap _)).deadlineNs ≤ (update m.node node fields (p.heap _)).deadlineNs
  rw [hsame j hjl, hsame _ (Nat.lt_trans hparent hjl)]
  exact h.ordered j hj hjl hlow

theorem Inv.removed {s : State} (h : Inv s) (index : Nat) : Inv (s.removed (removeAtLocked s.mem s.proc index)) := by
  by_cases hindex : index < s.proc.len
  · obtain ⟨hvalid, hnode, hperm⟩ := removeAtLocked_spec index h.valid hindex
    have hne : s.proc.heap index ≠ NULL := by
      intro heq
      apply h.nonnull
      rw [← heq]
      exact List.mem_map.mpr ⟨index, List.mem_range.mpr hindex, rfl⟩
    refine ⟨hvalid, ?_, ?_⟩
    · intro hmem
      exact h.nonnull (hperm.mem_iff.mp (List.mem_cons_of_mem _ hmem))
    · show s.pushes.Perm ((removeAtLocked s.mem s.proc index).2.1.armed ++
        if (removeAtLocked s.mem s.proc index).2.2 = NULL then s.removals
        else (removeAtLocked s.mem s.proc index).2.2 :: s.removals)
      rw [hnode, if_neg hne]
      have hsplit : (s.proc.armed ++ s.removals).Perm
          (s.proc.heap index :: ((removeAtLocked s.mem s.proc index).2.1.armed ++ s.removals)) :=
        hperm.symm.append_right _
      exact (h.balance.trans hsplit).trans List.perm_middle.symm
  · have hnone : removeAtLocked s.mem s.proc index = (s.mem, s.proc, NULL) := if_pos (Nat.le_of_not_lt hindex)
    rw [hnone]
    exact h

theorem step_inv (s : State) (a : Action) (s' : State) (h : Inv s) (hs : step s a = some s') : Inv s' := by
  cases a with
  | push node fields allocated =>
    simp only [step] at hs
    split at hs
    · cases hs
    rename_i hguard
    rw [not_or] at hguard
    obtain ⟨hnull, hnode⟩ := hguard
    cases hs
    obtain ⟨hvalid, hperm⟩ := pushLocked_spec (h.valid.node hnode fields) hnode allocated
    refine ⟨hvalid, ?_, ?_⟩
    · intro hmem
      have hmem' := hperm.mem_iff.mp hmem
      split at hmem'
      · rcases List.mem_cons.mp hmem' with heq | hold
        · exact hnull heq.symm
        · exact h.nonnull hold
      · exact h.nonnull hmem'
    · split at hperm
      · rename_i hok
        rw [if_pos hok]
        exact (h.balance.cons node).trans (hperm.symm.append_right _)
      · rename_i hfail
        rw [if_neg hfail]
        exact h.balance.trans (hperm.symm.append_right _)
  | removeAt index =>
    cases hs
    exact h.removed index
  | popMin =>
    cases hs
    exact h.removed 0
  | task task fields =>
    cases hs
    exact ⟨⟨h.valid.ordered, h.valid.indexed, h.valid.count, h.valid.root, h.valid.fits⟩, h.nonnull, h.balance⟩

/-- **The timer heap**, after every sequence of operations on an empty heap. -/
theorem timer_heap_contract (m : Memory) (s : State) (h : Reachable step (State.init m) s) :
    (∀ i, 0 < i → i < s.proc.len → s.mem.deadline (s.proc.heap ((i - 1) / 4)) ≤ s.mem.deadline (s.proc.heap i)) ∧
    (∀ i, i < s.proc.len → s.mem.heapIndex (s.proc.heap i) = i) ∧
    s.proc.count = s.proc.len ∧
    (s.proc.armed : Multiset Ptr) = (s.pushes : Multiset Ptr) - (s.removals : Multiset Ptr) ∧
    (drain s.proc.len s.mem s.proc).2.len = 0 ∧
    (drain s.proc.len s.mem s.proc).1.Perm (s.proc.armed.map s.mem.deadline) ∧
    (drain s.proc.len s.mem s.proc).1.Pairwise (· ≤ ·) := by
  have hinv : Inv s := h.induction (init_inv m) step_inv
  refine ⟨fun i hi hlen => hinv.valid.ordered i hi hlen (Nat.zero_le _), hinv.valid.indexed, hinv.valid.count, ?_,
    drain_spec _ _ _ hinv.valid (Nat.le_refl _)⟩
  have hbalance : (s.pushes : Multiset Ptr) = s.proc.armed + s.removals := Multiset.coe_eq_coe.mpr hinv.balance
  rw [hbalance, Multiset.add_sub_cancel_right]

/-- Memory in which nothing is armed. -/
def Memory.blank : Memory where
  node _ := ⟨NULL, 0, NULL, NULL, NULL, 0, 0⟩
  next _ := NULL
  heapIndex _ := 0
  task _ := ⟨0, NULL, .NEW, .NONE, 0, 0, 0, 0, NULL, none, false, NULL, NULL, 0, true, 0⟩

/-- A node for a deadline. -/
def Node.due (deadline : UInt64) : Node := ⟨1, 0, NULL, NULL, NULL, deadline, 1⟩

/-- Ten timers are armed and one is taken from the middle; the last one replaces it and is earlier than its new parent. -/
theorem timer_heap_contract_middle : ∃ s : State, s.proc.armed = [1, 10, 3, 4, 5, 2, 7, 8, 9] ∧
      (drain s.proc.len s.mem s.proc).1.Perm (s.proc.armed.map s.mem.deadline) ∧
      (drain s.proc.len s.mem s.proc).1.Pairwise (· ≤ ·) := by
  obtain ⟨s, hr, hs⟩ := exists_reachable step (State.init .blank) (fun s => s.proc.armed)
    (b := [1, 10, 3, 4, 5, 2, 7, 8, 9])
    [.push 1 (.due 10) true, .push 2 (.due 50) true, .push 3 (.due 20) true, .push 4 (.due 30) true,
      .push 5 (.due 40) true, .push 6 (.due 60) true, .push 7 (.due 70) true, .push 8 (.due 80) true,
      .push 9 (.due 90) true, .push 10 (.due 25) true, .removeAt 5] (by decide +kernel)
  obtain ⟨-, -, -, -, -, hperm, hsorted⟩ := timer_heap_contract .blank s hr
  exact ⟨s, hs, hperm, hsorted⟩

end Llam.Timer
