import Llam.Timer.Heap

/-!
# Moving the timers of a processor

`llam_processor_rehome_timers_locked` of `core/time/timer_heap.c`. The timers of a source shard are appended to the heap of
a target shard, which is put in order again. The caller holds the locks of both shards. Before anything moves, every
source timer is checked and its task is pinned by a resolver reference; the pinned nodes are linked through their `next`
fields, and are unpinned by walking that list.

`rehome_cases` says what a call does in two lines: it fails and leaves everything as it was, or it moves the timers, and
no pin is left in either case.
-/

namespace Llam.Timer

open Llam.Lib Function

/-- The shards of a runtime, by their index; `callbacks` is `timer_callbacks_active`. -/
structure World where
  mem : Memory
  proc : Nat → Processor
  online : Nat → Bool
  callbacks : Nat → Nat
  runtime : Ptr
  activeShards : Nat

/-- The generation that is never used -/
def noGeneration : UInt64 := wordMax

/-! ## Checks -/

/-- `llam_timer_rehome_entry_valid` -/
def entryValid (m : Memory) (w : World) (source target : Nat) (node : Ptr) (index : Nat) : Bool :=
  let n := m.node node
  let t := m.task n.task
  node ≠ NULL ∧ n.ownerRuntime = w.runtime ∧ n.task ≠ NULL ∧ n.ownerShard < w.activeShards ∧ m.next node = NULL ∧
    m.heapIndex node = index ∧
    t.ownerRuntime = w.runtime ∧ t.activeTimer = node ∧ t.activeTimerHeapShard = some source ∧ t.state = .PARKED ∧
    t.waitReason ≠ .NONE ∧ t.waitGeneration ≠ 0 ∧ t.waitGeneration ≠ noGeneration ∧
    t.waitGeneration = n.waitGeneration ∧ t.deadlineNs = n.deadlineNs ∧
    (t.parkedShard = source ∨ t.parkedShard = target) ∧ t.pinned = false ∧ t.activeSelectState = n.selectState ∧
    t.activeWaitLifetimeOps = n.waitLifetimeOps

/-- The loop of `llam_timer_target_heap_valid` -/
def targetEntryValid (w : World) (target : Nat) (i : Nat) : Bool :=
  let node := (w.proc target).heap i
  let n := w.mem.node node
  let t := w.mem.task n.task
  node ≠ NULL ∧ n.ownerRuntime = w.runtime ∧ n.task ≠ NULL ∧ w.mem.next node = NULL ∧ w.mem.heapIndex node = i ∧
    t.activeTimerHeapShard = some target ∧ t.ownerRuntime = w.runtime ∧ t.activeTimer = node

/-- `llam_timer_target_heap_valid` -/
def targetHeapValid (w : World) (target : Nat) : Bool :=
  let p := w.proc target
  p.len ≤ p.cap ∧ p.timers = (if p.len > 0 then p.heap 0 else NULL) ∧ p.count = p.len ∧
    (List.range p.len).all (targetEntryValid w target)

/-- The checks of the arguments and of the two heaps, before the first pin. -/
def rehomeRefused (w : World) (source target : Nat) : Bool :=
  let s := w.proc source
  let t := w.proc target
  source = target ∨ w.activeShards = 0 ∨ source ≥ w.activeShards ∨ target ≥ w.activeShards ∨ ¬ w.online source ∨
    ¬ w.online target ∨ w.callbacks source ≠ 0 ∨
    s.len > s.cap ∨ s.timers ≠ (if s.len > 0 then s.heap 0 else NULL) ∨ s.count ≠ s.len ∨
    s.count > uintMax - t.count ∨ t.count ≠ t.len ∨ t.len > sizeMax - s.len ∨ ¬ targetHeapValid w target ∨
    t.len + s.len > maxItems

/-! ## Pins -/

def Memory.setTask (m : Memory) (task : Ptr) (x : Task) : Memory := { m with task := update m.task task x }

/-- `llam_task_wait_resolver_try_begin` -/
def Memory.resolverTryBegin (m : Memory) (task : Ptr) : Option Memory :=
  if (m.task task).resolverClosed then none
  else some (m.setTask task { m.task task with resolverRefs := (m.task task).resolverRefs + 1 })

/-- `llam_task_wait_resolver_end` -/
def Memory.resolverEnd (m : Memory) (task : Ptr) : Memory :=
  m.setTask task { m.task task with resolverRefs := (m.task task).resolverRefs - 1 }

def Memory.setNext (m : Memory) (node next : Ptr) : Memory := { m with next := update m.next node next }

/-- A pinned node is unlinked and its task is unpinned. -/
def Memory.unpin (m : Memory) (node : Ptr) : Memory := (m.setNext node NULL).resolverEnd (m.node node).task

/-- `llam_timer_rehome_release_pins`, for a list of at most `n` pins -/
def releasePins : Nat → Memory → Ptr → Memory
  | 0, m, _ => m
  | n + 1, m, pins =>
    if pins = NULL then m
    else releasePins n (m.unpin pins) (m.next pins)

/-- The loop that pins the source timers, of which `heap` has `n` more from `i` on. The result is the list of the pins;
a failure releases the pins that were taken. -/
def pinLoop (w : World) (source target : Nat) (heap : Nat → Ptr) : Nat → Nat → Memory → Ptr → Memory × Option Ptr
  | 0, _, m, pins => (m, some pins)
  | n + 1, i, m, pins =>
    let node := heap i
    if node = NULL ∨ (m.node node).task = NULL then (releasePins i m pins, none)
    else
      match m.resolverTryBegin (m.node node).task with
      | none => (releasePins i m pins, none)
      | some m =>
        if entryValid m w source target node i then pinLoop w source target heap n (i + 1) (m.setNext node pins) node
        else (releasePins i (m.resolverEnd (m.node node).task) pins, none)

/-! ## The move -/

/-- The owner fields of a task whose timer moves. -/
def Task.rehomed (t : Task) (source target : Nat) : Task :=
  { t with
    activeTimerHeapShard := some target
    parkedShard := target
    homeShard := if t.homeShard = source then target else t.homeShard }

/-- The tasks of the moved nodes get their new owner. -/
def Memory.rehomeTasks (m : Memory) (source target : Nat) (nodes : List Ptr) : Memory :=
  nodes.foldl (fun m node => m.setTask (m.node node).task ((m.task (m.node node).task).rehomed source target)) m

/-- The target array with the source nodes behind it. -/
def appended (m : Memory) (s t : Processor) : Slots Ptr := (slots m t).appendAll s.armed

/-- The target array put in order: the loop over the places before `merged_len / LLAM_TIMER_HEAP_ARITY`. -/
def merged (m : Memory) (s t : Processor) : Slots Ptr := (appended m s t).rebuild m.less ARITY ((t.len + s.len) / ARITY)

/-- The source without its timers. -/
def Processor.emptied (p : Processor) : Processor :=
  { p with heap := fun i => if i < p.len then NULL else p.heap i, len := 0, timers := NULL, count := 0 }

/-- Everything that happens after the last check, with `cap` cells in the target array. -/
def commit (w : World) (m : Memory) (source target : Nat) (cap : Nat) : World :=
  let s := w.proc source
  let t := w.proc target
  let m := m.rehomeTasks source target s.armed
  let a := merged m s t
  let t := { ({ t with cap := cap }.withArray a).refreshRoot with count := t.count + s.count }
  { w with
    mem := m.withIndex a
    proc := update (update w.proc target t) source s.emptied }

/-- `llam_processor_rehome_timers_locked`; the result is `migrated_out` -/
def rehome (w : World) (source target : Nat) (allocated : Bool) : World × Option Nat :=
  if rehomeRefused w source target then (w, none)
  else
    let s := w.proc source
    let t := w.proc target
    match pinLoop w source target s.heap s.len 0 w.mem NULL with
    | (m, none) => ({ w with mem := m }, none)
    | (m, some pins) =>
      match t.reserve (t.len + s.len) allocated with
      | none => ({ w with mem := releasePins s.len m pins }, none)
      | some t =>
        let w := commit w m source target t.cap
        ({ w with mem := releasePins s.len w.mem pins }, some s.len)

/-! ## Pins come back -/

section pins

variable {m m' : Memory} {w : World} {source target : Nat} {node pins : Ptr} {n : Nat}

/-- The release of the last pin gives back the memory before it. -/
theorem releasePins_pin (hbegin : m.resolverTryBegin (m.node node).task = some m') (hnode : node ≠ NULL)
    (hnext : m.next node = NULL) : releasePins (n + 1) (m'.setNext node pins) node = releasePins n m pins := by
  unfold Memory.resolverTryBegin at hbegin
  split at hbegin
  · cases hbegin
  cases hbegin
  rw [releasePins, if_neg hnode]
  simp only [Memory.unpin, Memory.setNext, Memory.resolverEnd, Memory.setTask, update_idem,
    update_self, Nat.add_sub_cancel, update_eq_self]
  rw [← hnext, update_eq_self]

theorem resolverEnd_tryBegin {task : Ptr} (hbegin : m.resolverTryBegin task = some m') : m'.resolverEnd task = m := by
  unfold Memory.resolverTryBegin at hbegin
  split at hbegin
  · cases hbegin
  cases hbegin
  simp only [Memory.resolverEnd, Memory.setTask, update_idem, update_self, Nat.add_sub_cancel,
    update_eq_self]

/-- What pins do not touch. -/
structure Unpinned (m m' : Memory) : Prop where
  node : m'.node = m.node
  heapIndex : m'.heapIndex = m.heapIndex
  task : ∀ t, { m'.task t with resolverRefs := (m.task t).resolverRefs } = m.task t

theorem Unpinned.refl (m : Memory) : Unpinned m m := ⟨rfl, rfl, fun _ => rfl⟩

theorem Unpinned.trans {m'' : Memory} (h : Unpinned m m') (h' : Unpinned m' m'') : Unpinned m m'' := by
  refine ⟨h'.node.trans h.node, h'.heapIndex.trans h.heapIndex, ?_⟩
  intro t
  rw [← h.task t, ← h'.task t]

theorem Unpinned.tryBegin {task : Ptr} (hbegin : m.resolverTryBegin task = some m') : Unpinned m m' := by
  unfold Memory.resolverTryBegin at hbegin
  split at hbegin
  · cases hbegin
  cases hbegin
  refine ⟨rfl, rfl, ?_⟩
  intro t
  by_cases ht : t = task
  · subst ht
    simp [Memory.setTask]
  · simp [Memory.setTask, ht]

theorem Unpinned.setNext (m : Memory) (node next : Ptr) : Unpinned m (m.setNext node next) := ⟨rfl, rfl, fun _ => rfl⟩

/-- What the check of an entry says apart from its link. -/
structure Movable (m : Memory) (source : Nat) (node : Ptr) (index : Nat) : Prop where
  index : m.heapIndex node = index
  shard : (m.task (m.node node).task).activeTimerHeapShard = some source

theorem Movable.of_entryValid {i : Nat} (h : entryValid m' w source target node i = true) (hm : Unpinned m m') :
    Movable m source node i := by
  simp only [entryValid, decide_eq_true_eq] at h
  obtain ⟨-, -, -, -, -, hindex, -, -, hshard, -⟩ := h
  rw [hm.node] at hshard
  refine ⟨by rw [← hm.heapIndex]; exact hindex, ?_⟩
  rw [← hm.task (m.node node).task]
  exact hshard

/-- **The pins**: if the pins so far can be released, a failure has released them all, and a success can release them. -/
theorem pinLoop_spec (w : World) (source target : Nat) (heap : Nat → Ptr) (m₀ : Memory) : ∀ (n i : Nat) (m : Memory) (pins : Ptr),
    releasePins i m pins = m₀ → Unpinned m₀ m →
    (pinLoop w source target heap n i m pins = (m₀, none)) ∨
    ∃ m' pins', pinLoop w source target heap n i m pins = (m', some pins') ∧ releasePins (i + n) m' pins' = m₀ ∧
      Unpinned m₀ m' ∧ ∀ j, i ≤ j → j < i + n → Movable m₀ source (heap j) j := by
  intro n
  induction n with
  | zero =>
    intro i m pins hrelease hm
    exact .inr ⟨m, pins, rfl, hrelease, hm, fun j _ _ => by omega⟩
  | succ n ih =>
    intro i m pins hrelease hm
    rw [pinLoop]
    split
    · exact .inl (by rw [hrelease])
    rename_i hnull
    rw [not_or] at hnull
    cases hbegin : m.resolverTryBegin (m.node (heap i)).task with
    | none => exact .inl (by dsimp only; rw [hrelease])
    | some m' =>
      dsimp only
      have hunpinned := Unpinned.tryBegin hbegin
      split
      · rename_i hvalid
        have hnext : m.next (heap i) = NULL := by
          have hnext' : m'.next (heap i) = NULL := by
            simp only [entryValid, decide_eq_true_eq] at hvalid
            exact hvalid.2.2.2.2.1
          unfold Memory.resolverTryBegin at hbegin
          split at hbegin
          · cases hbegin
          · cases hbegin
            exact hnext'
        have hrelease' : releasePins (i + 1) (m'.setNext (heap i) pins) (heap i) = m₀ := by
          rw [releasePins_pin hbegin hnull.1 hnext, hrelease]
        have hm' : Unpinned m₀ (m'.setNext (heap i) pins) := (hm.trans hunpinned).trans (.setNext _ _ _)
        rcases ih (i + 1) _ _ hrelease' hm' with hfail | ⟨m'', pins', heq, hrel, hun, hall⟩
        · exact .inl hfail
        refine .inr ⟨m'', pins', heq, by rw [← hrel]; congr 1; omega, hun, ?_⟩
        intro j hij hj
        rcases Nat.eq_or_lt_of_le hij with rfl | hlt
        · exact .of_entryValid hvalid (hm.trans hunpinned)
        · exact hall j hlt (by omega)
      · have hend : m'.resolverEnd (m'.node (heap i)).task = m := by
          rw [hunpinned.node]
          exact resolverEnd_tryBegin hbegin
        exact .inl (by rw [hend, hrelease])

end pins

/-! ## The move does not see the pins -/

section move

variable {m m' : Memory} {w : World} {source target : Nat} {node pins : Ptr} {n : Nat}

/-- The move of one task. -/
def Memory.rehomeTask (m : Memory) (source target : Nat) (node : Ptr) : Memory :=
  m.setTask (m.node node).task ((m.task (m.node node).task).rehomed source target)

theorem rehomeTask_unpin (x : Ptr) :
    (m.unpin node).rehomeTask source target x = (m.rehomeTask source target x).unpin node := by
  simp only [Memory.rehomeTask, Memory.unpin, Memory.resolverEnd, Memory.setNext, Memory.setTask]
  by_cases h : (m.node x).task = (m.node node).task
  · simp only [h, update_self, update_idem, Task.rehomed]
  · rw [update_of_ne h, update_of_ne (Ne.symm h), update_comm h]

theorem rehomeTasks_unpin : ∀ (nodes : List Ptr) (m : Memory),
    (m.unpin node).rehomeTasks source target nodes = (m.rehomeTasks source target nodes).unpin node := by
  intro nodes
  induction nodes with
  | nil => exact fun _ => rfl
  | cons x nodes ih =>
    intro m
    show ((m.unpin node).rehomeTask source target x).rehomeTasks source target nodes = _
    rw [rehomeTask_unpin, ih]
    rfl

/-- The comparison reads the deadlines and the identities of the tasks only. -/
theorem less_congr (hnode : m'.node = m.node) (hid : ∀ t, (m'.task t).id = (m.task t).id) : m'.less = m.less := by
  funext x y
  simp only [Memory.less, hnode, hid]

theorem less_unpin : (m.unpin node).less = m.less := by
  refine less_congr (m := m) rfl ?_
  intro t
  simp only [Memory.unpin, Memory.resolverEnd, Memory.setNext, Memory.setTask, update_apply]
  split
  · rename_i h
    rw [h]
  · rfl

/-- The memory after the move. -/
def Memory.moved (m : Memory) (source target : Nat) (s t : Processor) : Memory :=
  (m.rehomeTasks source target s.armed).withIndex (merged (m.rehomeTasks source target s.armed) s t)

theorem moved_unpin (s t : Processor) :
    (m.unpin node).moved source target s t = (m.moved source target s t).unpin node := by
  rw [Memory.moved, rehomeTasks_unpin]
  generalize hm : m.rehomeTasks source target s.armed = m₁
  have hmerged : merged (m₁.unpin node) s t = merged m₁ s t := by
    rw [merged, merged, less_unpin]
    rfl
  rw [hmerged, Memory.moved, hm]
  rfl

theorem rehomeTasks_fields : ∀ (nodes : List Ptr) (m : Memory), (m.rehomeTasks source target nodes).next = m.next ∧
    (m.rehomeTasks source target nodes).node = m.node ∧ (m.rehomeTasks source target nodes).heapIndex = m.heapIndex := by
  intro nodes
  induction nodes with
  | nil => exact fun _ => ⟨rfl, rfl, rfl⟩
  | cons x nodes ih => exact fun m => ih (m.rehomeTask source target x)

theorem rehomeTasks_id (t : Ptr) : ∀ (nodes : List Ptr) (m : Memory),
    ((m.rehomeTasks source target nodes).task t).id = (m.task t).id := by
  intro nodes
  induction nodes with
  | nil => exact fun _ => rfl
  | cons x nodes ih =>
    intro m
    have hone : ((m.rehomeTask source target x).task t).id = (m.task t).id := by
      simp only [Memory.rehomeTask, Memory.setTask, update_apply]
      split
      · rename_i h
        rw [h]
        rfl
      · rfl
    exact (ih (m.rehomeTask source target x)).trans hone

/-- The new array is the same with and without the pins. -/
theorem merged_unpinned (h : Unpinned m m') (s t : Processor) (nodes : List Ptr) :
    merged (m'.rehomeTasks source target nodes) s t = merged (m.rehomeTasks source target nodes) s t := by
  have hless : (m'.rehomeTasks source target nodes).less = (m.rehomeTasks source target nodes).less := by
    apply less_congr
    · rw [(rehomeTasks_fields ..).2.1, (rehomeTasks_fields ..).2.1, h.node]
    · intro x
      rw [rehomeTasks_id, rehomeTasks_id, ← h.task x]
  have happended : appended (m'.rehomeTasks source target nodes) s t = appended (m.rehomeTasks source target nodes) s t := by
    rw [appended, appended, slots, slots, (rehomeTasks_fields ..).2.2, (rehomeTasks_fields ..).2.2, h.heapIndex]
  rw [merged, merged, hless, happended]

/-- Releasing the pins after the move is moving without them. -/
theorem releasePins_moved (source target : Nat) (s t : Processor) : ∀ (n : Nat) (m : Memory) (pins : Ptr),
    releasePins n (m.moved source target s t) pins = (releasePins n m pins).moved source target s t := by
  intro n
  induction n with
  | zero => exact fun _ _ => rfl
  | succ n ih =>
    intro m pins
    have hnext : (m.moved source target s t).next = m.next := (rehomeTasks_fields s.armed m).1
    rw [releasePins, releasePins]
    split
    · rfl
    · rw [← moved_unpin, hnext, ih]

/-- What the checks before the move say about the two heaps. -/
structure Ready (w : World) (source target : Nat) : Prop where
  ne : source ≠ target
  movable : ∀ i, i < (w.proc source).len → Movable w.mem source ((w.proc source).heap i) i
  settled : ∀ i, i < (w.proc target).len → Movable w.mem target ((w.proc target).heap i) i

theorem Ready.of_checks (hrefused : ¬ rehomeRefused w source target = true)
    (hall : ∀ j, 0 ≤ j → j < 0 + (w.proc source).len → Movable w.mem source ((w.proc source).heap j) j) :
    Ready w source target := by
  simp only [rehomeRefused, decide_eq_true_eq, not_or, not_not] at hrefused
  obtain ⟨hne, -, -, -, -, -, -, -, -, -, -, -, -, hvalid, -⟩ := hrefused
  refine ⟨hne, fun i hi => hall i (Nat.zero_le _) (by omega), ?_⟩
  intro i hi
  simp only [targetHeapValid, decide_eq_true_eq, List.all_eq_true, List.mem_range] at hvalid
  have hentry := hvalid.2.2.2 i hi
  simp only [targetEntryValid, decide_eq_true_eq] at hentry
  obtain ⟨-, -, -, -, hindex, hshard, -⟩ := hentry
  exact ⟨hindex, hshard⟩

/-- **A call fails and changes nothing, or it moves the timers.** No pin is left in either case. -/
theorem rehome_cases (w : World) (source target : Nat) (allocated : Bool) :
    rehome w source target allocated = (w, none) ∨
    ∃ cap, Ready w source target ∧ (w.proc target).len + (w.proc source).len ≤ cap ∧
      rehome w source target allocated = (commit w w.mem source target cap, some (w.proc source).len) := by
  unfold rehome
  split
  · exact .inl rfl
  rename_i hrefused
  dsimp only
  have hpins := pinLoop_spec w source target (w.proc source).heap w.mem
    (w.proc source).len 0 w.mem NULL rfl (.refl _)
  rcases hpins with hfail | ⟨m, pins, heq, hrelease, hunpinned, hall⟩
  · rw [hfail]
    exact .inl rfl
  rw [heq]
  rw [Nat.zero_add] at hrelease
  cases hreserve : (w.proc target).reserve ((w.proc target).len + (w.proc source).len) allocated with
  | none =>
    dsimp only
    rw [hrelease]
    exact .inl rfl
  | some t =>
    obtain ⟨cap, rfl, hcap⟩ := reserve_some hreserve
    refine .inr ⟨cap, .of_checks hrefused hall, hcap, ?_⟩
    · dsimp only
      have hmem : releasePins (w.proc source).len (commit w m source target cap).mem pins =
          (commit w w.mem source target cap).mem := by
        have h := releasePins_moved source target (w.proc source) (w.proc target)
          (w.proc source).len m pins
        rw [hrelease] at h
        exact h
      rw [hmem]
      simp only [commit, merged_unpinned hunpinned]

end move

end Llam.Timer
