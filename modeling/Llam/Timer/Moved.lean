import Llam.Timer.Rehome

/-!
# What a move of timers leaves behind

`rehome_all_or_nothing` says what a call of `llam_processor_rehome_timers_locked` leaves of the two heaps, of the tasks
and of the resolver references, for every failure and for a success.

The new target array is put in order from the place `merged_len / LLAM_TIMER_HEAP_ARITY` down. An array whose length
leaves 2 or 3 modulo the arity has one more entry with children, which the loop does not visit. The array is a heap
exactly if that entry is in order already or there is no such entry (`rehome_ordered`); `rehome_unordered` shows an
earlier timer below a later one.
-/

namespace Llam.Timer

open Llam.Lib Function

section moved

variable {w : World} {source target : Nat} {cap : Nat}

/-- The tasks whose timers move. -/
def World.movedTasks (w : World) (source : Nat) : List Ptr :=
  (w.proc source).armed.map fun node => (w.mem.node node).task

theorem rehomed_rehomed (t : Task) (hne : source ≠ target) :
    (t.rehomed source target).rehomed source target = t.rehomed source target := by
  by_cases h : t.homeShard = source
  · simp [Task.rehomed, h, Ne.symm hne]
  · simp [Task.rehomed, h]

/-- The tasks of the nodes get their new owner, and no other task changes. -/
theorem rehomeTasks_task (hne : source ≠ target) (t : Ptr) : ∀ (nodes : List Ptr) (m : Memory),
    (m.rehomeTasks source target nodes).task t =
      if t ∈ nodes.map (fun node => (m.node node).task) then (m.task t).rehomed source target else m.task t := by
  intro nodes
  induction nodes with
  | nil =>
    intro m
    rfl
  | cons x nodes ih =>
    intro m
    have hstep := ih (m.rehomeTask source target x)
    have hnode : (m.rehomeTask source target x).node = m.node := rfl
    rw [hnode] at hstep
    show ((m.rehomeTask source target x).rehomeTasks source target nodes).task t = _
    rw [hstep, List.map_cons]
    by_cases ht : t = (m.node x).task
    · have hself : (m.rehomeTask source target x).task t = (m.task t).rehomed source target := by
        rw [ht]
        exact update_self _ _ _
      have hmem : t ∈ (m.node x).task :: nodes.map (fun node => (m.node node).task) := ht ▸ List.mem_cons_self
      rw [hself, if_pos hmem, rehomed_rehomed _ hne, ite_self]
    · have hother : (m.rehomeTask source target x).task t = m.task t := update_of_ne ht _ _
      rw [hother]
      simp only [List.mem_cons, ht, false_or]

theorem Ready.nodup (h : Ready w source target) : ((w.proc target).armed ++ (w.proc source).armed).Nodup := by
  have hinj : ∀ s, (∀ i, i < (w.proc s).len → w.mem.heapIndex ((w.proc s).heap i) = i) → (w.proc s).armed.Nodup :=
    fun s hs => Slots.Indexed.nodup (s := slots w.mem (w.proc s)) hs
  refine List.nodup_append.mpr ⟨hinj target fun i hi => (h.settled i hi).index,
    hinj source fun i hi => (h.movable i hi).index, ?_⟩
  intro x hx y hy heq
  obtain ⟨i, hi, rfl⟩ := List.mem_map.mp hx
  obtain ⟨j, hj, rfl⟩ := List.mem_map.mp hy
  have htarget := (h.settled i (List.mem_range.mp hi)).shard
  have hsource := (h.movable j (List.mem_range.mp hj)).shard
  rw [heq, hsource] at htarget
  exact h.ne (Option.some.inj htarget)

/-- The memory in which the new array is built. -/
def World.rehomedMem (w : World) (source target : Nat) : Memory :=
  w.mem.rehomeTasks source target (w.proc source).armed

theorem appended_toList (m : Memory) (s t : Processor) : (appended m s t).toList = t.armed ++ s.armed :=
  Slots.appendAll_toList _ _

theorem appended_len (m : Memory) (s t : Processor) : (appended m s t).len = t.len + s.len := by
  have hlen := congrArg List.length (appended_toList m s t)
  simpa [Processor.armed] using hlen

theorem merged_rearranges (m : Memory) (s t : Processor) : Slots.Rearranges (appended m s t) (merged m s t) := by
  apply Slots.rebuild_rearranges
  rw [appended_len]
  exact Nat.div_le_self _ _

theorem commit_target (hne : source ≠ target) : (commit w w.mem source target cap).proc target =
      { ({ w.proc target with cap := cap }.withArray
          (merged (w.rehomedMem source target) (w.proc source) (w.proc target))).refreshRoot with
        count := (w.proc target).count + (w.proc source).count } := by
  simp only [commit, update_of_ne (Ne.symm hne), update_self]
  rfl

theorem commit_source : (commit w w.mem source target cap).proc source = (w.proc source).emptied := by
  simp only [commit, update_self]

end moved

/-- What a call leaves: everything as it was, or the source empty, its timers in the target and their tasks with their
new owner; in no case a resolver reference, since a task has those it had. -/
structure Moved (w w' : World) (source target : Nat) : Prop where
  emptied : (w'.proc source).len = 0 ∧ (w'.proc source).timers = NULL ∧ (w'.proc source).count = 0
  received : (w'.proc target).armed.Perm ((w.proc target).armed ++ (w.proc source).armed) ∧
    (w'.proc target).count = (w.proc target).count + (w.proc source).count
  tasks : ∀ t, w'.mem.task t =
    if t ∈ w.movedTasks source then (w.mem.task t).rehomed source target else w.mem.task t
  nodes : w'.mem.node = w.mem.node ∧ w'.mem.next = w.mem.next ∧
    ∀ x, x ∉ (w.proc target).armed ++ (w.proc source).armed → w'.mem.heapIndex x = w.mem.heapIndex x
  others : (∀ i, i ≠ source → i ≠ target → w'.proc i = w.proc i) ∧ w'.callbacks = w.callbacks

theorem commit_moved {w : World} {source target cap : Nat} (h : Ready w source target) :
    Moved w (commit w w.mem source target cap) source target := by
  have hmerged := merged_rearranges (w.rehomedMem source target) (w.proc source) (w.proc target)
  constructor
  · rw [commit_source]
    exact ⟨rfl, rfl, rfl⟩
  · rw [commit_target h.ne]
    refine ⟨?_, rfl⟩
    have hperm := hmerged.perm
    rw [appended_toList] at hperm
    exact hperm
  · intro t
    exact rehomeTasks_task h.ne t _ _
  · refine ⟨(rehomeTasks_fields ..).2.1, (rehomeTasks_fields ..).1, ?_⟩
    intro x hx
    have hmem : x ∉ (appended (w.rehomedMem source target) (w.proc source) (w.proc target)).toList := by
      rw [appended_toList]
      exact hx
    have hsource : x ∉ (w.proc source).armed := fun hx' => hx (List.mem_append_right _ hx')
    show (merged (w.rehomedMem source target) (w.proc source) (w.proc target)).pos x = _
    rw [hmerged.pos x hmem, appended, Slots.appendAll_pos _ _ hsource, slots, World.rehomedMem, (rehomeTasks_fields ..).2.2]
  · refine ⟨?_, rfl⟩
    intro i hs ht
    simp only [commit, update_of_ne hs, update_of_ne ht]

/-- **A move of timers is all or nothing**, for every pair of shards and every reason to fail. -/
theorem rehome_all_or_nothing (w : World) (source target : Nat) (allocated : Bool) :
    match rehome w source target allocated with
    | (w', none) => w' = w
    | (w', some migrated) => migrated = (w.proc source).len ∧ Moved w w' source target := by
  rcases rehome_cases w source target allocated with hfail | ⟨cap, hready, -, hok⟩
  · rw [hfail]
  · rw [hok]
    exact ⟨rfl, commit_moved hready⟩

/-! ## Order -/

/-- In the target array with the source timers behind it, the entries that the loop does not visit are in order. -/
def TailOrdered (w : World) (source target : Nat) : Prop :=
  ∀ j, 0 < j → j < (w.proc target).len + (w.proc source).len →
    ((w.proc target).len + (w.proc source).len) / 4 ≤ (j - 1) / 4 →
    w.mem.deadline ((appended w.mem (w.proc source) (w.proc target)).item ((j - 1) / 4)) ≤
      w.mem.deadline ((appended w.mem (w.proc source) (w.proc target)).item j)

/-- The loop visits every entry with children if the length leaves 0 or 1 modulo four. -/
theorem tailOrdered_of_mod {w : World} {source target : Nat}
    (h : ((w.proc target).len + (w.proc source).len) % 4 < 2) : TailOrdered w source target := by
  intro j hj hlen hlow
  omega

/-- **The new heap** is in order exactly if the entry that the loop may miss is, and then its root is an earliest timer of
both heaps; in any case the nodes know their places. -/
theorem rehome_ordered (w : World) (source target : Nat) (allocated : Bool) (w' : World) (migrated : Nat)
    (hok : rehome w source target allocated = (w', some migrated)) :
    ((∀ i, 0 < i → i < (w'.proc target).len →
        w'.mem.deadline ((w'.proc target).heap ((i - 1) / 4)) ≤ w'.mem.deadline ((w'.proc target).heap i)) ↔
      ((w.proc target).len + (w.proc source).len) % 4 < 2 ∨ TailOrdered w source target) ∧
    (((w.proc target).len + (w.proc source).len) % 4 < 2 ∨ TailOrdered w source target →
      ∀ x ∈ (w.proc target).armed ++ (w.proc source).armed,
        w'.mem.deadline (w'.proc target).timers ≤ w.mem.deadline x) ∧
    ∀ i, i < (w'.proc target).len → w'.mem.heapIndex ((w'.proc target).heap i) = i := by
  rcases rehome_cases w source target allocated with hfail | ⟨cap, hready, -, hcommit⟩
  · rw [hfail] at hok
    cases hok
  rw [hcommit] at hok
  obtain ⟨rfl, -⟩ := Prod.mk.inj hok
  rw [or_iff_right_of_imp tailOrdered_of_mod]
  have hnode : (w.rehomedMem source target).node = w.mem.node := (rehomeTasks_fields ..).2.1
  have hindex : (w.rehomedMem source target).heapIndex = w.mem.heapIndex := (rehomeTasks_fields ..).2.2
  have hdeadline : (w.rehomedMem source target).deadline = w.mem.deadline := by
    funext x
    rw [Memory.deadline, Memory.deadline, hnode]
  have happended : appended (w.rehomedMem source target) (w.proc source) (w.proc target) =
      appended w.mem (w.proc source) (w.proc target) := by
    rw [appended, appended, slots, slots, hindex]
  have hmoves := merged_rearranges (w.rehomedMem source target) (w.proc source) (w.proc target)
  have hlen := appended_len (w.rehomedMem source target) (w.proc source) (w.proc target)
  have hordered : Slots.Ordered ARITY w.mem.deadline
      (merged (w.rehomedMem source target) (w.proc source) (w.proc target)) ↔ TailOrdered w source target := by
    rw [← hdeadline, merged, Slots.rebuild_ordered_iff (less_compares _) (by decide) (hlen ▸ Nat.div_le_self _ _),
      happended, hdeadline, Slots.OrderedFrom, ← happended, hlen, happended]
    rfl
  have hindexed : (appended (w.rehomedMem source target) (w.proc source) (w.proc target)).Indexed := by
    apply Slots.appendAll_indexed
    · intro i hi
      show (w.rehomedMem source target).heapIndex _ = i
      rw [hindex]
      exact (hready.settled i hi).index
    · exact hready.nodup
  have hmem : (commit w w.mem source target cap).mem.deadline = w.mem.deadline := hdeadline
  rw [commit_target hready.ne, hmem]
  refine ⟨?_, fun htail x hx => ?_, hmoves.indexed hindexed⟩
  · rw [← hordered]
    exact ⟨fun h i hi hil _ => h i hi hil, fun h i hi hil => h i hi hil (Nat.zero_le _)⟩
  · rw [← appended_toList (w.rehomedMem source target)] at hx
    obtain ⟨i, hi, rfl⟩ := Slots.mem_toList.mp (hmoves.perm.mem_iff.mpr hx)
    have hpos : (merged (w.rehomedMem source target) (w.proc source) (w.proc target)).len > 0 := by omega
    show w.mem.deadline
      (if (merged (w.rehomedMem source target) (w.proc source) (w.proc target)).len > 0 then _ else _) ≤ _
    rw [if_pos hpos]
    exact (hordered.mpr htail).root_le i hi

/-! ## Two shards -/

/-- Two shards with sleeping tasks: the timers 1, 2, … of shard 0 and 101, 102, … of shard 1, for the deadlines. -/
def twoShards (deadlines₀ deadlines₁ : List UInt64) : World where
  mem :=
    { node := fun k =>
        ⟨1, 0, k, NULL, NULL, if k ≤ 100 then deadlines₀.getD (k - 1) 0 else deadlines₁.getD (k - 101) 0, 1⟩
      next := fun _ => NULL
      heapIndex := fun k => if k ≤ 100 then k - 1 else k - 101
      task := fun k =>
        { id := UInt64.ofNat k, ownerRuntime := 1, state := .PARKED, waitReason := .SLEEP, waitGeneration := 1,
          parkedShard := if k ≤ 100 then 0 else 1, homeShard := if k ≤ 100 then 0 else 1,
          deadlineNs := if k ≤ 100 then deadlines₀.getD (k - 1) 0 else deadlines₁.getD (k - 101) 0,
          activeTimer := k, activeTimerHeapShard := some (if k ≤ 100 then 0 else 1), pinned := false,
          activeSelectState := NULL, activeWaitLifetimeOps := NULL, resolverRefs := 0, resolverClosed := false, scanRefs := 0 } }
  proc := fun shard =>
    let deadlines := if shard = 0 then deadlines₀ else if shard = 1 then deadlines₁ else []
    Processor.refreshRoot
      ⟨fun i => if shard = 0 then i + 1 else i + 101, deadlines.length, 64, NULL, deadlines.length⟩
  online := fun _ => true
  callbacks := fun _ => 0
  runtime := 1
  activeShards := 2

/-- Two timers join three: the root of the new heap is the earliest of the five. -/
theorem rehome_ordered_five : ∃ w', rehome (twoShards [3, 40] [10, 20, 30]) 0 1 true = (w', some 2) ∧
    (w'.proc 1).armed = [1, 102, 103, 101, 2] ∧
    ∀ i, 0 < i → i < (w'.proc 1).len →
      w'.mem.deadline ((w'.proc 1).heap ((i - 1) / 4)) ≤ w'.mem.deadline ((w'.proc 1).heap i) := by
  have hok : (rehome (twoShards [3, 40] [10, 20, 30]) 0 1 true).2 = some 2 := by decide +kernel
  have harmed : ((rehome (twoShards [3, 40] [10, 20, 30]) 0 1 true).1.proc 1).armed = [1, 102, 103, 101, 2] := by
    decide +kernel
  exact ⟨_, Prod.ext rfl hok, harmed,
    (rehome_ordered _ 0 1 true _ 2 (Prod.ext rfl hok)).1.mpr (.inl (by decide))⟩

/-- **A later root**: a timer for 5 joins a timer for 10. Both heaps are valid, the move succeeds, and the new array has
the timer for 10 above the timer for 5, since the loop visits no entry of an array of length 2. -/
theorem rehome_unordered :
    Valid (twoShards [5] [10]).mem ((twoShards [5] [10]).proc 0) ∧
    Valid (twoShards [5] [10]).mem ((twoShards [5] [10]).proc 1) ∧
    ∃ w', rehome (twoShards [5] [10]) 0 1 true = (w', some 1) ∧
      w'.mem.deadline (w'.proc 1).timers = 10 ∧ w'.mem.deadline 1 = 5 ∧ 1 ∈ (w'.proc 1).armed ∧
      ¬ ∀ i, 0 < i → i < (w'.proc 1).len →
        w'.mem.deadline ((w'.proc 1).heap ((i - 1) / 4)) ≤ w'.mem.deadline ((w'.proc 1).heap i) := by
  have hvalid : ∀ shard, shard < 2 → Valid (twoShards [5] [10]).mem ((twoShards [5] [10]).proc shard) := by
    intro shard hshard
    have hlen : ((twoShards [5] [10]).proc shard).len = 1 := by
      rcases Nat.eq_zero_or_pos shard with rfl | hpos
      · rfl
      · obtain rfl : shard = 1 := by omega
        rfl
    refine ⟨?_, ?_, rfl, rfl, by rw [hlen]; show 1 ≤ 64; decide⟩
    · intro j hj hjl
      have hjl' : j < ((twoShards [5] [10]).proc shard).len := hjl
      omega
    · intro i hi
      have hi' : i < ((twoShards [5] [10]).proc shard).len := hi
      obtain rfl : i = 0 := by omega
      rcases Nat.eq_zero_or_pos shard with rfl | hpos
      · rfl
      · obtain rfl : shard = 1 := by omega
        rfl
  have hok : (rehome (twoShards [5] [10]) 0 1 true).2 = some 1 := by decide +kernel
  refine ⟨hvalid 0 (by decide), hvalid 1 (by decide), (rehome (twoShards [5] [10]) 0 1 true).1, Prod.ext rfl hok, ?_⟩
  refine ⟨by decide +kernel, by decide +kernel, by decide +kernel, ?_⟩
  intro hall
  exact absurd (hall 1 (by decide) (by decide +kernel)) (by decide +kernel)

end Llam.Timer
