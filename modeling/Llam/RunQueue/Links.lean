import Llam.Lib.Chain
import Llam.Lib.Run

/-!
# The links of a run queue

A run queue (`queue_base.c`) is doubly linked through `queue_next` and `queue_prev` of its tasks. A pop walks from the head
or from the tail to the first task that the worker may take and unlinks it there. A queue that was built by pushes and pops
is linked through the tasks that wait, in the order of their pushes (`Linked`), and a pop takes the first one that is
available in its direction, if there is one (`skip_pop_integrity`).
-/

namespace Llam.RunQueue

open Llam.Lib Function

/-- `llam_worker_role_t`. -/
inductive Role
  | PRIMARY
  | OPAQUE_HELPER
  | MANAGED
  | NATIVE_AFFINE
  | LEGACY_COMPAT
  deriving DecidableEq

/-- What a pop reads of the tasks and of the workers: whether `managed_dispatch_owner` is set, whether the runtime of the
task has `managed_policy_pools`, and `managed_execution_worker`. -/
structure View (T W : Type) where
  reserved : T → Bool
  policyPools : T → Bool
  executionWorker : T → Option W
  role : W → Role

/-- `llam_queue_t` with the links of the tasks. -/
structure Queue (T : Type) where
  head : Option T
  tail : Option T
  depth : BitVec 32
  next : T → Option T
  prev : T → Option T

variable {T W : Type} [DecidableEq T] [DecidableEq W]

/-- `llam_managed_task_matches_worker`. -/
def View.matchesWorker (v : View T W) (worker : Option W) (task : T) : Bool :=
  if !v.policyPools task then true
  else match v.executionWorker task with
    | some w => worker = some w
    | none => worker.any fun w => v.role w ≠ .NATIVE_AFFINE && v.role w ≠ .LEGACY_COMPAT

/-- The loop of a pop by the worker stops at the task. -/
def View.available (v : View T W) (worker : Option W) (task : T) : Bool :=
  !(v.reserved task || !v.matchesWorker worker task)

namespace Queue

/-- `llam_queue_push_tail`. -/
def pushTail (q : Queue T) (task : T) : Queue T :=
  let q := { q with next := update q.next task none, prev := update q.prev task q.tail }
  { q with
    next := redirect q.next q.tail (some task)
    head := if q.tail.isSome then q.head else some task
    tail := some task
    depth := q.depth + 1 }

/-- The end of `llam_queue_pop_available`: the neighbours of the task, or the ends of the queue, are linked past it. -/
def unlink (q : Queue T) (task : T) : Queue T :=
  let q := { q with
    next := redirect q.next (q.prev task) (q.next task)
    head := if (q.prev task).isSome then q.head else q.next task }
  let q := { q with
    prev := redirect q.prev (q.next task) (q.prev task)
    tail := if (q.next task).isSome then q.tail else q.prev task }
  { q with next := update q.next task none, prev := update q.prev task none, depth := q.depth - 1 }

/-- `llam_queue_pop_available`, with `none` for a loop that goes on after `fuel` tasks. -/
def popAvailable (q : Queue T) (available : T → Bool) (fromTail : Bool) (fuel : Nat) : Option (Option T × Queue T) :=
  let found := if fromTail then search available q.prev fuel q.tail else search available q.next fuel q.head
  found.map fun task => (task, task.elim q q.unlink)

/-- The tasks in the order in which a pop passes them. -/
def passed (fromTail : Bool) (l : List T) : List T := if fromTail then l.reverse else l

/-- The queue is linked through the tasks of the list, in both directions. -/
structure Linked (q : Queue T) (l : List T) : Prop where
  nodup : l.Nodup
  head : q.head = l.head?
  tail : q.tail = l.getLast?
  forward : Follows q.next l
  backward : Follows q.prev l.reverse
  depth : q.depth = BitVec.ofNat 32 l.length

variable {q : Queue T} {l xs ys : List T} {task : T}

theorem Linked.pushTail (h : Linked q l) (htask : task ∉ l) : Linked (q.pushTail task) (l ++ [task]) := by
  have hnodup : (l ++ [task]).Nodup := by
    rw [List.nodup_append_comm]
    exact List.nodup_cons.mpr ⟨htask, h.nodup⟩
  refine ⟨hnodup, ?_, ?_, ?_, ?_, ?_⟩
  · simp only [Queue.pushTail, h.head, h.tail]
    cases l <;> simp
  · simp [Queue.pushTail]
  · simp only [Queue.pushTail, h.tail]
    have hnext : Follows (update q.next task none) (l ++ []) := by
      rw [List.append_nil]
      exact h.forward.update_of_notMem htask none
    have htask' : Follows (update q.next task none) [task] := ⟨update_self .., trivial⟩
    exact hnext.splice htask' hnodup
  · rw [List.reverse_concat]
    refine ⟨?_, h.backward.update_of_notMem (by simpa using htask) _⟩
    simp [Queue.pushTail, h.tail]
  · simp [Queue.pushTail, h.depth, BitVec.ofNat_add]

theorem Linked.unlink (h : Linked q (xs ++ task :: ys)) : Linked (q.unlink task) (xs ++ ys) := by
  have hback := h.backward
  rw [List.reverse_append, List.reverse_cons, List.append_assoc, List.singleton_append] at hback
  have hnext : q.next task = ys.head? := h.forward.right.1
  have hprev : q.prev task = xs.getLast? := hback.right.1.trans List.head?_reverse
  have hnodup := List.nodup_middle.mp h.nodup
  rw [List.nodup_cons, List.mem_append, not_or] at hnodup
  obtain ⟨⟨hxs, hys⟩, hnodup⟩ := hnodup
  -- the link of the task itself is read once more, after its predecessor was redirected
  have hself : redirect q.next xs.getLast? ys.head? task = ys.head? := (redirect_of_notMem hxs _).trans hnext
  refine ⟨hnodup, ?_, ?_, ?_, ?_, ?_⟩
  · simp only [Queue.unlink, hprev, hnext, h.head]
    cases xs <;> simp
  · simp only [Queue.unlink, hprev, hnext, hself, h.tail]
    cases ys <;> simp
  · simp only [Queue.unlink, hprev, hnext]
    exact (h.forward.splice h.forward.right.2 hnodup).update_of_notMem (by simp [hxs, hys]) none
  · simp only [Queue.unlink, hprev, hnext, hself]
    have hsplice := hback.splice hback.right.2 (by rwa [← List.reverse_append, List.nodup_reverse])
    rw [List.getLast?_reverse, List.head?_reverse, ← List.reverse_append] at hsplice
    exact hsplice.update_of_notMem (by simp [hxs, hys]) none
  · simp [Queue.unlink, h.depth, BitVec.ofNat_add, ← Nat.add_assoc]

theorem Linked.erase (h : Linked q l) (htask : task ∈ l) : Linked (q.unlink task) (l.erase task) := by
  obtain ⟨xs, ys, rfl⟩ := List.append_of_mem htask
  have hxs : task ∉ xs := fun hmem => (List.nodup_append.mp h.nodup).2.2 task hmem task List.mem_cons_self rfl
  rw [List.erase_append_right _ hxs, List.erase_cons_head]
  exact h.unlink

omit [DecidableEq T] in
@[simp] theorem mem_passed {fromTail : Bool} : task ∈ passed fromTail l ↔ task ∈ l := by
  cases fromTail <;> simp [passed]

/-- A pop ends within as many steps as tasks wait, at the first available one of its direction. -/
theorem Linked.popAvailable (h : Linked q l) (available : T → Bool) (fromTail : Bool) {fuel : Nat} (hfuel : l.length ≤ fuel) :
    q.popAvailable available fromTail fuel =
      some ((passed fromTail l).find? available, ((passed fromTail l).find? available).elim q q.unlink) := by
  have hsearch : (if fromTail then search available q.prev fuel q.tail else search available q.next fuel q.head) =
      some ((passed fromTail l).find? available) := by
    cases fromTail with
    | true =>
      rw [h.tail, ← List.head?_reverse]
      exact h.backward.search available (List.length_reverse.trans_le hfuel)
    | false =>
      rw [h.head]
      exact h.forward.search available hfuel
  rw [Queue.popAvailable, hsearch, Option.map_some]

end Queue

/-- A queue with the tasks that were pushed and not popped since, in the order of their pushes. -/
structure History (T : Type) where
  queue : Queue T
  waiting : List T

/-- An operation on the queue; a task that waits is not pushed once more. -/
inductive Op (T W : Type)
  | push (task : T)
  | pop (view : View T W) (worker : Option W) (fromTail : Bool)

namespace History

/-- An empty queue, whatever the links of the tasks are. -/
def init (next prev : T → Option T) : History T := ⟨⟨none, none, 0, next, prev⟩, []⟩

def step (s : History T) : Op T W → Option (History T)
  | .push task => if task ∈ s.waiting then none else some ⟨s.queue.pushTail task, s.waiting ++ [task]⟩
  | .pop view worker fromTail =>
    (s.queue.popAvailable (view.available worker) fromTail s.waiting.length).map fun r =>
      ⟨r.2, r.1.elim s.waiting s.waiting.erase⟩

theorem step_linked (s : History T) (op : Op T W) (s' : History T) (h : s.queue.Linked s.waiting)
    (hs : s.step op = some s') : s'.queue.Linked s'.waiting := by
  cases op with
  | push task =>
    simp only [step] at hs
    split at hs
    · cases hs
    · rename_i htask
      cases hs
      exact h.pushTail htask
  | pop view worker fromTail =>
    simp only [step, h.popAvailable _ fromTail le_rfl, Option.map_some] at hs
    cases hs
    cases hfind : (Queue.passed fromTail s.waiting).find? (view.available worker) with
    | none => exact h
    | some task => exact h.erase (Queue.mem_passed.mp (List.mem_of_find?_eq_some hfind))

end History

/-- **Skip-pop.** A queue that was built by pushes and pops is linked through the tasks that wait, and the loop of a pop
ends. It returns the first task of its direction that is available to the worker, with its links cleared, and leaves a queue
that is linked through the others in their order; it returns none, and leaves the queue as it is, iff none is available. -/
theorem skip_pop_integrity {next prev : T → Option T} {s : History T}
    (h : Reachable (History.step (W := W)) (History.init next prev) s) (view : View T W)
    (worker : Option W) (fromTail : Bool) {fuel : Nat} (hfuel : s.waiting.length ≤ fuel) :
    s.queue.Linked s.waiting ∧
    (∀ task, (Queue.passed fromTail s.waiting).find? (view.available worker) = some task →
      ∃ q, s.queue.popAvailable (view.available worker) fromTail fuel = some (some task, q) ∧
        q.Linked (s.waiting.erase task) ∧ q.next task = none ∧ q.prev task = none) ∧
    (s.queue.popAvailable (view.available worker) fromTail fuel = some (none, s.queue) ↔
      ∀ task ∈ s.waiting, view.available worker task = false) := by
  have hlinked : s.queue.Linked s.waiting :=
    h.induction ⟨List.nodup_nil, rfl, rfl, trivial, trivial, rfl⟩ History.step_linked
  have hnone : (Queue.passed fromTail s.waiting).find? (view.available worker) = none ↔
      ∀ task ∈ s.waiting, view.available worker task = false := by simp
  rw [hlinked.popAvailable _ fromTail hfuel, ← hnone]
  refine ⟨hlinked, fun task hfind => ?_, ?_⟩
  · rw [hfind]
    exact ⟨_, rfl, hlinked.erase (Queue.mem_passed.mp (List.mem_of_find?_eq_some hfind)), update_self .., update_self ..⟩
  · cases (Queue.passed fromTail s.waiting).find? (view.available worker) <;> simp

/-- From the tail the task in the middle is taken, past one that is reserved. -/
theorem skip_pop_integrity_middle : ∃ (s : History Nat) (q : Queue Nat), s.waiting = [1, 2, 3] ∧
    s.queue.popAvailable (View.available ⟨(· = 3), fun _ => false, fun _ => none, fun _ => .MANAGED⟩ (some true)) true 3 =
      some (some 2, q) ∧ q.Linked [1, 3] := by
  obtain ⟨s, hs, hwaiting⟩ := exists_reachable (History.step (W := Bool)) (.init (fun _ => none) fun _ => none)
    History.waiting (b := [1, 2, 3]) [.push 1, .push 2, .push 3] (by decide +kernel)
  obtain ⟨-, hpop, -⟩ := skip_pop_integrity hs ⟨(· = 3), fun _ => false, fun _ => none, fun _ => .MANAGED⟩ (some true) true
    (show s.waiting.length ≤ 3 by simp [hwaiting])
  obtain ⟨q, hq, hlinked, -⟩ := hpop 2 (by rw [hwaiting]; decide)
  rw [hwaiting] at hlinked
  exact ⟨s, q, hwaiting, hq, hlinked⟩

end Llam.RunQueue
