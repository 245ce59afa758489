import Llam.Basic
import Llam.Deque.Spec
import Llam.RunQueue.Links

/-!
# The depth of the normal lane

The normal lane of a shard is a FIFO and, with `experimental_lockfree_normq`, a deque before it. `norm_depth` is bumped
before a task is published and dropped after one has been removed, by whichever thread does it (`norm_queue_depth.c`), so
that in between it counts a task that is in neither part of the lane. Each function of `norm_queue.c` is a sequence of the
steps below: a push bumps the counter and publishes, or finds the queue full and drops it again; a pop or a steal removes a
task and drops the counter, or puts a reserved task of the deque into the FIFO; a direct yield removes a task and queues the
running one, and touches no counter. The FIFO is the list of a linked queue (`Queue.Linked.popHead`) and the deque goes
through steps of the abstract deque (`reachable_lane`). Along every interleaving the counter is the number of queued tasks
and of threads in such a step (`norm_depth_accounting`).
-/

namespace Llam.RunQueue

open Llam.Lib Llam.Deque Function

/-- `llam_queue_pop_head`: the first task that is not reserved. -/
def popHead {T : Type} (available : T → Bool) : List T → Option (T × List T)
  | [] => none
  | task :: queue =>
    if available task then some (task, queue)
    else (popHead available queue).map fun r => (r.1, task :: r.2)

theorem popHead_eq {T : Type} [DecidableEq T] (available : T → Bool) (queue : List T) :
    popHead available queue = (queue.find? available).map fun task => (task, queue.erase task) := by
  induction queue with
  | nil => rfl
  | cons first queue ih =>
    unfold popHead
    split
    · rename_i hfirst
      simp [hfirst]
    rename_i hfirst
    rw [ih, List.find?_cons_of_neg hfirst, Option.map_map]
    refine Option.map_congr fun task htask => ?_
    have hne : first ≠ task := fun heq => hfirst (heq ▸ List.find?_some htask)
    simp [List.erase_cons_tail, hne]

theorem popHead_perm {T : Type} [DecidableEq T] {available : T → Bool} {task : T} {queue rest : List T}
    (h : popHead available queue = some (task, rest)) : queue.Perm (task :: rest) := by
  rw [popHead_eq] at h
  obtain ⟨_, hfind, heq⟩ := Option.map_eq_some_iff.mp h
  cases heq
  exact List.perm_cons_erase (List.mem_of_find?_eq_some hfind)

/-- **The links refine the list**: a pop from a linked queue takes the task that the list gives and leaves the links of the
tasks that the list leaves. -/
theorem Queue.Linked.popHead {T : Type} [DecidableEq T] {q : Queue T} {l : List T} (h : q.Linked l)
    (available : T → Bool) {fuel : Nat} (hfuel : l.length ≤ fuel) : ∃ q',
    q.popAvailable available false fuel = some ((RunQueue.popHead available l).map Prod.fst, q') ∧
      q'.Linked (((RunQueue.popHead available l).map Prod.snd).getD l) := by
  rw [h.popAvailable available false hfuel, popHead_eq]
  have hpassed : Queue.passed false l = l := rfl
  rw [hpassed]
  cases hfind : l.find? available with
  | none => exact ⟨q, rfl, h⟩
  | some task => exact ⟨q.unlink task, rfl, h.erase (List.mem_of_find?_eq_some hfind)⟩

namespace Depth

/-- Where a push publishes: the owner's end of the deque, the FIFO, or the FIFO whose room was checked before. -/
inductive Kind
  | deque
  | fifo
  | yieldUnlocked
  deriving DecidableEq

inductive Pc (T : Type)
  | idle
  | bumped (kind : Kind) (task : T)
  | full (task : T)
  | removed (task : T) (fromDeque : Bool)
  | exchanging (current : T)

/-- The lane of a shard with the threads `P` that work on it; the bottom of the deque, the owner's end, is first. -/
structure State (P T : Type) where
  deque : List T
  fifo : List T
  depth : Nat
  overflow : List T
  pc : P → Pc T

def State.init (P T : Type) : State P T := ⟨[], [], 0, [], fun _ => .idle⟩

inductive Action (P T : Type)
  | noteEnqueue (thread : P) (kind : Kind) (task : T)
  | publish (thread : P)
  | spill (thread : P)
  | popBottom (thread : P)
  | stealTop (thread : P)
  | popFifo (thread : P) (available : T → Bool)
  | settle (thread : P) (reserved : Bool)
  | exchangeFifo (thread : P) (current : T) (available : T → Bool)
  | exchangeDeque (thread : P) (current : T)
  | requeue (thread : P)

namespace State

variable {P T : Type} [DecidableEq P] [DecidableEq T] (s : State P T)

def goto (p : P) (pc : Pc T) : State P T := { s with pc := update s.pc p pc }

/-- A push that has bumped the counter: `none` in a state in which the queue is full. -/
def published (task : T) : Kind → Option (State P T)
  | .deque => if s.deque.length < normQueueCap.value then some { s with deque := task :: s.deque } else none
  | .fifo => if s.fifo.length < normQueueCap.value then some { s with fifo := s.fifo ++ [task] } else none
  | .yieldUnlocked => some { s with fifo := s.fifo ++ [task] }

/-- The task that runs is in no queue: a direct yield does not meet it. -/
def step (s : State P T) : Action P T → Option (State P T)
  | .noteEnqueue p kind task =>
    match s.pc p with
    | .idle => if s.depth = uintMax then some s else some ({ s with depth := s.depth + 1 }.goto p (.bumped kind task))
    | _ => none
  | .publish p =>
    match s.pc p with
    | .bumped kind task => some (((s.published task kind).map (·.goto p .idle)).getD (s.goto p (.full task)))
    | _ => none
  | .spill p =>
    match s.pc p with
    | .full task => some ({ s with depth := s.depth - 1, overflow := s.overflow ++ [task] }.goto p .idle)
    | _ => none
  | .popBottom p =>
    match s.pc p, s.deque with
    | .idle, task :: rest => some ({ s with deque := rest }.goto p (.removed task true))
    | _, _ => none
  | .stealTop p =>
    match s.pc p, s.deque.reverse with
    | .idle, task :: rest => some ({ s with deque := rest.reverse }.goto p (.removed task true))
    | _, _ => none
  | .popFifo p available =>
    match s.pc p, popHead available s.fifo with
    | .idle, some (task, rest) => some ({ s with fifo := rest }.goto p (.removed task false))
    | _, _ => none
  | .settle p reserved =>
    match s.pc p with
    | .removed task fromDeque =>
      if reserved && fromDeque then some ({ s with fifo := s.fifo ++ [task] }.goto p .idle)
      else some ({ s with depth := s.depth - 1 }.goto p .idle)
    | _ => none
  | .exchangeFifo p current available =>
    match s.pc p, popHead available s.fifo with
    | .idle, some (next, rest) =>
      if next = current then none else some ({ s with fifo := rest }.goto p (.exchanging current))
    | _, _ => none
  | .exchangeDeque p current =>
    match s.pc p, s.deque with
    | .idle, next :: rest =>
      if next = current then none else some ({ s with deque := rest }.goto p (.exchanging current))
    | _, _ => none
  | .requeue p =>
    match s.pc p with
    | .exchanging current => some ({ s with fifo := s.fifo ++ [current] }.goto p .idle)
    | _ => none

end State

/-- The thread stands for a task that the counter counts and no queue holds. -/
def Pc.owes {T : Type} : Pc T → Nat
  | .idle => 0
  | _ => 1

variable {P T : Type} [DecidableEq P] [DecidableEq T] {s s' : State P T}

/-- The counter is the number of queued tasks, and of threads that stand for one. -/
def Accounted (s : State P T) : Prop :=
  ∃ busy : Finset P, (∀ p, p ∈ busy ↔ (s.pc p).owes = 1) ∧ s.depth = s.deque.length + s.fifo.length + busy.card

omit [DecidableEq T] in
/-- A step that leaves the thread with `pc` and moves as many tasks as it owes. -/
theorem Accounted.goto {t : State P T} {p : P} {old pc : Pc T} (h : Accounted s) (hold : s.pc p = old) (hpc : t.pc = s.pc)
    (ht : t.depth + (s.deque.length + s.fifo.length + old.owes) = s.depth + (t.deque.length + t.fifo.length + pc.owes)) :
    Accounted (t.goto p pc) := by
  obtain ⟨busy, hbusy, hdepth⟩ := h
  have hp := hbusy p
  have hcard : (if pc.owes = 1 then insert p busy else busy.erase p).card + old.owes = busy.card + pc.owes := by
    have hpos : p ∈ busy → 0 < busy.card := fun hmem => Finset.card_pos.mpr ⟨p, hmem⟩
    cases old <;> cases pc <;> simp_all [Pc.owes]
  refine ⟨if pc.owes = 1 then insert p busy else busy.erase p, fun q => ?_, ?_⟩
  · simp only [State.goto, hpc]
    by_cases hq : q = p
    · split <;> simp_all
    · rw [update_of_ne hq, ← hbusy q]
      split <;> simp [hq]
  · simp only [State.goto]
    omega

omit [DecidableEq P] [DecidableEq T] in
/-- Whoever is not idle finds the counter positive. -/
theorem Accounted.positive (h : Accounted s) {p : P} {pc : Pc T} (hpc : s.pc p = pc) (hp : pc.owes = 1) : 0 < s.depth := by
  obtain ⟨busy, hbusy, hdepth⟩ := h
  have hpos : 0 < busy.card := Finset.card_pos.mpr ⟨p, (hbusy p).mpr (by rw [hpc]; exact hp)⟩
  omega

theorem step_accounted (s : State P T) (a : Action P T) (s' : State P T) (h : Accounted s) (hs : s.step a = some s') :
    Accounted s' := by
  cases a with
  | noteEnqueue p kind task =>
    simp only [State.step] at hs
    split at hs <;> try cases hs
    rename_i hpc
    split at hs <;> cases hs
    · exact h
    · exact h.goto hpc rfl (by simp only [Pc.owes]; omega)
  | publish p =>
    simp only [State.step] at hs
    split at hs <;> cases hs
    rename_i kind task hpc
    have hfull : Accounted (s.goto p (.full task)) := h.goto hpc rfl rfl
    have hfifo : Accounted (State.goto { s with fifo := s.fifo ++ [task] } p .idle) :=
      h.goto hpc rfl (by simp [Pc.owes]; omega)
    cases kind <;> simp only [State.published]
    · split
      · exact h.goto hpc rfl (by simp [Pc.owes]; omega)
      · exact hfull
    · split
      · exact hfifo
      · exact hfull
    · exact hfifo
  | spill p =>
    simp only [State.step] at hs
    split at hs <;> cases hs
    rename_i hpc
    have := h.positive hpc rfl
    exact h.goto hpc rfl (by simp only [Pc.owes]; omega)
  | popBottom p =>
    simp only [State.step] at hs
    split at hs <;> cases hs
    rename_i hpc hdeque
    exact h.goto hpc rfl (by simp [hdeque, Pc.owes]; omega)
  | stealTop p =>
    simp only [State.step] at hs
    split at hs <;> cases hs
    rename_i hpc hdeque
    have := congrArg List.length hdeque
    exact h.goto hpc rfl (by simp [Pc.owes] at *; omega)
  | popFifo p available =>
    simp only [State.step] at hs
    split at hs <;> cases hs
    rename_i hpc hpop
    have := (popHead_perm hpop).length_eq
    exact h.goto hpc rfl (by simp [Pc.owes] at *; omega)
  | settle p reserved =>
    simp only [State.step] at hs
    split at hs <;> try cases hs
    rename_i hpc
    have := h.positive hpc rfl
    split at hs <;> cases hs
    · exact h.goto hpc rfl (by simp [Pc.owes]; omega)
    · exact h.goto hpc rfl (by simp only [Pc.owes]; omega)
  | exchangeFifo p current available =>
    simp only [State.step] at hs
    split at hs <;> try cases hs
    rename_i hpc hpop
    split at hs <;> cases hs
    have := (popHead_perm hpop).length_eq
    exact h.goto hpc rfl (by simp [Pc.owes] at *; omega)
  | exchangeDeque p current =>
    simp only [State.step] at hs
    split at hs <;> try cases hs
    rename_i hpc hdeque
    split at hs <;> cases hs
    exact h.goto hpc rfl (by simp [hdeque, Pc.owes]; omega)
  | requeue p =>
    simp only [State.step] at hs
    split at hs <;> cases hs
    rename_i hpc
    exact h.goto hpc rfl (by simp [Pc.owes]; omega)

/-- The deque of the lane as the abstract deque: what is taken is given back at once. -/
structure Lane (b : Spec T) (s : State P T) : Prop where
  held : b.held = none
  items : b.items.map Entry.task = s.deque.reverse

omit [DecidableEq P] [DecidableEq T] in
theorem Lane.pop {b : Spec T} {task : T} {rest : List T} (h : Lane b s) (hdeque : s.deque = task :: rest)
    (hs : s'.deque = rest) : ∃ b', Relation.ReflTransGen (Spec.Step normQueueCap.value) b b' ∧ Lane b' s' := by
  have hitems := h.items
  rw [hdeque, List.reverse_cons, List.map_eq_append_iff] at hitems
  obtain ⟨items, last, hsplit, hrest, hlast⟩ := hitems
  obtain ⟨e, rfl, -⟩ := List.map_eq_singleton_iff.mp hlast
  have htake : Spec.Step normQueueCap.value b _ := .popLast hsplit h.held
  exact ⟨_, .tail (.single htake) (.giveBack rfl), rfl, by rw [hs]; exact hrest⟩

/-- **The deque of the lane** goes through steps of the abstract deque, as the deque of single accesses does. -/
theorem step_lane {a : Action P T} {b : Spec T} (h : Lane b s) (hs : s.step a = some s') :
    ∃ b', Relation.ReflTransGen (Spec.Step normQueueCap.value) b b' ∧ Lane b' s' := by
  have hsame : s'.deque = s.deque → ∃ b', Relation.ReflTransGen (Spec.Step normQueueCap.value) b b' ∧ Lane b' s' :=
    fun hdeque => ⟨b, .refl, h.held, hdeque ▸ h.items⟩
  cases a with
  | noteEnqueue p kind task | settle p reserved | exchangeFifo p current available =>
    simp only [State.step] at hs
    split at hs <;> try cases hs
    split at hs <;> cases hs <;> exact hsame rfl
  | spill p | popFifo p available | requeue p =>
    simp only [State.step] at hs
    split at hs <;> cases hs
    exact hsame rfl
  | publish p =>
    simp only [State.step] at hs
    split at hs <;> cases hs
    rename_i kind task hpc
    cases kind with
    | deque =>
      have hlength : b.items.length = s.deque.length := by simpa using congrArg List.length h.items
      by_cases hroom : s.deque.length < normQueueCap.value
      · refine ⟨_, .single (.push task (hlength ▸ hroom)), h.held, ?_⟩
        simp [State.published, hroom, h.items, Spec.next, State.goto]
      · exact hsame (by simp [State.published, hroom, State.goto])
    | fifo =>
      refine hsame ?_
      simp only [State.published]
      split <;> rfl
    | yieldUnlocked => exact hsame rfl
  | popBottom p =>
    simp only [State.step] at hs
    split at hs <;> cases hs
    exact h.pop ‹_› rfl
  | stealTop p =>
    simp only [State.step] at hs
    split at hs <;> cases hs
    rename_i task rest _ hdeque
    have hitems := h.items
    rw [hdeque, List.map_eq_cons_iff] at hitems
    obtain ⟨e, items, hsplit, -, hrest⟩ := hitems
    exact ⟨_, .single (.steal hsplit), h.held, hrest.trans (List.reverse_reverse rest).symm⟩
  | exchangeDeque p current =>
    simp only [State.step] at hs
    split at hs <;> try cases hs
    split at hs <;> cases hs
    exact h.pop ‹_› rfl

theorem reachable_lane (h : Reachable State.step (State.init P T) s) :
    ∃ b, Relation.ReflTransGen (Spec.Step normQueueCap.value) ⟨0, [], none, [], []⟩ b ∧ Lane b s := by
  refine h.induction (I := fun s => ∃ b, Relation.ReflTransGen (Spec.Step normQueueCap.value) ⟨0, [], none, [], []⟩ b ∧
    Lane b s) ⟨_, .refl, rfl, rfl⟩ ?_
  rintro s a s' ⟨b, hrun, hlane⟩ hs
  obtain ⟨b', hsteps, hlane'⟩ := step_lane hlane hs
  exact ⟨b', hrun.trans hsteps, hlane'⟩

/-- **Accounting of the normal lane.** In every state of every interleaving of pushes, yields, pops, merges, steals and direct
yields the counter is at least the number of queued tasks, and equal to it when no thread is in the middle of an operation;
a thread that has still to drop it finds it positive. -/
theorem norm_depth_accounting (h : Reachable State.step (State.init P T) s) :
    s.deque.length + s.fifo.length ≤ s.depth ∧
    ((∀ p, s.pc p = .idle) → s.depth = s.deque.length + s.fifo.length) ∧
    ∀ p, s.pc p ≠ .idle → 0 < s.depth := by
  have hinv : Accounted s := h.induction ⟨∅, by simp [State.init, Pc.owes], rfl⟩ step_accounted
  have hpositive : ∀ p, s.pc p ≠ .idle → 0 < s.depth := by
    intro p hp
    cases hpc : s.pc p with
    | idle => exact absurd hpc hp
    | _ => exact hinv.positive hpc rfl
  obtain ⟨busy, hbusy, hdepth⟩ := hinv
  refine ⟨by omega, fun hidle => ?_, hpositive⟩
  have hnone : busy = ∅ := by
    refine Finset.eq_empty_of_forall_notMem fun p hp => ?_
    rw [hbusy, hidle] at hp
    cases hp
  rw [hdepth, hnone]
  rfl

/-- An owner pushes two tasks and a thief has taken one, but not yet dropped the counter. -/
theorem norm_depth_accounting_steal : ∃ s : State Bool Nat, s.depth = 2 ∧ s.deque.length + s.fifo.length ≤ s.depth := by
  obtain ⟨s, hs, hdepth⟩ := exists_reachable State.step (State.init Bool Nat) State.depth (b := 2)
    [.noteEnqueue true .deque 1, .publish true, .noteEnqueue true .fifo 2, .publish true, .stealTop false]
    (by decide +kernel)
  exact ⟨s, hdepth, (norm_depth_accounting hs).1⟩

end Depth

end Llam.RunQueue
