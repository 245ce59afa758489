import Llam.Mutex.Model

/-!
# A proof outline of the mutex and the condition variable

`Outline s t pc` says what holds of task `t` while it is at `pc`: whether it owns the mutex, whether its node is queued,
how its wake word stands, and which wakes it owes. `Frame` is what an action of another task leaves alone, and it is all
that an outline reads (`Outline.frame`). `Inv` is the outline of every task together with the law of an unowned mutex; an
action of one task keeps it as soon as it keeps the outline of that task (`Inv.act`).
-/

namespace Llam.Mutex

open Llam.Lib Llam.Wait

variable {T : Type} [DecidableEq T] {s s' : State T} {t u : T}

/-! ## Updates -/

section Updates

variable (s : State T) (t : T) (pc : Pc T) (n : Node T) (b : Bool)

@[simp] theorem setPc_owner : (s.setPc t pc).owner = s.owner := rfl
@[simp] theorem setPc_waiters : (s.setPc t pc).waiters = s.waiters := rfl
@[simp] theorem setPc_condLock : (s.setPc t pc).condLock = s.condLock := rfl
@[simp] theorem setPc_condWaiters : (s.setPc t pc).condWaiters = s.condWaiters := rfl
@[simp] theorem setPc_node : (s.setPc t pc).node = s.node := rfl
@[simp] theorem setPc_inside : (s.setPc t pc).inside = s.inside := rfl
@[simp] theorem setPc_pc_self : (s.setPc t pc).pc t = pc := by simp [State.setPc]
@[simp] theorem setNode_owner : (s.setNode t n).owner = s.owner := rfl
@[simp] theorem setNode_waiters : (s.setNode t n).waiters = s.waiters := rfl
@[simp] theorem setNode_inside : (s.setNode t n).inside = s.inside := rfl
@[simp] theorem setNode_node_self : (s.setNode t n).node t = n := by simp [State.setNode]
@[simp] theorem setInside_owner : (s.setInside t b).owner = s.owner := rfl
@[simp] theorem setInside_node : (s.setInside t b).node = s.node := rfl
@[simp] theorem setInside_inside_self : (s.setInside t b).inside t = b := by simp [State.setInside]

variable {t}

@[simp] theorem setPc_pc_of_ne (h : u ≠ t) : (s.setPc t pc).pc u = s.pc u := by simp [State.setPc, h]
@[simp] theorem setNode_node_of_ne (h : u ≠ t) : (s.setNode t n).node u = s.node u := by simp [State.setNode, h]
@[simp] theorem setInside_inside_of_ne (h : u ≠ t) : (s.setInside t b).inside u = s.inside u := by
  simp [State.setInside, h]

end Updates

/-! ## Assertions -/

/-- `t` waits nowhere and holds no lock of the condition variable. -/
structure Calm (s : State T) (t : T) : Prop where
  notQueued : t ∉ s.waiters.waiting
  notCond : t ∉ s.condWaiters.waiting
  noWaker : (s.node t).waker = none
  noLock : s.condLock ≠ some t

/-- `t` owns the mutex exactly when it got it from a call. -/
def Synced (s : State T) (t : T) : Prop := s.owner = some t ↔ s.inside t = true

/-- `t` owns the mutex if `b`, and got it from a call. -/
def Has (s : State T) (t : T) (b : Bool) : Prop := s.inside t = b ∧ Synced s t

/-- A call that takes the mutex back for a condition wait cannot be ended by a timer or by cancellation, and knows
whether a signal ended that wait. -/
def LockCall.Ok (call : LockCall) : Prop :=
  ∀ r, call.reacquire = some r → call.hasDeadline = false ∧ call.cancellable = false ∧ (r.2 = true ↔ r.1 = none)

/-- What a returned call says about its caller. -/
def ReturnOk : Op → Option Errno → Bool → Prop
  | .trylock, none, inside => inside = true
  | .trylock, some error, _ => error = .EBUSY
  | .lock, none, inside => inside = true
  | .lock, some error, inside => inside = true ↔ error = .EDEADLK
  | .unlock, none, inside => inside = false
  | .unlock, some error, inside => error = .EPERM ∧ inside = false
  | .condWait true consumed, result, inside => inside = true ∧ (consumed = true ↔ result = none)
  | .condWait false consumed, result, inside =>
    consumed = false ∧ ∃ error, result = some error ∧ (inside = true ↔ error ≠ .EPERM)
  | .signal, result, _ => result = none
  | .broadcast, result, _ => result = none

/-- The node of `t` was pushed to `q` and its wait is not over. -/
structure Pushed (q : Fifo T) (n : Node T) (t : T) : Prop where
  mem : t ∈ q.waiting ↔ n.resolved = false
  clean : n.resolved = false → n.errorCode = none ∧ n.scalarValue = false
  error : n.errorCode = none ∨ n.errorCode = some .ETIMEDOUT ∨ n.errorCode = some .ECANCELED
  owed : n.waker ≠ none → n.wakeArmed.completed = false
  withdrawn : n.errorCode ≠ none → q.ticket t ∈ q.withdrawn
  served : n.resolved = true → n.errorCode = none → q.ticket t ∈ q.served

/-- `t` waits for the mutex: it owns it as soon as it is popped without an error. -/
structure WaitsMutex (s : State T) (t : T) (call : LockCall) : Prop where
  pushed : Pushed s.waiters (s.node t) t
  callOk : call.Ok
  outside : s.inside t = false
  owner : s.owner = some t ↔ (s.node t).resolved = true ∧ (s.node t).errorCode = none
  notCond : t ∉ s.condWaiters.waiting
  steady : call.reacquire ≠ none →
    (s.node t).uninterruptible = true ∧ (s.node t).timerArmed = false ∧ (s.node t).errorCode = none

/-- `t` waits for a signal: it was popped by one exactly when its wait ended without an error. -/
structure WaitsCond (s : State T) (t : T) : Prop where
  pushed : Pushed s.condWaiters (s.node t) t
  notQueued : t ∉ s.waiters.waiting
  signalled : (s.node t).resolved = true → ((s.node t).scalarValue = true ↔ (s.node t).errorCode = none)

def Waits (s : State T) (t : T) : Wait → Prop
  | .mutex call => WaitsMutex s t call ∧ s.condLock ≠ some t
  | .cond _ => WaitsCond s t ∧ Has s t false ∧ s.condLock ≠ some t

/-- The waiter has not yet tried to park. -/
def Running (n : Node T) : Prop := n.wakeArmed = .unarmed ∨ n.wakeArmed = .completedInline

/-- `t` holds the lock of the condition variable, so that nobody has popped its node. -/
def Locking (s : State T) (t : T) : Prop :=
  s.condLock = some t ∧ (s.node t).waker = none ∧ (s.node t).wakeArmed = .unarmed

/-- `t` has popped the tasks of `ws` and still has to wake them. -/
def Owes (s : State T) (t : T) (ws : List T) : Prop := ws.Nodup ∧ ∀ w ∈ ws, (s.node w).waker = some (.task t)

/-- What holds of `t` at a program counter. -/
def Outline (s : State T) (t : T) : Pc T → Prop
  | .idle | .trylock | .unlockLoad | .condLoad _ | .signalLocked | .broadcastLocked => Calm s t ∧ Synced s t
  | .returned op result => Calm s t ∧ Synced s t ∧ ReturnOk op result (s.inside t)
  | .lockLoad call => Calm s t ∧ Synced s t ∧ call.Ok ∧ (call.reacquire ≠ none → s.inside t = false)
  | .lockCas call | .lockPrepare call => Calm s t ∧ Has s t false ∧ call.Ok
  | .lockEnqueue call => Calm s t ∧ Has s t false ∧ call.Ok ∧ s.node t = .reset !call.cancellable
  | .track w | .arm w | .register w | .ready w => Waits s t w ∧ Running (s.node t)
  | .rollback w error => Waits s t w ∧ Running (s.node t) ∧ error ≠ .EDEADLK
  | .parked w => Waits s t w
  | .finish w => Waits s t w ∧ (s.node t).wakeArmed.completed = true
  | .unlockLocked | .condPrepare _ => Calm s t ∧ Has s t true
  | .unlockWake next => Calm s t ∧ Has s t false ∧ Owes s t [next]
  | .condEnqueue _ => Calm s t ∧ Has s t true ∧ s.node t = .reset false
  | .condRecheck _ | .condRelease _ => WaitsCond s t ∧ Has s t true ∧ Locking s t
  | .condHandOff _ next => WaitsCond s t ∧ Has s t false ∧ Locking s t ∧ Owes s t next.toList
  | .reacquire result consumed => Calm s t ∧ Has s t false ∧ (consumed = true ↔ result = none)
  | .signalWake next => Calm s t ∧ Synced s t ∧ Owes s t [next]
  | .broadcastWake rest => Calm s t ∧ Synced s t ∧ Owes s t rest
  | .aborted => Calm s t ∧ Has s t false

/-! ## Frames -/

/-- What an action of another task leaves alone of `u`. -/
structure Frame (s s' : State T) (u : T) : Prop where
  node : s'.node u = s.node u
  inside : s'.inside u = s.inside u
  owner : s'.owner = some u ↔ s.owner = some u
  lock : s'.condLock = some u ↔ s.condLock = some u
  queue : Fifo.Unmoved s.waiters s'.waiters u
  cond : Fifo.Unmoved s.condWaiters s'.condWaiters u
  owed : ∀ w, (s.node w).waker = some (.task u) → (s'.node w).waker = some (.task u)

theorem Calm.frame (h : Calm s u) (hf : Frame s s' u) : Calm s' u where
  notQueued hm := h.notQueued (hf.queue.mem.mp hm)
  notCond hm := h.notCond (hf.cond.mem.mp hm)
  noWaker := by rw [hf.node]; exact h.noWaker
  noLock hl := h.noLock (hf.lock.mp hl)

theorem Synced.frame (h : Synced s u) (hf : Frame s s' u) : Synced s' u := by
  unfold Synced
  rw [hf.owner, hf.inside]
  exact h

theorem Has.frame {b : Bool} (h : Has s u b) (hf : Frame s s' u) : Has s' u b :=
  ⟨hf.inside.trans h.1, h.2.frame hf⟩

theorem Pushed.frame {q q' : Fifo T} {n : Node T} (h : Pushed q n u) (hq : Fifo.Unmoved q q' u) : Pushed q' n u where
  mem := hq.mem.trans h.mem
  clean := h.clean
  error := h.error
  owed := h.owed
  withdrawn he := by rw [hq.ticket]; exact hq.withdrawn _ (h.withdrawn he)
  served hr he := by rw [hq.ticket]; exact hq.served _ (h.served hr he)

theorem WaitsMutex.frame {call : LockCall} (h : WaitsMutex s u call) (hf : Frame s s' u) : WaitsMutex s' u call where
  pushed := by rw [hf.node]; exact h.pushed.frame hf.queue
  callOk := h.callOk
  outside := hf.inside.trans h.outside
  owner := by rw [hf.node, hf.owner]; exact h.owner
  notCond hm := h.notCond (hf.cond.mem.mp hm)
  steady := by rw [hf.node]; exact h.steady

theorem WaitsCond.frame (h : WaitsCond s u) (hf : Frame s s' u) : WaitsCond s' u where
  pushed := by rw [hf.node]; exact h.pushed.frame hf.cond
  notQueued hm := h.notQueued (hf.queue.mem.mp hm)
  signalled := by rw [hf.node]; exact h.signalled

theorem Waits.frame {w : Wait} (h : Waits s u w) (hf : Frame s s' u) : Waits s' u w := by
  cases w with
  | mutex call => exact ⟨h.1.frame hf, fun hl => h.2 (hf.lock.mp hl)⟩
  | cond d => exact ⟨h.1.frame hf, h.2.1.frame hf, fun hl => h.2.2 (hf.lock.mp hl)⟩

theorem Locking.frame (h : Locking s u) (hf : Frame s s' u) : Locking s' u := by
  unfold Locking
  rw [hf.node]
  exact ⟨hf.lock.mpr h.1, h.2⟩

theorem Owes.frame {ws : List T} (h : Owes s u ws) (hf : Frame s s' u) : Owes s' u ws :=
  ⟨h.1, fun w hw => hf.owed w (h.2 w hw)⟩

/-- **The outline of a task reads only its frame.** -/
theorem Outline.frame {pc : Pc T} (h : Outline s u pc) (hf : Frame s s' u) : Outline s' u pc := by
  cases pc with
  | idle | trylock | unlockLoad | condLoad _ | signalLocked | broadcastLocked | unlockLocked | condPrepare _
  | aborted =>
    exact ⟨h.1.frame hf, h.2.frame hf⟩
  | returned op result => exact ⟨h.1.frame hf, h.2.1.frame hf, by rw [hf.inside]; exact h.2.2⟩
  | lockLoad call => exact ⟨h.1.frame hf, h.2.1.frame hf, h.2.2.1, by rw [hf.inside]; exact h.2.2.2⟩
  | lockCas call | lockPrepare call | reacquire result consumed => exact ⟨h.1.frame hf, h.2.1.frame hf, h.2.2⟩
  | lockEnqueue call => exact ⟨h.1.frame hf, h.2.1.frame hf, h.2.2.1, by rw [hf.node]; exact h.2.2.2⟩
  | track w | arm w | register w | ready w | rollback w error | finish w =>
    exact ⟨h.1.frame hf, by rw [hf.node]; exact h.2⟩
  | parked w => exact Waits.frame h hf
  | unlockWake next | condRecheck _ | condRelease _ | signalWake next | broadcastWake rest =>
    exact ⟨h.1.frame hf, h.2.1.frame hf, h.2.2.frame hf⟩
  | condEnqueue _ => exact ⟨h.1.frame hf, h.2.1.frame hf, by rw [hf.node]; exact h.2.2⟩
  | condHandOff _ next => exact ⟨h.1.frame hf, h.2.1.frame hf, h.2.2.1.frame hf, h.2.2.2.frame hf⟩

/-- Every task is where its outline says, and a mutex without an owner has no waiters. -/
structure Inv (s : State T) : Prop where
  outline : ∀ t, Outline s t (s.pc t)
  unowned : s.owner = none → s.waiters.waiting = []

theorem Frame.refl (s : State T) (u : T) : Frame s s u where
  node := rfl
  inside := rfl
  owner := Iff.rfl
  lock := Iff.rfl
  queue := Fifo.Unmoved.refl _ _
  cond := Fifo.Unmoved.refl _ _
  owed _ h := h

theorem Frame.trans {s₁ s₂ s₃ : State T} (h : Frame s₁ s₂ u) (h' : Frame s₂ s₃ u) : Frame s₁ s₃ u where
  node := h'.node.trans h.node
  inside := h'.inside.trans h.inside
  owner := h'.owner.trans h.owner
  lock := h'.lock.trans h.lock
  queue := h.queue.trans h'.queue
  cond := h.cond.trans h'.cond
  owed w hw := h'.owed w (h.owed w hw)

/-! ## Actions of one task -/

/-- From `s` to `s'` only task `t` has acted: the others stay where they are, with their frames. -/
def Acts (t : T) (s s' : State T) : Prop := ∀ u, u ≠ t → s'.pc u = s.pc u ∧ Frame s s' u

theorem Acts.trans {s₁ s₂ s₃ : State T} (h : Acts t s₁ s₂) (h' : Acts t s₂ s₃) : Acts t s₁ s₃ := fun u hu =>
  ⟨(h' u hu).1.trans (h u hu).1, (h u hu).2.trans (h' u hu).2⟩

/-- The outlines of the other tasks hold. -/
def Others (t : T) (s : State T) : Prop := ∀ u, u ≠ t → Outline s u (s.pc u)

theorem Others.act (h : Others t s) (ha : Acts t s s') (ht : Outline s' t (s'.pc t))
    (hunowned : s'.owner = none → s'.waiters.waiting = []) : Inv s' where
  outline u := by
    by_cases hu : u = t
    · subst hu; exact ht
    · rw [(ha u hu).1]
      exact (h u hu).frame (ha u hu).2
  unowned := hunowned

theorem Inv.act (h : Inv s) (ha : Acts t s s') (ht : Outline s' t (s'.pc t))
    (hunowned : s'.owner = none → s'.waiters.waiting = []) : Inv s' :=
  Others.act (fun u _ => h.outline u) ha ht hunowned

theorem frame_setPc (s : State T) (t u : T) (pc : Pc T) : Frame s (s.setPc t pc) u := { Frame.refl s u with }

theorem acts_setPc (s : State T) (t : T) (pc : Pc T) : Acts t s (s.setPc t pc) := fun u hu =>
  ⟨setPc_pc_of_ne s pc hu, frame_setPc s t u pc⟩

theorem acts_setInside (s : State T) (t : T) (b : Bool) : Acts t s (s.setInside t b) := fun u hu =>
  ⟨rfl, { Frame.refl s u with inside := setInside_inside_of_ne s b hu }⟩

/-- The node of `t` changes, and nobody owed `t` a wake or still does. -/
theorem acts_setNode {n : Node T} (hw : ∀ u, (s.node t).waker = some (.task u) → n.waker = some (.task u)) :
    Acts t s (s.setNode t n) := by
  intro u hu
  refine ⟨rfl, { Frame.refl s u with node := setNode_node_of_ne s n hu, owed := fun w h => ?_ }⟩
  by_cases hwt : w = t
  · subst hwt
    rw [setNode_node_self]
    exact hw u h
  · rw [setNode_node_of_ne s n hwt]
    exact h

theorem acts_take (h : s.owner = none) : Acts t s { s with owner := some t } := by
  intro u hu
  refine ⟨rfl, { Frame.refl s u with owner := ?_ }⟩
  simp [h, Ne.symm hu]

theorem acts_lock {l : Option T} (h : s.condLock = none ∨ s.condLock = some t) (hl : l = none ∨ l = some t) :
    Acts t s { s with condLock := l } := by
  intro u hu
  refine ⟨rfl, { Frame.refl s u with lock := ?_ }⟩
  have h₁ : s.condLock ≠ some u := by rcases h with h | h <;> simp [h, Ne.symm hu]
  have h₂ : l ≠ some u := by rcases hl with h | h <;> simp [h, Ne.symm hu]
  exact ⟨fun h => absurd h h₂, fun h => absurd h h₁⟩

theorem acts_setQueue {w : Wait} {q : Fifo T} (h : ∀ u, u ≠ t → Fifo.Unmoved (s.queue w) q u) :
    Acts t s (s.setQueue w q) := by
  intro u hu
  cases w with
  | mutex call => exact ⟨rfl, { Frame.refl s u with queue := h u hu }⟩
  | cond d => exact ⟨rfl, { Frame.refl s u with cond := h u hu }⟩

theorem Inv.goto {pc : Pc T} (h : Inv s) (ho : Outline s t pc) : Inv (s.setPc t pc) := by
  refine h.act (acts_setPc s t pc) ?_ h.unowned
  rw [setPc_pc_self]
  exact ho.frame (frame_setPc s t t pc)

end Llam.Mutex
