import Llam.Mutex.Outline

/-!
# Locking and waiting keep the outline

The sections in which a task touches only its own part of the state: the ways into the mutex and the setup, the rollback
and the end of a wait. Each is an `Acts` step to the outline of the next program counter.
-/

namespace Llam.Mutex

open Llam.Lib Llam.Wait

variable {T : Type} [DecidableEq T] {s s' : State T} {t u : T}

/-! ## Lock -/

@[simp] theorem finishLock_owner (s : State T) (t : T) (call : LockCall) (r : Option Errno) :
    (finishLock s t call r).owner = s.owner := by
  unfold finishLock; split <;> rfl

@[simp] theorem finishLock_waiters (s : State T) (t : T) (call : LockCall) (r : Option Errno) :
    (finishLock s t call r).waiters = s.waiters := by
  unfold finishLock; split <;> rfl

theorem finishLock_acts (s : State T) (t : T) (call : LockCall) (r : Option Errno) :
    Acts t s (finishLock s t call r) := by
  unfold finishLock
  split
  · exact (acts_setInside s t true).trans (acts_setPc _ t _)
  · exact acts_setPc s t _
  · exact (acts_setInside s t true).trans (acts_setPc _ t _)
  · exact acts_setPc s t _

/-- Changing `inside` of a task that owns the mutex leaves it calm. -/
theorem Calm.setInside (h : Calm s t) (b : Bool) (pc : Pc T) : Calm ((s.setInside t b).setPc t pc) t := ⟨h.1, h.2, h.3, h.4⟩

variable {call : LockCall} {error : Errno} {n : Node T} {env : Env} {w : Wait}

theorem finishLock_ok (hcalm : Calm s t) (hcall : call.Ok) (howner : s.owner = some t) :
    Outline (finishLock s t call none) t ((finishLock s t call none).pc t) := by
  unfold finishLock
  split
  · rw [setPc_pc_self]
    refine ⟨hcalm.setInside true _, ?_, ?_⟩
    · simp [Synced, howner]
    · simp [ReturnOk]
  · rename_i heq; cases heq
  · rename_i waited consumed hre _
    rw [setPc_pc_self]
    refine ⟨hcalm.setInside true _, ?_, ?_⟩
    · simp [Synced, howner]
    · simpa [ReturnOk] using (hcall _ hre).2.2
  · rename_i heq; cases heq

theorem finishLock_error (hcalm : Calm s t) (hhas : Has s t false) (herr : error ≠ .EDEADLK) :
    Outline (finishLock s t call (some error)) t ((finishLock s t call (some error)).pc t) := by
  have hf := frame_setPc s t t
  unfold finishLock
  split
  · rename_i heq; cases heq
  · rename_i e _ heq
    cases heq
    rw [setPc_pc_self]
    refine ⟨hcalm.frame (hf _), hhas.2.frame (hf _), ?_⟩
    simp [ReturnOk, hhas.1, herr]
  · rename_i heq; cases heq
  · rw [setPc_pc_self]
    exact ⟨hcalm.frame (hf _), hhas.frame (hf _)⟩

theorem tryLock_inv (h : Inv s) (ho : Outline s t .trylock) : Inv (tryLock s t) := by
  unfold tryLock
  split
  · rename_i hnone
    refine h.act ((acts_take hnone).trans ((acts_setInside _ t true).trans (acts_setPc _ t _))) ?_ (by simp)
    rw [setPc_pc_self]
    refine ⟨⟨ho.1.1, ho.1.2, ho.1.3, ho.1.4⟩, ?_, ?_⟩
    · simp [Synced]
    · simp [ReturnOk]
  · exact h.goto ⟨ho.1, ho.2, rfl⟩

theorem lockLoad_inv (h : Inv s) (ho : Outline s t (.lockLoad call)) : Inv (lockLoad s t call) := by
  obtain ⟨hcalm, hsync, hcall, hre⟩ := ho
  unfold lockLoad
  split
  · -- the owner locks again
    rename_i howner
    have hin : s.inside t = true := hsync.mp howner
    have hnone : call.reacquire = none := by
      by_contra hne
      rw [hre hne] at hin
      cases hin
    have hgoto : finishLock s t call (some .EDEADLK) = s.setPc t (.returned .lock (some .EDEADLK)) := by
      simp [finishLock, hnone]
    rw [hgoto]
    exact h.goto ⟨hcalm, hsync, by simp [ReturnOk, hin]⟩
  · rename_i howner
    refine h.goto ⟨hcalm, ⟨?_, hsync⟩, hcall⟩
    exact Bool.eq_false_iff.mpr fun hin => howner (hsync.mpr hin)

/-- Taking a free mutex ends the call, also for a task that already has a node. -/
theorem take_inv (h : Inv s) (hcalm : Calm s t) (hcall : call.Ok) (hnone : s.owner = none) :
    Inv (finishLock { s with owner := some t } t call none) := by
  refine h.act ((acts_take hnone).trans (finishLock_acts _ t call none)) ?_ (by simp)
  exact finishLock_ok ⟨hcalm.1, hcalm.2, hcalm.3, hcalm.4⟩ hcall rfl

theorem fail_inv (h : Inv s) (hcalm : Calm s t) (hhas : Has s t false)
    (herr : error ≠ .EDEADLK) : Inv (finishLock s t call (some error)) := by
  refine h.act (finishLock_acts s t call _) (finishLock_error hcalm hhas herr) ?_
  simpa using h.unowned

theorem lockCas_inv (h : Inv s) (ho : Outline s t (.lockCas call)) : Inv (lockCas s t call) := by
  unfold lockCas
  split
  · rename_i hnone
    exact take_inv h ho.1 ho.2.2 hnone
  · exact h.goto ho

/-- A fresh node for a task that waits nowhere. -/
theorem Calm.setNode (h : Calm s t) (hn : n.waker = none) : Calm (s.setNode t n) t :=
  ⟨h.1, h.2, by rw [setNode_node_self]; exact hn, h.4⟩

theorem Calm.acts_setNode (h : Calm s t) : Acts t s (s.setNode t n) :=
  Mutex.acts_setNode fun u hu => by rw [h.noWaker] at hu; cases hu

theorem lockPrepare_inv (h : Inv s) (ho : Outline s t (.lockPrepare call)) : Inv (lockPrepare s t call env) := by
  obtain ⟨hcalm, hhas, hcall⟩ := ho
  unfold lockPrepare
  split
  · exact fail_inv h hcalm hhas (by simp)
  split
  · exact fail_inv h hcalm hhas (by simp)
  refine h.act (hcalm.acts_setNode.trans (acts_setPc _ t _)) ?_ h.unowned
  rw [setPc_pc_self]
  refine Outline.frame ?_ (frame_setPc _ t t _)
  exact ⟨hcalm.setNode rfl, hhas, hcall, setNode_node_self s t _⟩

theorem lockEnqueue_inv (h : Inv s) (ho : Outline s t (.lockEnqueue call)) : Inv (lockEnqueue s t call) := by
  obtain ⟨hcalm, hhas, hcall, hnode⟩ := ho
  unfold lockEnqueue
  split
  · rename_i hnone
    exact take_inv h hcalm hcall hnone
  rename_i howner
  have hne : s.owner ≠ some t := fun ho => by have := hhas.2.mp ho; rw [hhas.1] at this; cases this
  have hacts : Acts t s { s with waiters := s.waiters.push t } :=
    acts_setQueue (w := .mutex call) fun u hu => Fifo.push_unmoved _ hu
  refine h.act (hacts.trans (acts_setPc _ t _)) ?_ fun hnone => absurd hnone howner
  rw [setPc_pc_self]
  refine ⟨⟨?_, hcalm.noLock⟩, by simp [Running, hnode, Node.reset]⟩
  refine ⟨?_, hcall, hhas.1, ?_, hcalm.notCond, ?_⟩
  · constructor <;> simp [hnode, Node.reset, Node.resolved, WakeWord.completed, Fifo.mem_push]
  · simp [hnode, Node.reset, Node.resolved, WakeWord.completed, hne]
  · intro hre
    obtain ⟨r, hr⟩ := Option.ne_none_iff_exists'.mp hre
    simp [hnode, Node.reset, (hcall r hr).2.1]

/-! ## Waiting -/

/-- What a waiter's program counter says about its node. -/
def Phase : Pc T → Node T → Prop
  | .track _, n | .arm _, n | .register _, n | .ready _, n => Running n
  | .rollback _ error, n => Running n ∧ error ≠ .EDEADLK
  | .finish _, n => n.wakeArmed.completed = true
  | _, _ => True

theorem outline_wait {pc : Pc T} (hw : pc.wait = some w) : Outline s u pc ↔ Waits s u w ∧ Phase pc (s.node u) := by
  cases pc <;> simp only [Pc.wait, Option.some.injEq, reduceCtorEq] at hw <;> subst hw <;> simp [Outline, Phase]

/-- Two nodes of which a wait cannot tell the difference, apart from the wake word. -/
structure SameWait (w : Wait) (n n' : Node T) : Prop where
  resolved : n'.resolved = n.resolved
  error : n'.errorCode = n.errorCode
  scalar : n'.scalarValue = n.scalarValue
  owed : n'.waker ≠ none → n'.wakeArmed.completed = false
  uninterruptible : n'.uninterruptible = n.uninterruptible
  timer : n'.timerArmed = true → n.timerArmed = true ∨ w.hasDeadline = true

theorem Pushed.congr {q : Fifo T} {n' : Node T} (h : Pushed q n u) (hs : SameWait w n n') : Pushed q n' u where
  mem := by rw [hs.resolved]; exact h.mem
  clean := by rw [hs.resolved, hs.error, hs.scalar]; exact h.clean
  error := by rw [hs.error]; exact h.error
  owed := hs.owed
  withdrawn := by rw [hs.error]; exact h.withdrawn
  served := by rw [hs.resolved, hs.error]; exact h.served

theorem WaitsCond.setNode (h : WaitsCond s t) (hs : SameWait w (s.node t) n) : WaitsCond (s.setNode t n) t where
  pushed := by rw [setNode_node_self]; exact h.pushed.congr hs
  notQueued := h.notQueued
  signalled := by rw [setNode_node_self, hs.resolved, hs.scalar, hs.error]; exact h.signalled

theorem WaitsMutex.setNode (h : WaitsMutex s t call)
    (hs : SameWait (.mutex call) (s.node t) n) : WaitsMutex (s.setNode t n) t call where
  pushed := by rw [setNode_node_self]; exact h.pushed.congr hs
  callOk := h.callOk
  outside := h.outside
  owner := by rw [setNode_node_self, hs.resolved, hs.error]; exact h.owner
  notCond := h.notCond
  steady hre := by
    obtain ⟨hun, htimer, herr⟩ := h.steady hre
    obtain ⟨r, hr⟩ := Option.ne_none_iff_exists'.mp hre
    rw [setNode_node_self, hs.uninterruptible, hs.error]
    refine ⟨hun, Bool.eq_false_iff.mpr fun hn => ?_, herr⟩
    rcases hs.timer hn with ht | hd
    · rw [htimer] at ht; cases ht
    · rw [Wait.hasDeadline, (h.callOk r hr).1] at hd; cases hd

theorem Waits.setNode (h : Waits s t w) (hs : SameWait w (s.node t) n) : Waits (s.setNode t n) t w := by
  cases w with
  | mutex call | cond d => exact ⟨h.1.setNode hs, h.2⟩

theorem Waits.owed (h : Waits s t w) : (s.node t).waker ≠ none → (s.node t).wakeArmed.completed = false := by
  cases w with
  | mutex call | cond d => exact h.1.pushed.owed

/-- The setup of a wait changes its tracking only. -/
theorem Waits.sameWait (h : Waits s t w) {tracked timer : Bool}
    (ht : timer = true → (s.node t).timerArmed = true ∨ w.hasDeadline = true) :
    SameWait w (s.node t) { s.node t with tracked := tracked, timerArmed := timer } :=
  ⟨rfl, rfl, rfl, h.owed, rfl, ht⟩

/-- A waiter moves on with a node that its wait cannot tell apart. -/
theorem Inv.waitStep {pc : Pc T} (h : Inv s) (hw : Waits s t w)
    (hs : SameWait w (s.node t) n) (hwaker : n.waker = (s.node t).waker) (hpc : pc.wait = some w) (hphase : Phase pc n) :
    Inv ((s.setNode t n).setPc t pc) := by
  have hacts : Acts t s (s.setNode t n) := acts_setNode fun u hu => by rw [hwaker]; exact hu
  refine h.act (hacts.trans (acts_setPc _ t pc)) ?_ h.unowned
  rw [setPc_pc_self]
  refine Outline.frame ?_ (frame_setPc _ t t _)
  exact (outline_wait hpc).mpr ⟨hw.setNode hs, by rw [setNode_node_self]; exact hphase⟩

theorem setTracking_inv (h : Inv s) (ho : Outline s t (.track w)) : Inv (setTracking s t w env) := by
  unfold setTracking
  split
  · split
    · exact h.goto ho
    · exact h.goto ⟨ho.1, ho.2, by simp⟩
  · exact h.waitStep ho.1 (ho.1.sameWait .inl) rfl rfl ho.2

theorem armDeadline_inv (h : Inv s) (ho : Outline s t (.arm w)) : Inv (armDeadline s t w env) := by
  unfold armDeadline
  split
  · rename_i hd
    split
    · rename_i error _
      split
      · exact h.goto ho
      · exact h.goto ⟨ho.1, ho.2, by cases error <;> simp [ArmError.errno]⟩
    · exact h.waitStep ho.1 (ho.1.sameWait fun _ => .inr hd) rfl rfl ho.2
  · exact h.goto ho

theorem registerCancel_inv (h : Inv s) (ho : Outline s t (.register w)) : Inv (registerCancel s t w env) := by
  unfold registerCancel
  split
  · split
    · rename_i error _
      split
      · exact h.goto ho
      · refine h.waitStep ho.1 (ho.1.sameWait (by simp)) rfl rfl ⟨ho.2, ?_⟩
        cases error <;> simp [RegisterError.errno]
    · exact h.goto ho
  · exact h.goto ho

theorem testPark_inv (h : Inv s) (ho : Outline s t (.ready w)) : Inv (testPark s t w) := by
  obtain ⟨hwait, hrun⟩ := ho
  have hs : SameWait w (s.node t) { s.node t with wakeArmed := (s.node t).wakeArmed.shouldPark.1 } := by
    refine ⟨?_, rfl, rfl, fun hne => ?_, rfl, .inl⟩
    · simp [Node.resolved]
    · simpa using hwait.owed hne
  refine h.waitStep hwait hs rfl ?_ ?_
  · split <;> rfl
  · rcases hrun with hword | hword <;> simp [hword, WakeWord.shouldPark, Phase, WakeWord.completed]

theorem unpark_inv (h : Inv s) (ho : Outline s t (.parked w)) (hstep : unpark s t w = some s') : Inv s' := by
  unfold unpark at hstep
  split at hstep
  · rename_i hword
    cases hstep
    exact h.goto ⟨ho, by simp [hword, WakeWord.completed]⟩
  · cases hstep

/-- A waiter whose node is still queued does not own the mutex and is owed nothing. -/
theorem Waits.queued (h : Waits s t w) (hm : t ∈ (s.queue w).waiting) :
    (s.node t).resolved = false ∧ (s.node t).waker = none ∧ Has s t false ∧ s.condLock ≠ some t := by
  have hun : (s.node t).resolved = false := by
    cases w with
    | mutex call | cond d => exact h.1.pushed.mem.mp hm
  refine ⟨hun, ?_, ?_⟩
  · simp only [Node.resolved, Bool.or_eq_false_iff] at hun
    simpa using hun.1
  · cases w with
    | mutex call => exact ⟨⟨h.1.outside, by simp [Synced, h.1.owner, hun, h.1.outside]⟩, h.2⟩
    | cond d => exact h.2

section Withdraw

variable (s : State T) (t : T) (w : Wait) (n : Node T)

@[simp] theorem withdraw_owner : (withdraw s t w n).owner = s.owner := by cases w <;> rfl
@[simp] theorem withdraw_inside : (withdraw s t w n).inside = s.inside := by cases w <;> rfl
@[simp] theorem withdraw_pc : (withdraw s t w n).pc = s.pc := by cases w <;> rfl
@[simp] theorem withdraw_node_self : (withdraw s t w n).node t = n := by cases w <;> simp [withdraw]

variable {s t w n}

theorem withdraw_acts (hwaker : (s.node t).waker = none) : Acts t s (withdraw s t w n) := by
  refine (acts_setQueue fun u hu => Fifo.remove_unmoved _ hu).trans (acts_setNode fun u hu => ?_)
  have hnode : (s.setQueue w ((s.queue w).remove t)).node = s.node := by cases w <;> rfl
  rw [hnode, hwaker] at hu
  cases hu

/-- Withdrawing a node keeps the law of an unowned mutex. -/
theorem Inv.unowned_withdraw (h : Inv s) (hnone : (withdraw s t w n).owner = none) :
    (withdraw s t w n).waiters.waiting = [] := by
  have hnil := h.unowned ((withdraw_owner s t w n).symm.trans hnone)
  cases w with
  | mutex call =>
    have hsub := Fifo.remove_sublist s.waiters t
    rw [hnil] at hsub
    exact List.sublist_nil.mp hsub
  | cond d => exact hnil

theorem Waits.calm_withdraw (h : Waits s t w) (hn : n.waker = none) : Calm (withdraw s t w n) t := by
  have hnode : ((withdraw s t w n).node t).waker = none := by rw [withdraw_node_self]; exact hn
  cases w with
  | mutex call =>
    refine ⟨?_, h.1.notCond, hnode, h.2⟩
    show t ∉ (s.waiters.remove t).waiting
    simp [Fifo.mem_remove]
  | cond d =>
    refine ⟨h.1.notQueued, ?_, hnode, h.2.2⟩
    show t ∉ (s.condWaiters.remove t).waiting
    simp [Fifo.mem_remove]

end Withdraw

theorem rollback_inv (h : Inv s) (ho : Outline s t (.rollback w error))
    (hstep : rollback s t w error = some s') : Inv s' := by
  obtain ⟨hwait, hrun, herr⟩ := ho
  unfold rollback at hstep
  split at hstep
  · cases hstep
  split at hstep
  · cases hstep
    exact h.goto ⟨hwait, hrun⟩
  rename_i hmem
  obtain ⟨-, hwaker, hhas, -⟩ := hwait.queued (not_not.mp hmem)
  generalize hs₁ : withdraw s t w { s.node t with tracked := false, timerArmed := false } = s₁ at hstep
  have hcalm : Calm s₁ t := hs₁ ▸ hwait.calm_withdraw hwaker
  have hhas₁ : Has s₁ t false := by
    rw [← hs₁, Has, Synced, withdraw_owner, withdraw_inside]
    exact hhas
  have hacts : Acts t s s₁ := hs₁ ▸ withdraw_acts hwaker
  have hunowned : s₁.owner = none → s₁.waiters.waiting = [] := hs₁ ▸ h.unowned_withdraw
  cases w with
  | mutex call =>
    cases hstep
    refine h.act (hacts.trans (finishLock_acts s₁ t call _)) (finishLock_error hcalm hhas₁ herr) ?_
    rw [finishLock_owner, finishLock_waiters]
    exact hunowned
  | cond d =>
    cases hstep
    refine h.act (hacts.trans (acts_setPc s₁ t _)) ?_ hunowned
    rw [setPc_pc_self]
    exact Outline.frame ⟨hcalm, hhas₁, by simp⟩ (frame_setPc s₁ t t _)

theorem Waits.calm_completed (h : Waits s t w) (hc : (s.node t).wakeArmed.completed = true) : Calm s t := by
  have hwaker : (s.node t).waker = none := by
    by_contra hne
    rw [h.owed hne] at hc
    cases hc
  have hres : (s.node t).resolved ≠ false := by simp [Node.resolved, hc]
  cases w with
  | mutex call => exact ⟨fun hm => hres (h.1.pushed.mem.mp hm), h.1.notCond, hwaker, h.2⟩
  | cond d => exact ⟨h.1.notQueued, fun hm => hres (h.1.pushed.mem.mp hm), hwaker, h.2.2⟩

theorem finishWait_inv (h : Inv s) (ho : Outline s t (.finish w)) : Inv (finishWait s t w) := by
  obtain ⟨hwait, hc⟩ := ho
  have hcalm := hwait.calm_completed hc
  have hres : (s.node t).resolved = true := by simp [Node.resolved, hc]
  unfold finishWait
  dsimp only
  generalize hs₁ : s.setNode t { s.node t with tracked := false, timerArmed := false } = s₁
  have hcalm₁ : Calm s₁ t := hs₁ ▸ hcalm.setNode hcalm.noWaker
  have hacts : Acts t s s₁ := hs₁ ▸ hcalm.acts_setNode
  cases w with
  | mutex call =>
    have hunowned : (finishLock s₁ t call (s.node t).errorCode).owner = none →
        (finishLock s₁ t call (s.node t).errorCode).waiters.waiting = [] := by
      rw [finishLock_owner, finishLock_waiters, ← hs₁]
      exact h.unowned
    refine h.act (hacts.trans (finishLock_acts s₁ t call _)) ?_ hunowned
    cases herr : (s.node t).errorCode with
    | none =>
      -- unlock has popped the node, and has made its task the owner
      refine finishLock_ok hcalm₁ hwait.1.callOk ?_
      rw [← hs₁]
      exact hwait.1.owner.mpr ⟨hres, herr⟩
    | some error =>
      have hne : s.owner ≠ some t := fun hown => by simpa [herr] using (hwait.1.owner.mp hown).2
      refine finishLock_error hcalm₁ ?_ ?_
      · rw [← hs₁]
        exact ⟨hwait.1.outside, by simp [Synced, hne, hwait.1.outside]⟩
      · rcases hwait.1.pushed.error with he | he | he <;> rw [herr] at he <;> cases he <;> simp
  | cond d =>
    refine h.act (hacts.trans (acts_setPc s₁ t _)) ?_ (hs₁ ▸ h.unowned)
    rw [setPc_pc_self]
    refine Outline.frame ⟨hcalm₁, ?_, hwait.1.signalled hres⟩ (frame_setPc s₁ t t _)
    rw [← hs₁]
    exact hwait.2.1

end Llam.Mutex
