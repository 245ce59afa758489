import Llam.Mutex.Waiting

/-!
# Every action keeps the outline

The sections that hand the mutex over, signal and wake also change the node of a waiter, whose outline is then given
again: a waiter that is popped (`Outline.popMutex`, `Outline.popCond`) and a waiter that is woken (`Outline.woken`). With
the timers and cancellers this covers every action (`step_inv`), and so every reachable state (`reachable_inv`).
-/

namespace Llam.Mutex

open Llam.Lib Llam.Wait Fifo

variable {T : Type} [DecidableEq T] {s s' : State T} {t u : T}

/-! ## Wakes -/

variable {pc : Pc T} {w next : T} {rest : List T} {d : Bool} {n n' : Node T} {error : Errno}

theorem Outline.wait_of_waker (ho : Outline s u pc) (hw : (s.node u).waker ≠ none) : ∃ w, pc.wait = some w := by
  cases pc
  case track w | arm w | register w | rollback w error | ready w | parked w | finish w => exact ⟨w, rfl⟩
  case condRecheck d | condRelease d => exact absurd ho.2.2.2.1 hw
  case condHandOff d next => exact absurd ho.2.2.1.2.1 hw
  all_goals exact absurd ho.1.noWaker hw

/-- **A waiter that is woken** goes on where it is. -/
theorem Outline.woken (ho : Outline s u pc) (hw : (s.node u).waker ≠ none) : Outline (wakeNode s u) u pc := by
  obtain ⟨w, hpc⟩ := ho.wait_of_waker hw
  obtain ⟨hwait, hphase⟩ := (outline_wait hpc).mp ho
  have hres : (s.node u).resolved = true := by simp [Node.resolved, Option.isSome_iff_ne_none.mpr hw]
  refine (outline_wait hpc).mpr ⟨hwait.setNode ⟨?_, rfl, rfl, fun h => absurd rfl h, rfl, .inl⟩, ?_⟩
  · rw [hres]
    simp [Node.resolved]
  · have hrun : Running (s.node u) → Running ((wakeNode s u).node u) := by
      rintro (hword | hword) <;> simp [Running, wakeNode, hword, WakeWord.prepareWake]
    cases pc with
    | track | arm | register | ready => exact hrun hphase
    | rollback => exact ⟨hrun hphase.1, hphase.2⟩
    | finish => simp [Phase, wakeNode]
    | _ => trivial

theorem frame_wake (hne : u ≠ w) (howed : (s.node w).waker ≠ some (.task u)) : Frame s (wakeNode s w) u := by
  refine { Frame.refl s u with node := setNode_node_of_ne s _ hne, owed := fun x hx => ?_ }
  by_cases hxw : x = w
  · subst hxw
    exact absurd hx howed
  · rw [wakeNode, setNode_node_of_ne s _ hxw]
    exact hx

/-- The other tasks after `t` has woken `w`. -/
theorem Inv.others_wake (h : Inv s) (hw : (s.node w).waker = some (.task t)) : Others t (wakeNode s w) := by
  intro u hu
  by_cases huw : u = w
  · subst huw
    exact (h.outline u).woken (by rw [hw]; exact Option.some_ne_none _)
  refine (h.outline u).frame (frame_wake huw fun howed => hu ?_)
  rw [hw] at howed
  cases howed
  rfl

theorem Calm.wake (h : Calm s t) (hne : t ≠ w) : Calm (wakeNode s w) t :=
  ⟨h.1, h.2, by rw [wakeNode, setNode_node_of_ne s _ hne]; exact h.3, h.4⟩

theorem Owes.wake (h : Owes s t (w :: rest)) : Owes (wakeNode s w) t rest := by
  obtain ⟨hnodup, howed⟩ := h
  obtain ⟨hw, hrest⟩ := List.nodup_cons.mp hnodup
  refine ⟨hrest, fun x hx => ?_⟩
  have hne : x ≠ w := fun he => hw (he ▸ hx)
  rw [wakeNode, setNode_node_of_ne s _ hne]
  exact howed x (List.mem_cons_of_mem w hx)

/-- A task with no waker of its own is not among those it owes. -/
theorem Owes.ne (h : Owes s t (w :: rest)) (hn : (s.node t).waker = none) : t ≠ w := by
  rintro rfl
  have := h.2 t List.mem_cons_self
  rw [hn] at this
  cases this

/-- `t` wakes the first task it owes, and moves on. -/
theorem wake_inv (h : Inv s) (howes : Owes s t (w :: rest))
    (hpc : Outline (wakeNode s w) t pc) : Inv ((wakeNode s w).setPc t pc) := by
  refine (h.others_wake (howes.2 w List.mem_cons_self)).act (acts_setPc _ t pc) ?_ h.unowned
  rw [setPc_pc_self]
  exact hpc.frame (frame_setPc _ t t pc)

theorem unlockWake_inv (h : Inv s) (ho : Outline s t (.unlockWake next)) :
    Inv ((wakeNode s next).setPc t (.returned .unlock none)) := by
  obtain ⟨hcalm, hhas, howes⟩ := ho
  refine wake_inv h howes ⟨hcalm.wake (howes.ne hcalm.noWaker), hhas.2, ?_⟩
  exact hhas.1

theorem signalWake_inv (h : Inv s) (ho : Outline s t (.signalWake next)) :
    Inv ((wakeNode s next).setPc t (.returned .signal none)) := by
  obtain ⟨hcalm, hsync, howes⟩ := ho
  exact wake_inv h howes ⟨hcalm.wake (howes.ne hcalm.noWaker), hsync, rfl⟩

theorem broadcastWake_inv (h : Inv s) (ho : Outline s t (.broadcastWake rest)) : Inv (broadcastWake s t rest) := by
  obtain ⟨hcalm, hsync, howes⟩ := ho
  cases rest with
  | nil => exact h.goto ⟨hcalm, hsync, rfl⟩
  | cons next rest => exact wake_inv h howes ⟨hcalm.wake (howes.ne hcalm.noWaker), hsync, howes.wake⟩

theorem condHandOff_inv {next : Option T} (h : Inv s) (ho : Outline s t (.condHandOff d next)) :
    Inv (condHandOff s t d next) := by
  obtain ⟨hwait, hhas, hlock, howes⟩ := ho
  cases next with
  | some next =>
    have hnode : (wakeNode s next).node t = s.node t := setNode_node_of_ne s _ (howes.ne hlock.2.1)
    refine wake_inv h howes ⟨⟨?_, hwait.notQueued, ?_⟩, hhas, ⟨hlock.1, ?_⟩, howes.wake⟩
    · rw [hnode]; exact hwait.pushed
    · rw [hnode]; exact hwait.signalled
    · rw [hnode]; exact hlock.2
  | none =>
    show Inv (({ s with condLock := none } : State T).setPc t (.track (.cond d)))
    refine h.act ((acts_lock (.inr hlock.1) (.inl rfl)).trans (acts_setPc _ t _)) ?_ h.unowned
    rw [setPc_pc_self]
    exact ⟨⟨⟨hwait.1, hwait.2, hwait.3⟩, hhas, by simp⟩, .inl hlock.2.2⟩

/-! ## Handing the mutex over -/

/-- A node that was taken from its queue, by a popper or with an error. -/
theorem Pushed.resolve {q q' : Fifo T} (h : Pushed q n u) (hm : u ∈ q.waiting) (hout : u ∉ q'.waiting)
    (hwaker : n'.waker ≠ none) (hword : n'.wakeArmed = n.wakeArmed)
    (herror : n'.errorCode = none ∨ n'.errorCode = some .ETIMEDOUT ∨ n'.errorCode = some .ECANCELED)
    (hwithdrawn : n'.errorCode ≠ none → q'.ticket u ∈ q'.withdrawn)
    (hserved : n'.errorCode = none → q'.ticket u ∈ q'.served) : Pushed q' n' u := by
  have hres : n'.resolved = true := by simp [Node.resolved, Option.isSome_iff_ne_none.mpr hwaker]
  have hun := h.mem.mp hm
  simp only [Node.resolved, Bool.or_eq_false_iff] at hun
  refine ⟨by simp [hout, hres], by simp [hres], herror, fun _ => ?_, hwithdrawn, fun _ => hserved⟩
  rw [hword]
  exact hun.2

theorem Outline.wait_of_queued (ho : Outline s u pc) (hm : u ∈ s.waiters.waiting) :
    ∃ call, pc.wait = some (.mutex call) := by
  have hmutex : ∀ w, Waits s u w → ∃ call, w = .mutex call := by
    rintro (call | d) hw
    · exact ⟨call, rfl⟩
    · exact absurd hm hw.1.notQueued
  cases pc
  case track w | arm w | register w | rollback w error | ready w | finish w =>
    obtain ⟨call, rfl⟩ := hmutex w ho.1; exact ⟨call, rfl⟩
  case parked w => obtain ⟨call, rfl⟩ := hmutex w ho; exact ⟨call, rfl⟩
  case condRecheck d | condRelease d | condHandOff d next => exact absurd hm ho.1.notQueued
  all_goals exact absurd hm ho.1.notQueued

/-- What a waiter's node says in its phase depends on the wake word only. -/
theorem Phase.congr (h : Phase pc n) (hword : n'.wakeArmed = n.wakeArmed) : Phase pc n' := by
  cases pc <;> simp_all [Phase, Running]

/-- **A waiter that the owner pops** owns the mutex, and goes on where it is. -/
theorem Outline.popMutex {rest : Fifo T} (ho : Outline s next (s.pc next)) (hpop : s.waiters.pop = some (next, rest)) :
    Outline (({ s with owner := some next, waiters := rest } : State T).setNode next
      { s.node next with errorCode := none, waker := some (.task t) }) next (s.pc next) := by
  obtain ⟨hwaiting, hticket, hserved, -⟩ := pop_some hpop
  have hm : next ∈ s.waiters.waiting := by rw [hwaiting]; exact List.mem_cons_self
  have hout : next ∉ rest.waiting := by
    have := s.waiters.nodup
    rw [hwaiting] at this
    exact (List.nodup_cons.mp this).1
  obtain ⟨call, hpc⟩ := ho.wait_of_queued hm
  obtain ⟨⟨hwait, hlock⟩, hphase⟩ := (outline_wait hpc).mp ho
  refine (outline_wait hpc).mpr ⟨⟨⟨?_, hwait.callOk, hwait.outside, ?_, hwait.notCond, ?_⟩, hlock⟩, ?_⟩
  · rw [setNode_node_self]
    refine hwait.pushed.resolve hm hout (Option.some_ne_none _) rfl (.inl rfl) (absurd rfl) fun _ => ?_
    show rest.ticket next ∈ rest.served
    rw [hticket, hserved]
    simp
  · simp [Node.resolved]
  · rw [setNode_node_self]
    exact fun hre => ⟨(hwait.steady hre).1, (hwait.steady hre).2.1, rfl⟩
  · rw [setNode_node_self]
    exact hphase.congr rfl

section

variable (h : Inv s)

include h

/-- The section that gives the mutex away: the new owner owns it, the old one owes it its wake, and everybody else is
where they were. -/
theorem handOff_spec (howner : s.owner = some t) (hqueued : t ∉ s.waiters.waiting) : Others t (handOff s t).1 ∧
      ((handOff s t).1.owner = none → (handOff s t).1.waiters.waiting = []) ∧
      (handOff s t).1.owner ≠ some t ∧ t ∉ (handOff s t).1.waiters.waiting ∧
      (handOff s t).1.node t = s.node t ∧ (handOff s t).1.condWaiters = s.condWaiters ∧
      (handOff s t).1.condLock = s.condLock ∧ Owes (handOff s t).1 t (handOff s t).2.toList := by
  cases hpop : s.waiters.pop with
  | none =>
    have heq : handOff s t = ({ s with owner := none }, none) := by simp [handOff, hpop]
    rw [heq]
    refine ⟨fun u hu => ?_, fun _ => pop_none hpop, by simp, hqueued, rfl, rfl, rfl, by simp [Owes]⟩
    refine (h.outline u).frame { Frame.refl s u with owner := ?_ }
    simp [howner, Ne.symm hu]
  | some r =>
    obtain ⟨next, rest⟩ := r
    obtain ⟨hwaiting, -⟩ := pop_some hpop
    have hm : next ∈ s.waiters.waiting := by rw [hwaiting]; exact List.mem_cons_self
    have hne : t ≠ next := fun he => hqueued (he ▸ hm)
    have hwaker : (s.node next).waker = none := by
      obtain ⟨call, hpc⟩ := (h.outline next).wait_of_queued hm
      exact (Waits.queued ((outline_wait hpc).mp (h.outline next)).1 hm).2.1
    have heq : handOff s t = (({ s with owner := some next, waiters := rest } : State T).setNode next
        { s.node next with errorCode := none, waker := some (.task t) }, some next) := by
      simp [handOff, hpop]
    rw [heq]
    refine ⟨fun u hu => ?_, by simp, by simp [Ne.symm hne], fun hm' => ?_, setNode_node_of_ne _ _ hne, rfl, rfl, ?_⟩
    · by_cases hun : u = next
      · subst hun
        exact (h.outline u).popMutex hpop
      refine (h.outline u).frame { Frame.refl s u with
        node := setNode_node_of_ne _ _ hun
        owner := by simp [howner, Ne.symm hu, Ne.symm hun]
        queue := pop_unmoved hpop hun
        owed := fun w hw => ?_ }
      have hwn : w ≠ next := by rintro rfl; rw [hwaker] at hw; cases hw
      rw [setNode_node_of_ne _ _ hwn]
      exact hw
    · exact hqueued (((pop_unmoved hpop hne).mem).mp hm')
    · simp [Owes]

theorem unlockLoad_inv (ho : Outline s t .unlockLoad) : Inv (unlockLoad s t) := by
  obtain ⟨hcalm, hsync⟩ := ho
  unfold unlockLoad
  split
  · rename_i howner
    exact h.goto ⟨hcalm, hsync.mp howner, hsync⟩
  rename_i howner
  refine h.goto ⟨hcalm, hsync, rfl, ?_⟩
  exact Bool.eq_false_iff.mpr fun hin => howner (hsync.mpr hin)

theorem unlockLocked_inv (ho : Outline s t .unlockLocked) : Inv (unlockLocked s t) := by
  obtain ⟨hcalm, hin, hsync⟩ := ho
  obtain ⟨hothers, hunowned, hne, hqueued, hnode, hcond, hlock, howes⟩ :=
    handOff_spec h (hsync.mpr hin) hcalm.notQueued
  have hout : ∀ pc, Calm (((handOff s t).1.setInside t false).setPc t pc) t ∧
      Has (((handOff s t).1.setInside t false).setPc t pc) t false := by
    intro pc
    refine ⟨⟨hqueued, ?_, ?_, ?_⟩, ?_, ?_⟩
    · show t ∉ (handOff s t).1.condWaiters.waiting
      rw [hcond]; exact hcalm.notCond
    · show ((handOff s t).1.node t).waker = none
      rw [hnode]; exact hcalm.noWaker
    · show (handOff s t).1.condLock ≠ some t
      rw [hlock]; exact hcalm.noLock
    · simp
    · simpa [Synced] using hne
  have hacts : ∀ pc, Acts t (handOff s t).1 (((handOff s t).1.setInside t false).setPc t pc) := fun pc =>
    (acts_setInside _ t false).trans (acts_setPc _ t pc)
  unfold unlockLocked
  dsimp only
  split
  · refine hothers.act (hacts _) ?_ hunowned
    rw [setPc_pc_self]
    exact ⟨(hout _).1, (hout _).2.2, (hout _).2.1⟩
  rename_i next hnext
  refine hothers.act (hacts _) ?_ hunowned
  rw [setPc_pc_self]
  rw [hnext] at howes
  exact ⟨(hout _).1, (hout _).2, howes⟩

/-! ## Condition variable -/

theorem condLoad_inv (ho : Outline s t (.condLoad d)) : Inv (condLoad s t d) := by
  obtain ⟨hcalm, hsync⟩ := ho
  unfold condLoad
  split
  · rename_i howner
    exact h.goto ⟨hcalm, hsync.mp howner, hsync⟩
  rename_i howner
  have hin : s.inside t = false := Bool.eq_false_iff.mpr fun hin => howner (hsync.mpr hin)
  exact h.goto ⟨hcalm, hsync, rfl, .EPERM, rfl, by simp [hin]⟩

theorem condPrepare_inv {env : Env} (ho : Outline s t (.condPrepare d)) : Inv (condPrepare s t d env) := by
  obtain ⟨hcalm, hhas⟩ := ho
  unfold condPrepare
  split
  · exact h.goto ⟨hcalm, hhas.2, rfl, .ETIMEDOUT, rfl, by simp [hhas.1]⟩
  split
  · exact h.goto ⟨hcalm, hhas.2, rfl, .ENOMEM, rfl, by simp [hhas.1]⟩
  refine h.act (hcalm.acts_setNode.trans (acts_setPc _ t _)) ?_ h.unowned
  rw [setPc_pc_self]
  refine Outline.frame ?_ (frame_setPc _ t t _)
  exact ⟨hcalm.setNode rfl, hhas, setNode_node_self s t _⟩

theorem condEnqueue_inv (ho : Outline s t (.condEnqueue d)) (hstep : condEnqueue s t d = some s') : Inv s' := by
  obtain ⟨hcalm, hhas, hnode⟩ := ho
  unfold condEnqueue at hstep
  split at hstep
  · cases hstep
  rename_i hfree
  cases hstep
  have hpush : Acts t s { s with condWaiters := s.condWaiters.push t } :=
    acts_setQueue (w := .cond d) fun u hu => push_unmoved _ hu
  have hlock := acts_lock (t := t) (s := { s with condWaiters := s.condWaiters.push t }) (l := some t)
    (.inl (not_not.mp hfree)) (.inr rfl)
  refine h.act ((hpush.trans hlock).trans (acts_setPc _ t _)) ?_ h.unowned
  rw [setPc_pc_self]
  refine ⟨⟨?_, hcalm.notQueued, ?_⟩, hhas, rfl, hcalm.noWaker, ?_⟩
  · constructor <;> simp [hnode, Node.reset, Node.resolved, WakeWord.completed, mem_push]
  · simp [hnode, Node.reset, Node.resolved, WakeWord.completed]
  · simp [hnode, Node.reset]

theorem condRecheck_inv (ho : Outline s t (.condRecheck d)) : Inv (condRecheck s t d) := by
  have howner : s.owner = some t := ho.2.1.2.mpr ho.2.1.1
  unfold condRecheck
  rw [if_pos howner]
  exact h.goto ho

theorem condRelease_inv (ho : Outline s t (.condRelease d)) : Inv (condRelease s t d) := by
  obtain ⟨hwait, ⟨hin, hsync⟩, hlocking⟩ := ho
  obtain ⟨hothers, hunowned, hne, hqueued, hnode, hcond, hlock, howes⟩ :=
    handOff_spec h (hsync.mpr hin) hwait.notQueued
  unfold condRelease
  refine hothers.act ((acts_setInside _ t false).trans (acts_setPc _ t _)) ?_ hunowned
  rw [setPc_pc_self]
  refine ⟨⟨?_, hqueued, ?_⟩, ⟨by simp, ?_⟩, ?_, howes⟩
  · show Pushed (handOff s t).1.condWaiters ((handOff s t).1.node t) t
    rw [hnode, hcond]; exact hwait.pushed
  · simpa [hnode] using hwait.signalled
  · simpa [Synced] using hne
  · show (handOff s t).1.condLock = some t ∧ ((handOff s t).1.node t).waker = none ∧
      ((handOff s t).1.node t).wakeArmed = .unarmed
    rw [hnode, hlock]; exact hlocking

theorem reacquire_inv {result : Option Errno} {consumed : Bool}
    (ho : Outline s t (.reacquire result consumed)) : Inv (reacquire s t result consumed) := by
  obtain ⟨hcalm, ⟨hin, hsync⟩, hconsumed⟩ := ho
  have howner : s.owner ≠ some t := fun howner => by have := hsync.mp howner; rw [hin] at this; cases this
  unfold reacquire
  rw [if_neg howner]
  refine h.goto ⟨hcalm, hsync, fun r hr => ?_, fun _ => hin⟩
  cases hr
  exact ⟨rfl, rfl, hconsumed⟩

end

/-- Only a condition waiter is in that queue, and while the condition variable is unlocked it is past its release. -/
theorem Outline.wait_of_cond (ho : Outline s u pc) (hm : u ∈ s.condWaiters.waiting)
    (hlock : s.condLock = none) : ∃ d, pc.wait = some (.cond d) := by
  have hcond : ∀ w, Waits s u w → ∃ d, w = .cond d := by
    rintro (call | d) hw
    · exact absurd hm hw.1.notCond
    · exact ⟨d, rfl⟩
  have hunlocked : ¬ Locking s u := fun hl => by have := hl.1; rw [hlock] at this; cases this
  cases pc
  case track w | arm w | register w | rollback w error | ready w | finish w =>
    obtain ⟨d, rfl⟩ := hcond w ho.1; exact ⟨d, rfl⟩
  case parked w => obtain ⟨d, rfl⟩ := hcond w ho; exact ⟨d, rfl⟩
  case condRecheck d | condRelease d => exact absurd ho.2.2 hunlocked
  case condHandOff d next => exact absurd ho.2.2.1 hunlocked
  all_goals exact absurd hm ho.1.notCond

/-- **A waiter that is signalled** goes on where it is. -/
theorem Outline.popCond (ho : Outline s u pc) (hm : u ∈ s.condWaiters.waiting) (hlock : s.condLock = none)
    (hnode : s'.node u = (s.node u).popped t) (hout : u ∉ s'.condWaiters.waiting)
    (hserved : s'.condWaiters.ticket u ∈ s'.condWaiters.served) (hwaiters : s'.waiters = s.waiters)
    (hinside : s'.inside u = s.inside u) (howner : s'.owner = s.owner) (hlock' : s'.condLock = s.condLock) :
    Outline s' u pc := by
  obtain ⟨d, hpc⟩ := ho.wait_of_cond hm hlock
  obtain ⟨⟨hwait, hhas, -⟩, hphase⟩ := (outline_wait hpc).mp ho
  refine (outline_wait hpc).mpr ⟨⟨⟨?_, ?_, ?_⟩, ⟨?_, ?_⟩, ?_⟩, ?_⟩
  · rw [hnode]
    exact hwait.pushed.resolve hm hout (Option.some_ne_none _) rfl (.inl rfl) (absurd rfl) fun _ => hserved
  · rw [hwaiters]; exact hwait.notQueued
  · simp [hnode, Node.popped]
  · rw [hinside]; exact hhas.1
  · rw [Synced, hinside, howner]; exact hhas.2
  · simp [hlock', hlock]
  · rw [hnode]; exact hphase.congr rfl

/-- A queued condition waiter is owed nothing yet. -/
theorem Inv.condWaiter_waker (h : Inv s) (hm : u ∈ s.condWaiters.waiting) (hlock : s.condLock = none) :
    (s.node u).waker = none := by
  obtain ⟨d, hpc⟩ := (h.outline u).wait_of_cond hm hlock
  exact (Waits.queued ((outline_wait hpc).mp (h.outline u)).1 hm).2.1

theorem signalLocked_inv (h : Inv s) (ho : Outline s t .signalLocked) (hstep : signalLocked s t = some s') : Inv s' := by
  obtain ⟨hcalm, hsync⟩ := ho
  unfold signalLocked at hstep
  split at hstep
  · cases hstep
  rename_i hlock
  have hlock : s.condLock = none := not_not.mp hlock
  cases hpop : s.condWaiters.pop with
  | none =>
    simp only [hpop] at hstep
    cases hstep
    exact h.goto ⟨hcalm, hsync, rfl⟩
  | some r =>
    obtain ⟨next, rest⟩ := r
    simp only [hpop] at hstep
    cases hstep
    obtain ⟨hwaiting, hticket, hserved, -⟩ := pop_some hpop
    have hm : next ∈ s.condWaiters.waiting := by rw [hwaiting]; exact List.mem_cons_self
    have hne : t ≠ next := fun he => hcalm.notCond (he ▸ hm)
    have hwaker := h.condWaiter_waker hm hlock
    have hothers : Others t (({ s with condWaiters := rest } : State T).setNode next ((s.node next).popped t)) := by
      intro u hu
      by_cases hun : u = next
      · subst hun
        refine (h.outline u).popCond hm hlock (setNode_node_self _ u _) ?_ ?_ rfl rfl rfl rfl
        · have := s.condWaiters.nodup
          rw [hwaiting] at this
          exact (List.nodup_cons.mp this).1
        · show rest.ticket u ∈ rest.served
          rw [hticket, hserved]
          simp
      · refine (h.outline u).frame { Frame.refl s u with
          node := setNode_node_of_ne _ _ hun
          cond := pop_unmoved hpop hun
          owed := fun w hw => ?_ }
        have hwn : w ≠ next := by rintro rfl; rw [hwaker] at hw; cases hw
        rw [setNode_node_of_ne _ _ hwn]
        exact hw
    refine hothers.act (acts_setPc _ t _) ?_ h.unowned
    rw [setPc_pc_self]
    refine ⟨⟨hcalm.notQueued, fun hm' => ?_, ?_, hcalm.noLock⟩, hsync, ?_⟩
    · exact hcalm.notCond ((pop_unmoved hpop hne).mem.mp hm')
    · rw [setPc_node, setNode_node_of_ne _ _ hne]
      exact hcalm.noWaker
    · simp [Owes, Node.popped]

theorem broadcastLocked_inv (h : Inv s) (ho : Outline s t .broadcastLocked) (hstep : broadcastLocked s t = some s') :
    Inv s' := by
  obtain ⟨hcalm, hsync⟩ := ho
  unfold broadcastLocked at hstep
  split at hstep
  · cases hstep
  rename_i hlock
  have hlock : s.condLock = none := not_not.mp hlock
  cases hstep
  have hothers : Others t { s with
      condWaiters := s.condWaiters.popAll
      node := fun u => if u ∈ s.condWaiters.waiting then (s.node u).popped t else s.node u } := by
    intro u hu
    by_cases hm : u ∈ s.condWaiters.waiting
    · refine (h.outline u).popCond hm hlock (if_pos hm) (by simp [Fifo.popAll]) ?_ rfl rfl rfl rfl
      exact List.mem_append_right _ (List.mem_map_of_mem hm)
    refine (h.outline u).frame { Frame.refl s u with
      node := if_neg hm
      cond := popAll_unmoved _ hm
      owed := fun w hw => ?_ }
    have hmw : w ∉ s.condWaiters.waiting := fun hmw => by rw [h.condWaiter_waker hmw hlock] at hw; cases hw
    exact (congrArg Node.waker (if_neg hmw)).trans hw
  refine hothers.act (acts_setPc _ t _) ?_ h.unowned
  rw [setPc_pc_self]
  refine ⟨⟨hcalm.notQueued, by simp [Fifo.popAll], ?_, hcalm.noLock⟩, hsync, s.condWaiters.nodup, fun w hw => ?_⟩
  · exact (congrArg Node.waker (if_neg hcalm.notCond)).trans hcalm.noWaker
  · exact congrArg Node.waker (if_pos hw)

/-! ## Timers and cancellation -/

theorem remove_spec (q : Fifo T) (hm : t ∈ q.waiting) :
    t ∉ (q.remove t).waiting ∧ (q.remove t).ticket t ∈ (q.remove t).withdrawn := by
  constructor
  · simp [mem_remove]
  · rw [remove_ticket, remove_withdrawn hm]
    simp

/-- **A waiter that is resolved** with an error goes on where it is. -/
theorem Waits.resolved {w : Wait} {waker : Waker T} (h : Waits s t w) (hm : t ∈ (s.queue w).waiting)
    (herror : error = .ETIMEDOUT ∨ error = .ECANCELED) (hsteady : ∀ call, w = .mutex call → call.reacquire = none) :
    Waits (withdraw s t w { s.node t with errorCode := some error, waker := some waker }) t w := by
  obtain ⟨hun, -, hhas, hlock⟩ := h.queued hm
  obtain ⟨hout, hwithdrawn⟩ := remove_spec _ hm
  have hcode := Or.inr (a := some error = none) (herror.imp (congrArg some) (congrArg some))
  cases w with
  | mutex call =>
    refine ⟨⟨?_, h.1.callOk, h.1.outside, ?_, h.1.notCond, fun hre => absurd (hsteady call rfl) hre⟩, hlock⟩
    · rw [withdraw_node_self]
      exact h.1.pushed.resolve hm hout (Option.some_ne_none _) rfl hcode (fun _ => hwithdrawn) nofun
    · simp [h.1.owner, hun]
  | cond d =>
    refine ⟨⟨?_, h.1.notQueued, ?_⟩, hhas, hlock⟩
    · rw [withdraw_node_self]
      exact h.1.pushed.resolve hm hout (Option.some_ne_none _) rfl hcode (fun _ => hwithdrawn) nofun
    · simp [(h.1.pushed.clean hun).2]

section

variable (h : Inv s)

include h

theorem resolve_inv {waker : Waker T} (herror : error = .ETIMEDOUT ∨ error = .ECANCELED)
    (hsteady : ∀ call, (s.pc t).wait = some (.mutex call) → WaitsMutex s t call → call.reacquire = none)
    (hstep : resolve s t error waker = some s') : Inv s' := by
  unfold resolve at hstep
  split at hstep
  · cases hstep
  rename_i w hpc
  obtain ⟨hwait, hphase⟩ := (outline_wait hpc).mp (h.outline t)
  split at hstep
  · cases hstep
  split at hstep
  · rename_i hm
    cases hstep
    refine h.act (withdraw_acts (hwait.queued hm).2.1) ?_ h.unowned_withdraw
    rw [withdraw_pc]
    refine (outline_wait hpc).mpr ⟨hwait.resolved hm herror ?_, ?_⟩
    · rintro call rfl
      exact hsteady call hpc hwait.1
    · rw [withdraw_node_self]
      exact hphase.congr rfl
  · cases hstep
    exact h

theorem timeout_inv (htimer : (s.node t).timerArmed = true) (hstep : resolve s t .ETIMEDOUT .timer = some s') :
    Inv s' := by
  refine resolve_inv h (.inl rfl) (fun call _ hwait => ?_) hstep
  by_contra hre
  rw [(hwait.steady hre).2.1] at htimer
  cases htimer

theorem cancel_inv (hun : (s.node t).uninterruptible = false)
    (hstep : resolve s t .ECANCELED .canceller = some s') : Inv s' := by
  refine resolve_inv h (.inr rfl) (fun call _ hwait => ?_) hstep
  by_contra hre
  rw [(hwait.steady hre).1] at hun
  cases hun

/-- The timer or the canceller wakes the waiter it has withdrawn. -/
theorem resolverWake_inv (hwaker : (s.node t).waker = some .timer ∨ (s.node t).waker = some .canceller) :
    Inv (wakeNode s t) := by
  have hne : (s.node t).waker ≠ none := by rcases hwaker with hw | hw <;> simp [hw]
  refine ⟨fun u => ?_, h.unowned⟩
  by_cases hu : u = t
  · subst hu
    exact (h.outline u).woken hne
  · refine (h.outline u).frame (frame_wake hu ?_)
    rcases hwaker with hw | hw <;> simp [hw]

/-! ## Runs -/

theorem start_inv {call : Call} (hcalm : Calm s t) (hsync : Synced s t) : Inv (s.setPc t call.entry) := by
  cases call with
  | lock d => exact h.goto ⟨hcalm, hsync, fun r hr => (by cases hr), fun hne => absurd rfl hne⟩
  | _ => exact h.goto ⟨hcalm, hsync⟩

theorem advance_inv {env : Env} (hstep : advance s t env = some s') : Inv s' := by
  have ho := h.outline t
  unfold advance at hstep
  cases hpc : s.pc t <;> simp only [hpc] at hstep ho
  case idle | returned | aborted => cases hstep
  case trylock => cases hstep; exact tryLock_inv h ho
  case lockLoad => cases hstep; exact lockLoad_inv h ho
  case lockCas => cases hstep; exact lockCas_inv h ho
  case lockPrepare => cases hstep; exact lockPrepare_inv h ho
  case lockEnqueue => cases hstep; exact lockEnqueue_inv h ho
  case track => cases hstep; exact setTracking_inv h ho
  case arm => cases hstep; exact armDeadline_inv h ho
  case register => cases hstep; exact registerCancel_inv h ho
  case rollback => exact rollback_inv h ho hstep
  case ready => cases hstep; exact testPark_inv h ho
  case parked => exact unpark_inv h ho hstep
  case finish => cases hstep; exact finishWait_inv h ho
  case unlockLoad => cases hstep; exact unlockLoad_inv h ho
  case unlockLocked => cases hstep; exact unlockLocked_inv h ho
  case unlockWake => cases hstep; exact unlockWake_inv h ho
  case condLoad => cases hstep; exact condLoad_inv h ho
  case condPrepare => cases hstep; exact condPrepare_inv h ho
  case condEnqueue => exact condEnqueue_inv h ho hstep
  case condRecheck => cases hstep; exact condRecheck_inv h ho
  case condRelease => cases hstep; exact condRelease_inv h ho
  case condHandOff => cases hstep; exact condHandOff_inv h ho
  case reacquire => cases hstep; exact reacquire_inv h ho
  case signalLocked => exact signalLocked_inv h ho hstep
  case signalWake => cases hstep; exact signalWake_inv h ho
  case broadcastLocked => exact broadcastLocked_inv h ho hstep
  case broadcastWake => cases hstep; exact broadcastWake_inv h ho

/-- **Every action of every task, timer and canceller keeps the outline.** -/
theorem step_inv {a : Action T} (hstep : step s a = some s') : Inv s' := by
  cases a with
  | start t call =>
    have ho := h.outline t
    simp only [step] at hstep
    split at hstep
    · rename_i hpc
      rw [hpc] at ho
      cases hstep
      exact start_inv h ho.1 ho.2
    · rename_i op r hpc
      rw [hpc] at ho
      cases hstep
      exact start_inv h ho.1 ho.2.1
    · cases hstep
  | advance t env => exact advance_inv h hstep
  | timeout t =>
    simp only [step] at hstep
    split at hstep
    · rename_i htimer
      exact timeout_inv h htimer hstep
    · cases hstep
  | cancel t =>
    simp only [step] at hstep
    split at hstep
    · rename_i hguard
      simp only [Bool.and_eq_true, Bool.not_eq_true'] at hguard
      exact cancel_inv h hguard.2 hstep
    · cases hstep
  | resolverWake t =>
    simp only [step] at hstep
    split at hstep
    · rename_i hw
      cases hstep
      exact resolverWake_inv h (.inl hw)
    · rename_i hw
      cases hstep
      exact resolverWake_inv h (.inr hw)
    · cases hstep

end

theorem init_inv : Inv (State.init : State T) where
  outline t := by
    refine ⟨⟨?_, ?_, rfl, ?_⟩, ?_⟩ <;> simp [State.init, Fifo.empty, Synced]
  unowned _ := rfl

theorem reachable_inv (h : Reachable step State.init s) : Inv s :=
  h.induction init_inv fun _ _ _ hi hs => step_inv hi hs

end Llam.Mutex
