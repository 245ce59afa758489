import Llam.Mutex.Preserve

/-!
# The contracts of the mutex and of the condition variable

`mutex_ownership` and `cond_wait_contract` read the outline of `reachable_inv` off in every reachable state, together
with what one action can do: how ownership moves (`step_owner`), and whom a signal and a broadcast pop (`signal_effect`,
`broadcast_effect`). `relock_keeps_owner` is the case in which a lock call fails although its caller owns the mutex.
-/

namespace Llam.Mutex

open Llam.Lib Llam.Wait

variable {T : Type} [DecidableEq T] {s s' : State T} {t u : T}

/-! ## How ownership moves -/

theorem handOff_owner (s : State T) (t : T) :
    (handOff s t).1.owner = s.waiters.waiting.head? ∧ (handOff s t).1.waiters.waiting = s.waiters.waiting.tail := by
  cases hpop : s.waiters.pop with
  | none =>
    have hnil := Fifo.pop_none hpop
    simp [handOff, hpop, hnil]
  | some r =>
    obtain ⟨hwaiting, -⟩ := Fifo.pop_some hpop
    simp [handOff, hpop, hwaiting]

/-- An action leaves the owner alone, takes a free mutex, or gives the mutex of its owner to the head of the queue. -/
def Hands (s s' : State T) : Prop :=
  s'.owner = s.owner ∨ (s.owner = none ∧ ∃ t, s'.owner = some t ∧ t ∉ s.waiters.waiting) ∨
    (s.owner ≠ none ∧ s'.owner = s.waiters.waiting.head? ∧ s'.waiters.waiting = s.waiters.waiting.tail)

theorem Hands.take {call : LockCall} (h : s.owner = none) (hm : t ∉ s.waiters.waiting) :
    Hands s (finishLock { s with owner := some t } t call none) :=
  .inr (.inl ⟨h, t, finishLock_owner _ t call none, hm⟩)

theorem resolve_owner {error : Errno} {waker : Waker T} (h : resolve s t error waker = some s') : s'.owner = s.owner := by
  unfold resolve at h
  split at h
  · cases h
  split at h
  · cases h
  · split at h <;> cases h <;> simp

theorem rollback_owner {w : Wait} {error : Errno} (h : rollback s t w error = some s') : s'.owner = s.owner := by
  unfold rollback at h
  split at h
  · cases h
  split at h
  · cases h; rfl
  · cases w <;> cases h <;> simp

theorem advance_owner {env : Env} (h : Inv s) (hstep : advance s t env = some s') : Hands s s' := by
  have ho := h.outline t
  unfold advance at hstep
  cases hpc : s.pc t <;> simp only [hpc] at hstep ho
  case idle | returned | aborted => cases hstep
  case trylock =>
    cases hstep
    unfold tryLock
    split
    · exact .inr (.inl ⟨‹_›, t, rfl, ho.1.notQueued⟩)
    · exact .inl rfl
  case lockLoad => cases hstep; unfold lockLoad; split <;> exact .inl (by simp)
  case lockCas =>
    cases hstep
    unfold lockCas
    split
    · exact Hands.take ‹_› ho.1.notQueued
    · exact .inl rfl
  case lockPrepare => cases hstep; unfold lockPrepare; split <;> [skip; split] <;> exact .inl (by simp)
  case lockEnqueue =>
    cases hstep
    unfold lockEnqueue
    split
    · exact Hands.take ‹_› ho.1.notQueued
    · exact .inl rfl
  case track => cases hstep; unfold setTracking; split <;> exact .inl rfl
  case arm => cases hstep; unfold armDeadline; split <;> [split; skip] <;> exact .inl rfl
  case register =>
    cases hstep
    unfold registerCancel
    split
    · split
      · split <;> exact .inl rfl
      · exact .inl rfl
    · exact .inl rfl
  case rollback => exact .inl (rollback_owner hstep)
  case ready | unlockWake | signalWake => cases hstep; exact .inl rfl
  case parked => unfold unpark at hstep; split at hstep <;> cases hstep; exact .inl rfl
  case finish w => cases hstep; unfold finishWait; cases w <;> exact .inl (by simp)
  case unlockLoad => cases hstep; unfold unlockLoad; split <;> exact .inl rfl
  case unlockLocked =>
    cases hstep
    have howner : s.owner = some t := ho.2.2.mpr ho.2.1
    refine .inr (.inr ⟨by simp [howner], ?_⟩)
    unfold unlockLocked
    dsimp only
    split <;> exact handOff_owner s t
  case condLoad => cases hstep; unfold condLoad; split <;> exact .inl rfl
  case condPrepare => cases hstep; unfold condPrepare; split <;> [skip; split] <;> exact .inl rfl
  case condEnqueue => unfold condEnqueue at hstep; split at hstep <;> cases hstep; exact .inl rfl
  case condRecheck => cases hstep; unfold condRecheck; split <;> exact .inl rfl
  case condRelease =>
    cases hstep
    have howner : s.owner = some t := ho.2.1.2.mpr ho.2.1.1
    exact .inr (.inr ⟨by simp [howner], handOff_owner s t⟩)
  case condHandOff d next => cases hstep; cases next <;> exact .inl rfl
  case reacquire => cases hstep; unfold reacquire; split <;> exact .inl rfl
  case signalLocked =>
    unfold signalLocked at hstep
    split at hstep
    · cases hstep
    · cases hstep
      split <;> exact .inl rfl
  case broadcastLocked => unfold broadcastLocked at hstep; split at hstep <;> cases hstep; exact .inl rfl
  case broadcastWake rest => cases hstep; cases rest <;> exact .inl rfl

/-- **How ownership moves** in one action of anybody. -/
theorem step_owner {a : Action T} (h : Inv s) (hstep : step s a = some s') : Hands s s' := by
  cases a with
  | start t call | resolverWake t => simp only [step] at hstep; split at hstep <;> cases hstep <;> exact .inl rfl
  | advance t env => exact advance_owner h hstep
  | timeout t | cancel t =>
    simp only [step] at hstep
    split at hstep
    · exact .inl (resolve_owner hstep)
    · cases hstep

/-! ## The mutex -/

theorem inside_owner (h : Inv s) (hin : s.inside t = true) : s.owner = some t := by
  have ho := h.outline t
  have hwaits : ∀ w, Waits s t w → s.owner = some t := by
    rintro (call | d) hw
    · rw [hw.1.outside] at hin; cases hin
    · rw [hw.2.1.1] at hin; cases hin
  have hsync : Synced s t → s.owner = some t := fun hs => hs.mpr hin
  cases hpc : s.pc t <;> rw [hpc] at ho
  case track w | arm w | register w | rollback w error | ready w | finish w => exact hwaits w ho.1
  case parked w => exact hwaits w ho
  case returned | lockLoad | signalWake | broadcastWake => exact hsync ho.2.1
  case lockCas => exact hsync ho.2.1.2
  case lockPrepare => exact hsync ho.2.1.2
  case lockEnqueue => exact hsync ho.2.1.2
  case unlockWake => exact hsync ho.2.1.2
  case condEnqueue => exact hsync ho.2.1.2
  case condRecheck => exact hsync ho.2.1.2
  case condRelease => exact hsync ho.2.1.2
  case condHandOff => exact hsync ho.2.1.2
  case reacquire => exact hsync ho.2.1.2
  case unlockLocked | condPrepare | aborted => exact hsync ho.2.2
  all_goals exact hsync ho.2

theorem returnOk_lock {result : Option Errno} {inside : Bool} (h : ReturnOk .lock result inside) :
    inside = true ↔ result = none ∨ result = some .EDEADLK := by
  cases result with
  | none | some error => simpa [ReturnOk] using h

/-- The recursion check. -/
theorem lockLoad_owner {call : LockCall} (ho : Outline s t (.lockLoad call)) (howner : s.owner = some t) :
    (lockLoad s t call).owner = some t ∧ (lockLoad s t call).pc t = .returned .lock (some .EDEADLK) := by
  have hnone : call.reacquire = none := by
    by_contra hne
    have hin := ho.2.1.mp howner
    rw [ho.2.2.2 hne] at hin
    cases hin
  simp [lockLoad, howner, finishLock, hnone]

/-- **The mutex.** In every state that any interleaving of lock, lock-until, trylock, unlock, timeout, cancellation and
condition waits reaches: a task inside the mutex is its owner, and the only one; an unowned mutex has no waiters; a
lock call that has returned left its caller as the owner exactly when it succeeded, or when it returned `EDEADLK`, which
it does to a caller that owns the mutex already; a trylock takes a free mutex, and otherwise its return is all that
changes. Ownership only moves to a task that takes a free mutex or to the head of the queue, and waiters are served in
the order in which they were queued: a waiter that timed out or was cancelled is neither the owner nor ever served, any
other is queued until it is the owner. -/
theorem mutex_ownership (hreach : Reachable step State.init s) :
    (∀ t, s.inside t = true → s.owner = some t) ∧
    (∀ t u, s.inside t = true → s.inside u = true → t = u) ∧
    (s.owner = none → s.waiters.waiting = []) ∧
    (∀ t result, s.pc t = .returned .lock result → (s.owner = some t ↔ result = none ∨ result = some .EDEADLK)) ∧
    (∀ t call env s', s.pc t = .lockLoad call → s.owner = some t → advance s t env = some s' →
      s'.owner = some t ∧ s'.pc t = .returned .lock (some .EDEADLK)) ∧
    (∀ t env s', s.pc t = .trylock → advance s t env = some s' →
      if s.owner = none then s'.owner = some t ∧ s'.pc t = .returned .trylock none ∧ s'.waiters = s.waiters
      else s' = s.setPc t (.returned .trylock (some .EBUSY))) ∧
    (∀ a s', step s a = some s' → Hands s s') ∧
    (s.waiters.served ++ s.waiters.waiting.map s.waiters.ticket).Pairwise (· < ·) ∧
    (∀ t call, (s.pc t).wait = some (.mutex call) →
      ((s.node t).errorCode ≠ none →
        s.owner ≠ some t ∧ t ∉ s.waiters.waiting ∧ s.waiters.ticket t ∉ s.waiters.served) ∧
      ((s.node t).errorCode = none →
        t ∈ s.waiters.waiting ∨ s.owner = some t ∧ s.waiters.ticket t ∈ s.waiters.served) ∧
      (s.owner = some t → s.waiters.ticket t ∈ s.waiters.served)) := by
  have h := reachable_inv hreach
  have hinside : ∀ t, s.inside t = true → s.owner = some t := fun t ht => inside_owner h ht
  refine ⟨hinside, fun t u ht hu => ?_, h.unowned, fun t result hpc => ?_, fun t call env s' hpc howner hstep => ?_,
    fun t env s' hpc hstep => ?_, fun a s' hstep => step_owner h hstep, s.waiters.ordered, fun t call hpc => ?_⟩
  · exact Option.some.inj ((hinside t ht).symm.trans (hinside u hu))
  · have ho := h.outline t
    rw [hpc] at ho
    exact ho.2.1.trans (returnOk_lock ho.2.2)
  · have ho := h.outline t
    rw [hpc] at ho
    simp only [advance, hpc, Option.some.injEq] at hstep
    subst hstep
    exact lockLoad_owner ho howner
  · simp only [advance, hpc, Option.some.injEq] at hstep
    subst hstep
    unfold tryLock
    split
    · exact ⟨rfl, setPc_pc_self _ _ _, rfl⟩
    · rfl
  · obtain ⟨⟨hwait, -⟩, -⟩ := (outline_wait hpc).mp (h.outline t)
    refine ⟨fun herr => ⟨fun howner => herr (hwait.owner.mp howner).2, fun hm => ?_, ?_⟩, fun hnone => ?_,
      fun howner => ?_⟩
    · exact herr (hwait.pushed.clean (hwait.pushed.mem.mp hm)).1
    · exact s.waiters.not_served_of_withdrawn (hwait.pushed.withdrawn herr)
    · cases hres : (s.node t).resolved
      · exact .inl (hwait.pushed.mem.mpr hres)
      · exact .inr ⟨hwait.owner.mpr ⟨hres, hnone⟩, hwait.pushed.served hres hnone⟩
    · obtain ⟨hres, hnone⟩ := hwait.owner.mp howner
      exact hwait.pushed.served hres hnone

/-- What the environment answers when nothing goes wrong. -/
def calmEnv : Env := ⟨false, false, false, none, none, false⟩

/-- `k` actions of `t` in a calm environment. -/
def actions (t : Fin 2) (k : Nat) : List (Action (Fin 2)) := List.replicate k (.advance t calmEnv)

/-- Task 1 parks behind task 0, which unlocks: task 1 returns as the owner. -/
theorem mutex_ownership_handed_over : ∃ s : State (Fin 2), Reachable step State.init s ∧
    s.pc 1 = .returned .lock none ∧ s.owner = some 1 ∧ s.waiters.served = [0] := by
  obtain ⟨s, hreach, hs⟩ := exists_reachable step State.init
    (fun s : State (Fin 2) => (s.pc 1, s.waiters.served))
    ([.start 0 (.lock false)] ++ actions 0 2 ++ [.start 1 (.lock true)] ++ actions 1 8 ++
      [.start 0 .unlock] ++ actions 0 3 ++ actions 1 2)
    (b := (.returned .lock none, [0])) (by decide)
  obtain ⟨hpc, hserved⟩ := Prod.mk.inj hs
  obtain ⟨-, -, -, hreturn, -⟩ := mutex_ownership hreach
  exact ⟨s, hreach, hpc, (hreturn 1 none hpc).mpr (.inl rfl), hserved⟩

/-- A task that locks a mutex it owns gets `EDEADLK` and still owns it: a failed lock call may leave its caller as the
owner. -/
theorem relock_keeps_owner :
    ¬ ∀ s : State (Fin 2), Reachable step State.init s → ∀ t error, s.pc t = .returned .lock (some error) →
      error = .ETIMEDOUT ∨ error = .ECANCELED ∨ error = .EDEADLK → s.owner ≠ some t := by
  intro hclaim
  obtain ⟨s, hreach, hs⟩ := exists_reachable step State.init
    (fun s : State (Fin 2) => (s.pc 0, s.owner))
    ([.start 0 (.lock false)] ++ actions 0 2 ++ [.start 0 (.lock false)] ++ actions 0 1)
    (b := (.returned .lock (some .EDEADLK), some 0)) (by decide)
  obtain ⟨hpc, howner⟩ := Prod.mk.inj hs
  exact hclaim s hreach 0 .EDEADLK hpc (.inr (.inr rfl)) howner

/-! ## The condition variable -/

/-- The task is in a condition wait that has given the mutex away. -/
def Released : Pc T → Bool
  | .condHandOff _ _ => true
  | pc => match pc.wait with
    | some (.cond _) => true
    | _ => false

theorem released_cases {pc : Pc T} (h : Released pc = true) :
    (∃ d next, pc = .condHandOff d next) ∨ ∃ d, pc.wait = some (.cond d) := by
  unfold Released at h
  split at h
  · exact .inl ⟨_, _, rfl⟩
  split at h
  · exact .inr ⟨_, ‹_›⟩
  · cases h

/-- **Release and enqueue are one step** for everybody else: who has released the mutex is queued until it is resolved. -/
theorem queued_of_released (h : Inv s) (hrel : Released (s.pc t) = true) (hun : (s.node t).resolved = false) :
    t ∈ s.condWaiters.waiting := by
  have ho := h.outline t
  rcases released_cases hrel with ⟨d, next, hpc⟩ | ⟨d, hpc⟩
  · rw [hpc] at ho
    exact ho.1.pushed.mem.mpr hun
  · exact ((outline_wait hpc).mp ho).1.1.pushed.mem.mpr hun

/-- **A signal** pops the head of the queue and nobody else. -/
theorem signal_effect {env : Env} (hpc : s.pc t = .signalLocked) (hstep : advance s t env = some s') :
    (s.condWaiters.waiting = [] ∧ s'.condWaiters = s.condWaiters ∧ s'.node = s.node ∧
      s'.pc t = .returned .signal none) ∨
    ∃ w, s.condWaiters.waiting = w :: s'.condWaiters.waiting ∧ s'.pc t = .signalWake w ∧
      s'.node w = (s.node w).popped t ∧ ∀ u, u ≠ w → s'.node u = s.node u := by
  simp only [advance, hpc, signalLocked] at hstep
  split at hstep
  · cases hstep
  cases hpop : s.condWaiters.pop with
  | none =>
    simp only [hpop] at hstep
    cases hstep
    exact .inl ⟨Fifo.pop_none hpop, rfl, rfl, setPc_pc_self _ _ _⟩
  | some r =>
    obtain ⟨w, rest⟩ := r
    simp only [hpop] at hstep
    cases hstep
    refine .inr ⟨w, (Fifo.pop_some hpop).1, setPc_pc_self _ _ _, ?_, fun u hu => ?_⟩
    · exact setNode_node_self _ w _
    · exact setNode_node_of_ne _ _ hu

/-- **A broadcast** pops the waiters queued at that moment and nobody else. -/
theorem broadcast_effect {env : Env} (hpc : s.pc t = .broadcastLocked) (hstep : advance s t env = some s') :
    s'.condWaiters.waiting = [] ∧ s'.pc t = .broadcastWake s.condWaiters.waiting ∧
      ∀ u, s'.node u = if u ∈ s.condWaiters.waiting then (s.node u).popped t else s.node u := by
  simp only [advance, hpc, broadcastLocked] at hstep
  split at hstep
  · cases hstep
  · cases hstep
    exact ⟨rfl, setPc_pc_self _ _ _, fun u => rfl⟩

/-- The signaller and the broadcaster then wake whom they have popped. -/
def WakesOnly (s s' : State T) (w : T) : Prop :=
  (s'.node w).wakeArmed.completed = true ∧ (s'.node w).errorCode = (s.node w).errorCode ∧
    ∀ u, u ≠ w → s'.node u = s.node u

theorem wakesOnly_wakeNode (s : State T) (t w : T) (pc : Pc T) : WakesOnly s ((wakeNode s w).setPc t pc) w := by
  refine ⟨?_, ?_, fun u hu => setNode_node_of_ne _ _ hu⟩ <;> simp [wakeNode]

theorem head_ticket_le {q : Fifo T} {w : T} {rest : List T} (hq : q.waiting = w :: rest) (hm : t ∈ q.waiting) :
    q.ticket w ≤ q.ticket t := by
  have hord := (List.pairwise_append.mp q.ordered).2.1
  rw [hq, List.map_cons, List.pairwise_cons] at hord
  rw [hq] at hm
  rcases List.mem_cons.mp hm with rfl | hm
  · exact Nat.le_refl _
  · exact Nat.le_of_lt (hord.1 _ (List.mem_map_of_mem hm))

/-- **The condition variable.** In every state that any interleaving of wait, wait-until, signal, broadcast, timeout and
cancellation reaches: a wait that has released the mutex owns it when it returns, and it returns an error exactly when
no signal ended it; a signal pops the head of the queue, if there is one, and wakes it before it returns; a broadcast
pops exactly the waiters queued at that moment and wakes them; waiters are signalled in the order in which they were
queued; and a waiter that has released the mutex and is not resolved is queued, so that a signal finds it, or one queued
before it. -/
theorem cond_wait_contract (hreach : Reachable step State.init s) :
    (∀ t consumed result, s.pc t = .returned (.condWait true consumed) result →
      s.owner = some t ∧ (result = none ↔ consumed = true)) ∧
    (∀ t d, (s.pc t).wait = some (.cond d) → (s.node t).resolved = true →
      ((s.node t).scalarValue = true ↔ (s.node t).errorCode = none)) ∧
    (∀ t env s', s.pc t = .signalLocked → advance s t env = some s' →
      (s.condWaiters.waiting = [] ∧ s'.condWaiters = s.condWaiters ∧ s'.node = s.node ∧
        s'.pc t = .returned .signal none) ∨
      ∃ w, s.condWaiters.waiting = w :: s'.condWaiters.waiting ∧ s'.pc t = .signalWake w ∧
        s'.node w = (s.node w).popped t ∧ ∀ u, u ≠ w → s'.node u = s.node u) ∧
    (∀ t w env s', s.pc t = .signalWake w → advance s t env = some s' →
      s'.pc t = .returned .signal none ∧ (s.node w).waker = some (.task t) ∧ WakesOnly s s' w) ∧
    (∀ t env s', s.pc t = .broadcastLocked → advance s t env = some s' →
      s'.condWaiters.waiting = [] ∧ s'.pc t = .broadcastWake s.condWaiters.waiting ∧
        ∀ u, s'.node u = if u ∈ s.condWaiters.waiting then (s.node u).popped t else s.node u) ∧
    (∀ t w rest env s', s.pc t = .broadcastWake (w :: rest) → advance s t env = some s' →
      s'.pc t = .broadcastWake rest ∧ (s.node w).waker = some (.task t) ∧ WakesOnly s s' w) ∧
    (s.condWaiters.served ++ s.condWaiters.waiting.map s.condWaiters.ticket).Pairwise (· < ·) ∧
    (∀ t, Released (s.pc t) = true → (s.node t).resolved = false → t ∈ s.condWaiters.waiting ∧
      ∀ u env s', s.pc u = .signalLocked → advance s u env = some s' →
        ∃ w, s'.pc u = .signalWake w ∧ s.condWaiters.ticket w ≤ s.condWaiters.ticket t) := by
  have h := reachable_inv hreach
  refine ⟨fun t consumed result hpc => ?_, fun t d hpc hres => ?_, fun t env s' hpc hstep => signal_effect hpc hstep,
    fun t w env s' hpc hstep => ?_, fun t env s' hpc hstep => broadcast_effect hpc hstep,
    fun t w rest env s' hpc hstep => ?_, s.condWaiters.ordered, fun t hrel hun => ?_⟩
  · have ho := h.outline t
    rw [hpc] at ho
    obtain ⟨-, hsync, hin, hconsumed⟩ := ho
    exact ⟨hsync.mpr hin, hconsumed.symm⟩
  · exact ((outline_wait hpc).mp (h.outline t)).1.1.signalled hres
  · have ho := h.outline t
    rw [hpc] at ho
    simp only [advance, hpc, Option.some.injEq] at hstep
    subst hstep
    exact ⟨setPc_pc_self _ _ _, ho.2.2.2 w List.mem_cons_self, wakesOnly_wakeNode s t w _⟩
  · have ho := h.outline t
    rw [hpc] at ho
    simp only [advance, hpc, Option.some.injEq] at hstep
    subst hstep
    exact ⟨setPc_pc_self _ _ _, ho.2.2.2 w List.mem_cons_self, wakesOnly_wakeNode s t w _⟩
  · have hm := queued_of_released h hrel hun
    refine ⟨hm, fun u env s' hpc hstep => ?_⟩
    rcases signal_effect hpc hstep with ⟨hnil, -⟩ | ⟨w, hw, hpc', -⟩
    · rw [hnil] at hm; cases hm
    · exact ⟨w, hpc', head_ticket_le hw hm⟩

/-- Task 0 waits, task 1 signals: task 0 returns with the mutex and has consumed the signal. -/
theorem cond_wait_contract_signalled : ∃ s : State (Fin 2), Reachable step State.init s ∧
    s.pc 0 = .returned (.condWait true true) none ∧ s.owner = some 0 := by
  obtain ⟨s, hreach, hpc⟩ := exists_reachable step State.init (fun s : State (Fin 2) => s.pc 0)
    ([.start 0 (.lock false)] ++ actions 0 2 ++ [.start 0 (.condWait true)] ++ actions 0 10 ++
      [.start 1 .signal] ++ actions 1 2 ++ actions 0 5)
    (b := .returned (.condWait true true) none) (by decide)
  obtain ⟨hreturn, -⟩ := cond_wait_contract hreach
  exact ⟨s, hreach, hpc, (hreturn 0 true none hpc).1⟩

end Llam.Mutex
