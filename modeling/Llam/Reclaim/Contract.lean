import Llam.Reclaim.Progress

/-!
# One consumer, one reclaim

What the claims on a task storage are for, over every run in which the storage is not handed to the next task while the
scheduler of the last one is still in its check for a detached task (`exclusive_consumption_and_single_reclaim`).
Without that condition the check can free a task that runs (`running_task_freed`): it reads the flags of the last
task and then takes the reclaim claim of the next.
-/

namespace Llam.Reclaim

open Llam.Lib

variable {C G : Type} [DecidableEq C] [DecidableEq G] {s s' : State C G} {c d : C} {args : JoinArgs G}

/-! ## Returns -/

/-- The ways a call that has its claim returns. -/
inductive Returns (s : State C G) (c : C) : Call G → Option Errno → State C G → Prop
  | released (args : JoinArgs G) (error : Errno) (hp : s.pc c = .joinRelease args error) :
    Returns s c (.join args) (some error) (joinRelease s c args error)
  | detached (handle : Nat) (hp : s.pc c = .detachUnlock handle false) :
    Returns s c (.detach handle) none (detachUnlock s c handle false)
  | freed (call : Call G) (hp : s.pc c = .free call) : Returns s c call none (s.freeStorage.ret c call none)

theorem joinReclaim_pc (h : Inv s) (hp : s.pc c = .joinReclaim args) :
    (joinReclaim s c args).pc c = .invalidate (.join args) := by
  obtain ⟨hj, _, _⟩ := h.here hp
  have hflag : s.reclaimClaimed = false := by
    rw [h.cell.reclaimFlag, hj.unreclaimed]
    rfl
  have hcount := h.cell.waiterCount
  unfold joinReclaim
  rw [if_neg (by simp [hflag]; omega), setPc_pc_self]

theorem advance_returns (h : Inv s) {env : Env} {call : Call G} {result : Option Errno}
    (hc : (s.pc c).claims = true) (hs : advance s c env = some s') (hr : s'.pc c = .returned call result) :
    Returns s c call result s' := by
  unfold advance at hs
  cases hp : s.pc c <;> rw [hp] at hs <;> simp only [hp, Pc.claims, reduceCtorEq] at hc
  case joinFast => cases hs; unfold joinFast at hr; split at hr <;> simp at hr
  case joinLocked =>
    simp only [joinLocked] at hs
    repeat' split at hs
    all_goals cases hs
    all_goals simp at hr
  case joinParked => cases hs
  case joinWoken => cases hs; unfold joinWoken at hr; split at hr <;> simp at hr
  case joinPoll =>
    cases hs
    unfold joinPoll at hr
    repeat' split at hr
    all_goals simp [hp] at hr
  case joinPolled =>
    cases hs
    unfold joinPolled at hr
    repeat' split at hr
    all_goals simp at hr
  case joinRelease args error =>
    cases hs
    have heq := (setPc_pc_self _ _ _).symm.trans hr
    cases heq
    exact .released args error hp
  case joinReady =>
    simp only [joinReady] at hs
    split at hs
    · cases hs; simp at hr
    · cases hs
  case joinReclaim =>
    cases hs
    rw [joinReclaim_pc h hp] at hr
    cases hr
  case detachInvalidate | detachStore => cases hs; cases (setPc_pc_self _ _ _).symm.trans hr
  case detachLoad => cases hs; unfold detachLoad at hr; split at hr <;> simp at hr
  case detachReclaim => cases hs; unfold detachReclaim at hr; split at hr <;> simp at hr
  case detachUnlock handle reclaim =>
    cases hs
    cases reclaim with
    | false =>
      have heq := (setPc_pc_self _ _ _).symm.trans hr
      cases heq
      exact .detached handle hp
    | true => cases (setPc_pc_self _ _ _).symm.trans hr
  case invalidate =>
    obtain ⟨t, _, ht⟩ := Option.map_eq_some_iff.mp hs
    subst ht
    simp at hr
  case free =>
    obtain ⟨t, ht, heq⟩ := Option.map_eq_some_iff.mp hs
    subst heq
    have hcall := (setPc_pc_self _ _ _).symm.trans hr
    cases hcall
    unfold free at ht
    split at ht
    · cases ht; exact .freed call hp
    · cases ht

/-! ## Handles -/

theorem advance_handleGen {env : Env} (hs : advance s c env = some s') : s.handleGen ≤ s'.handleGen := by
  unfold advance at hs
  cases hp : s.pc c <;> rw [hp] at hs
  case invalidate =>
    simp only [invalidate] at hs
    split at hs <;> cases hs
    exact Nat.le_succ _
  case free =>
    simp only [free] at hs
    split at hs <;> cases hs
    exact Nat.le_refl _
  case joinClaim =>
    simp only [joinClaim] at hs
    repeat' split at hs
    all_goals cases hs
    all_goals exact Nat.le_refl _
  case joinLocked =>
    simp only [joinLocked] at hs
    repeat' split at hs
    all_goals cases hs
    all_goals exact Nat.le_refl _
  case joinReady =>
    simp only [joinReady] at hs
    split at hs <;> cases hs
    exact Nat.le_refl _
  case detachEnter =>
    simp only [detachEnter] at hs
    repeat' split at hs
    all_goals cases hs
    all_goals exact Nat.le_refl _
  case detachLock =>
    simp only [detachLock] at hs
    repeat' split at hs
    all_goals cases hs
    all_goals exact Nat.le_refl _
  all_goals cases hs
  case joinWoken => unfold joinWoken; split <;> exact Nat.le_refl _
  case joinPoll =>
    unfold joinPoll
    repeat' split
    all_goals exact Nat.le_refl _
  case joinPolled =>
    unfold joinPolled
    repeat' split
    all_goals exact Nat.le_refl _
  case joinReclaim => unfold joinReclaim; split <;> exact Nat.le_refl _
  case detachInvalidate => exact Nat.le_succ _
  case detachReclaim => unfold detachReclaim; split <;> exact Nat.le_refl _
  case detachUnlock => unfold detachUnlock; split <;> exact Nat.le_refl _
  all_goals exact Nat.le_refl _

theorem schedule_handleGen {g : Nat} (hs : schedule s g = some s') : s.handleGen ≤ s'.handleGen := by
  unfold schedule at hs
  cases hp : s.sched g <;> rw [hp] at hs
  case invalidate =>
    simp only [invalidate] at hs
    split at hs <;> cases hs
    exact Nat.le_succ _
  case free =>
    simp only [free] at hs
    split at hs <;> cases hs
    exact Nat.le_refl _
  all_goals simp only at hs
  all_goals try split at hs
  all_goals cases hs
  all_goals exact Nat.le_refl _

theorem step_handleGen {a : Action C G} (hs : step s a = some s') : s.handleGen ≤ s'.handleGen := by
  cases a with
  | advance c env => exact advance_handleGen hs
  | schedule g => exact schedule_handleGen hs
  | resolveJoin c error =>
    simp only [step, resolveJoin] at hs
    repeat' split at hs
    all_goals cases hs
    all_goals exact Nat.le_refl _
  | _ =>
    simp only [step] at hs
    repeat' split at hs
    all_goals cases hs
    all_goals exact Nat.le_refl _

theorem run_handleGen {acts : List (Action C G)} (hs : run step s acts = some s') : s.handleGen ≤ s'.handleGen :=
  run_trans (I := fun _ => True) (R := fun s t => s.handleGen ≤ t.handleGen) (fun _ => Nat.le_refl _)
    (fun _ _ _ => Nat.le_trans) (fun _ _ _ _ _ => trivial) (fun _ _ _ _ => step_handleGen) trivial hs

/-! ## The contract -/

/-- A join of `handle` by any caller the owning group admits takes the claim. -/
def Joinable (s : State C G) (handle : Nat) : Prop :=
  s.allocated = true ∧ ∀ c args env, s.pc c = .joinClaim args → args.handle = handle → args.group = s.owningGroup →
    args.self = false → s.registryLock = none → ∃ t, step s (.advance c env) = some t ∧ t.holder = some c

/-- What a state owes to the users of the task storage. -/
structure Contract (s : State C G) : Prop where
  /-- At most one call consumes a task. -/
  consumed : ∀ g, (s.consumers g).length ≤ 1
  /-- A call that returns success consumes the task of its handle. -/
  consumes : ∀ c env call s', (s.pc c).claims = true → step s (.advance c env) = some s' →
    s'.pc c = .returned call none → s.handleOf s.incarnation = call.handle ∧ s'.consumers s.incarnation = [c]
  /-- A join that fails after its claim leaves the task joinable. -/
  rejoin : ∀ c env call error s', (s.pc c).claims = true → step s (.advance c env) = some s' →
    s'.pc c = .returned call (some error) → Joinable s' call.handle
  /-- After a success the handle never resolves again. -/
  unresolvable : ∀ c call, s.pc c = .returned call none → ∀ acts s', run step s acts = some s' →
    s'.resolves call.handle = false
  /-- The storage of a task is freed at most once. -/
  once : ∀ g, s.freed g ≤ 1
  /-- Nobody claims the reclaim of a task, or frees it, before its scheduler has marked it off-stack. -/
  offStack : ∀ g, s.reclaimer g ≠ none ∨ s.freed g ≠ 0 → s.offStack g = true
  /-- A detached task is freed once its scheduler and its detacher are through, by one of the two. -/
  reclaimed : ∀ g d, s.detacher g = some d → s.sched g = .done → (g = s.incarnation → (s.pc d).claims = false) →
    s.freed g = 1 ∧ (s.reclaimer g = some (.caller d) ∨ s.reclaimer g = some (.scheduler g))
  /-- And it can always come to that. -/
  reclaimable : ∀ g d, s.detacher g = some d → ∃ acts s', run (guarded quiet step) s acts = some s' ∧ s'.freed g = 1

/-- What one incarnation has behind it, whichever it is. -/
theorem Cell.freed_le_one (h : Cell s) (g : Nat) : s.freed g ≤ 1 := by
  by_cases hg : g = s.incarnation ∧ g ≠ 0
  · obtain ⟨rfl, hg⟩ := hg
    cases ha : s.allocated with
    | true => rw [(h.live ha).1]; exact Nat.zero_le 1
    | false =>
      rcases h.dead ha with h0 | ⟨hf, _⟩
      · exact absurd h0 hg
      · exact Nat.le_of_eq hf
  · have he := h.elsewhere g (by omega)
    split at he
    · exact Nat.le_of_eq he.freed
    · rw [he.freed]; exact Nat.zero_le 1

theorem Cell.consumers_length (h : Cell s) (g : Nat) : (s.consumers g).length ≤ 1 := by
  by_cases hg : g = s.incarnation
  · subst hg
    rcases h.consumed with hc | ⟨c, hc, _⟩ <;> simp [hc]
  have he := h.elsewhere g (.inl hg)
  split at he
  · exact he.consumed
  · simp [he.consumed]

theorem Cell.offStack_of_reclaim (h : Cell s) (g : Nat) (hr : s.reclaimer g ≠ none ∨ s.freed g ≠ 0) :
    s.offStack g = true := by
  by_cases hg : g = s.incarnation ∧ g ≠ 0
  · obtain ⟨rfl, hg⟩ := hg
    rw [← h.readyFlag]
    rcases hr with hr | hf
    · exact h.reclaimed hr
    cases ha : s.allocated with
    | true => exact absurd (h.live ha).1 hf
    | false =>
      rcases h.dead ha with h0 | ⟨_, hr, _⟩
      · exact absurd h0 hg
      · exact h.reclaimed hr
  · have he := h.elsewhere g (by omega)
    split at he
    · exact he.offStack
    rcases hr with hr | hf
    · exact absurd he.reclaimer hr
    · exact absurd he.freed hf

theorem Inv.reclaimed_of_detached (h : Inv s) {g : Nat} (hd : s.detacher g = some d) (hs : s.sched g = .done)
    (hp : g = s.incarnation → (s.pc d).claims = false) :
    s.freed g = 1 ∧ (s.reclaimer g = some (.caller d) ∨ s.reclaimer g = some (.scheduler g)) := by
  by_cases hg : g = s.incarnation
  · subst hg
    have hp := hp rfl
    have hdet : s.detached = true := by rw [h.cell.detachFlag, hd]; rfl
    have hh := h.cell.detacherHolds d hd
    have hok := h.cell.sched
    rw [hs] at hok
    cases hr : s.reclaimer s.incarnation with
    | none =>
      -- Nobody has the claim: the scheduler is done, so the detacher would have to be on its way to it.
      rcases h.cell.responsible hdet hr with hn | ⟨e, handle, he, hpc⟩
      · exact absurd hs hn
      · cases he.symm.trans hh
        rcases hpc with hpc | hpc <;> rw [hpc] at hp <;> cases hp
    | some a =>
      cases a with
      | scheduler k =>
        obtain ⟨rfl, _⟩ := h.cell.byScheduler k hr
        exact ⟨h.cell.freed_of_detached hd (hok.2 hr), .inr rfl⟩
      | caller e =>
        cases (h.cell.byCaller e hr).symm.trans hh
        refine ⟨?_, .inl rfl⟩
        cases ha : s.allocated with
        | false => exact h.cell.freed_of_detached hd ha
        | true =>
          obtain ⟨call, hpc | hpc | hpc⟩ := h.cell.reclaiming d hr ha <;> rw [hpc] at hp <;> cases hp
  · have he := h.cell.elsewhere g (.inl hg)
    split at he
    · exact ⟨he.freed, he.byWhom d hd⟩
    · exact nomatch he.detacher.symm.trans hd

theorem Inv.exists_run_freed_of_detached (h : Inv s) {g : Nat} (hd : s.detacher g = some d) :
    ∃ acts s', run (guarded quiet step) s acts = some s' ∧ s'.freed g = 1 := by
  by_cases hg : g = s.incarnation
  · subst hg
    exact exists_run_freed h hd (Nat.le_refl _)
  have he := h.cell.elsewhere g (.inl hg)
  split at he
  · exact ⟨[], s, rfl, he.freed⟩
  · exact nomatch he.detacher.symm.trans hd

/-- The join claim of an attached, unclaimed task whose handle resolves. -/
theorem joinClaim_admits (hl : s.registryLock = none) (hr : s.handleGen = args.handle)
    (hscope : s.scopeCompletion = false) (hd : s.detached = false) (hg : args.group = s.owningGroup)
    (hself : args.self = false) (hj : s.joinClaimed = false) : ∃ t, joinClaim s c args = some t ∧ t.holder = some c := by
  unfold joinClaim
  simp only [hl, hr, State.resolves, hscope, hd, hself, hj, hg, decide_true, Bool.not_true, ne_eq, not_true_eq_false,
    Bool.false_eq_true, if_false, decide_false, Bool.and_false, decide_not, Bool.and_not_self]
  exact ⟨_, rfl, rfl⟩

/-- The release of a claim leaves the task as it was before the claim. -/
theorem joinable_of_released (h : Inv s) {error : Errno}
    (hp : s.pc c = .joinRelease args error) : Joinable (joinRelease s c args error) args.handle := by
  have ho := h.here hp
  have hj : Joining s c args.handle := ho.1
  refine ⟨hj.allocated, fun e args' env he hhandle hgroup hself hlock => ?_⟩
  obtain ⟨t, ht, hh⟩ := joinClaim_admits (c := e) (s := joinRelease s c args error) hlock
    (hj.resolves.trans hhandle.symm) hj.unscoped hj.attached hgroup hself rfl
  exact ⟨t, by rw [step, advance, he]; exact ht, hh⟩

/-- A success return of a call that has its claim. -/
theorem consumes_of_returns (h : Inv s) {call : Call G} (hr : Returns s c call none s') :
    s.handleOf s.incarnation = call.handle ∧ s'.consumers s.incarnation = [c] := by
  have ho := h.outline c
  cases hr with
  | detached handle hp =>
    rw [hp] at ho
    exact ⟨ho.1.current, by simp [detachUnlock, State.ret, State.setPc, ho.1.unconsumed]⟩
  | freed call hp =>
    rw [hp] at ho
    exact ⟨ho.1.current, by simp [State.freeStorage, State.ret, State.setPc, ho.1.unconsumed]⟩

/-- **Exclusive consumption, single reclaim**: in every state of every run in which no spawn takes the storage while the
scheduler of its last task is in its check for a detached task, each task is consumed at most once, a failed join leaves
it joinable, a consumed handle stays dead, and the storage is freed once, off-stack, by the joiner, the detacher or the
scheduler; a detached task always by one of the last two. -/
theorem exclusive_consumption_and_single_reclaim (h : Reachable (guarded quiet step) State.init s) : Contract s := by
  have hi := reachable_inv h
  exact {
    consumed := hi.cell.consumers_length
    consumes := fun c env call s' hc hs hr => consumes_of_returns hi (advance_returns hi hc hs hr)
    rejoin := by
      intro c env call error s' hc hs hr
      cases advance_returns hi hc hs hr with
      | released args _ hp => exact joinable_of_released hi hp
    unresolvable := by
      intro c call hp acts s' hrun
      have ho := hi.outline c
      rw [hp] at ho
      have hgen := run_handleGen hrun
      simp only [State.resolves, decide_eq_false_iff_not]
      have := ho.2
      omega
    once := hi.cell.freed_le_one
    offStack := hi.cell.offStack_of_reclaim
    reclaimed := fun g d hd hs hp => hi.reclaimed_of_detached hd hs hp
    reclaimable := fun g d hd => hi.exists_run_freed_of_detached hd }

/-- A task is detached while it runs, and its scheduler reclaims it after the exit. -/
theorem scheduler_reclaims_detached_task :
    ∃ s : State Unit Unit, Contract s ∧ s.freed 1 = 1 ∧ s.reclaimer 1 = some (.scheduler 1) := by
  obtain ⟨s, hs, hf⟩ := exists_reachable (guarded quiet step) (State.init : State Unit Unit)
    (fun s => (s.freed 1, s.reclaimer 1)) (b := (1, some (.scheduler 1)))
    ([.spawn none false, .start () (.detach 0)] ++ List.replicate 6 (.advance () .calm) ++
      List.replicate 8 (.schedule 1)) (by decide)
  exact ⟨s, exclusive_consumption_and_single_reclaim hs, congrArg Prod.fst hf, congrArg Prod.snd hf⟩

/-- The detacher of the first task has the reclaim claim when the scheduler of that task reads that it is detached and
ready. The storage is freed and handed to a second task, the scheduler takes its reclaim claim and frees it while it
runs. -/
theorem running_task_freed : ¬ ∀ s : State Unit Unit, Reachable step State.init s → Contract s := by
  intro h
  obtain ⟨s, hs, hf⟩ := exists_reachable step (State.init : State Unit Unit)
    (fun s => (s.freed 2, s.offStack 2)) (b := (1, false))
    ([.spawn none false] ++ List.replicate 3 (.schedule 1) ++ [.start () (.detach 0)] ++
      List.replicate 6 (.advance () .calm) ++ List.replicate 2 (.schedule 1) ++ List.replicate 3 (.advance () .calm) ++
      [.spawn none false] ++ List.replicate 3 (.schedule 1)) (by decide)
  have hfreed : s.freed 2 = 1 := congrArg Prod.fst hf
  have hstack : s.offStack 2 = false := congrArg Prod.snd hf
  have hoff := (h s hs).offStack 2 (.inr (by omega))
  exact nomatch hstack.symm.trans hoff

end Llam.Reclaim
