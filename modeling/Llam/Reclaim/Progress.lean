import Llam.Reclaim.Exit

/-!
# A detached task is reclaimed

As long as a detached task is allocated, one of four gets on: the holder of the registry lock, the scheduler, the
detacher, or whoever pins the storage (`exists_closer`). Each of these actions leaves less work, so that a run to the
end of the reclaim exists from every state (`exists_run_freed`).
-/

namespace Llam.Reclaim

open Llam.Lib Function

variable {C G : Type} [DecidableEq C] [DecidableEq G] {s s' : State C G} {c d : C}

/-- Actions a scheduler has left. -/
def SchedPc.rank : SchedPc → Nat
  | .running => 8
  | .exitWake => 7
  | .markReady => 6
  | .loadDetached => 5
  | .loadReady => 4
  | .claim => 3
  | .invalidate => 2
  | .free => 1
  | .unborn | .done => 0

/-- Actions a detacher has left once its task is detached. -/
def Pc.rank : Pc G → Nat
  | .detachLoad _ => 5
  | .detachReclaim _ => 4
  | .detachUnlock _ _ => 3
  | .invalidate _ => 2
  | .free _ => 1
  | _ => 0

/-- What is left to do before the detached task is freed. -/
def work (s : State C G) (d : C) : Nat :=
  s.refs + (s.sched s.incarnation).rank + (s.pc d).rank + if s.registryLock = none then 0 else 1

/-- An action that brings the reclaim of the task `d` has detached closer. -/
structure Closer (s : State C G) (d : C) (a : Action C G) (s' : State C G) : Prop where
  step : step s a = some s'
  quiet : quiet s a = true
  incarnation : s'.incarnation = s.incarnation
  detacher : s'.detacher = s.detacher
  work : work s' d < work s d

theorem Inv.taskLock_registryLock (h : Inv s) {e : C} (ht : s.taskLock = some e) : s.registryLock = some e := by
  have ho := h.outline e
  cases hp : s.pc e <;> rw [hp] at ho
  case idle => exact absurd ht ho.2
  case returned call result =>
    cases result with
    | none => exact absurd ht ho.1.2
    | some error => exact absurd ht ho.2
  case joinClaim | detachEnter => exact absurd ht ho.1.2
  case detachLock => exact absurd ht ho.2.1
  case detachInvalidate | detachStore | detachLoad | detachReclaim | detachUnlock => exact ho.1.locked.1
  case invalidate => exact absurd ht ho.unlocked.2
  case free => exact absurd ht ho.1.unlocked.2
  all_goals exact absurd ht ho.1.unlocked.2

/-- An environment that never interferes. -/
def Env.calm : Env := ⟨none, false, false, none⟩

theorem closer_unpin (h : s.refs ≠ 0) : Closer s d .unpin ({ s with refs := s.refs - 1 } : State C G) where
  step := by simp [step, h]
  quiet := rfl
  incarnation := rfl
  detacher := rfl
  work := by
    simp only [Llam.Reclaim.work]
    omega

theorem work_lt (hr : s'.refs = s.refs) (hs : (s'.sched s'.incarnation).rank ≤ (s.sched s.incarnation).rank)
    (hp : (s'.pc d).rank ≤ (s.pc d).rank) (hl : s'.registryLock = none ∨ s'.registryLock = s.registryLock)
    (hlt : (s'.sched s'.incarnation).rank < (s.sched s.incarnation).rank ∨ (s'.pc d).rank < (s.pc d).rank ∨
      (s.registryLock ≠ none ∧ s'.registryLock = none)) : work s' d < work s d := by
  have hlock : (if s'.registryLock = none then 0 else 1) ≤ if s.registryLock = none then 0 else 1 := by
    rcases hl with hl | hl <;> simp [hl]
  unfold work
  rcases hlt with hlt | hlt | ⟨hne, hl'⟩
  · omega
  · omega
  · rw [if_neg hne, if_pos hl']
    omega

theorem closer_advance (hs : advance s d .calm = some s') (hi : s'.incarnation = s.incarnation)
    (hd : s'.detacher = s.detacher) (hr : s'.refs = s.refs) (hsched : s'.sched = s.sched)
    (hp : (s'.pc d).rank < (s.pc d).rank) (hl : s'.registryLock = none ∨ s'.registryLock = s.registryLock) :
    ∃ a s', Closer s d a s' :=
  ⟨.advance d .calm, s', hs, rfl, hi, hd,
    work_lt hr (Nat.le_of_eq (by rw [hi, hsched])) (Nat.le_of_lt hp) hl (.inr (.inl hp))⟩

/-- The holder of the registry lock gets on: a second detach is refused, the detacher itself goes towards its unlock. -/
theorem closer_locked (h : Inv s) (hd : s.detacher s.incarnation = some d) {e : C} (hl : s.registryLock = some e) :
    ∃ a s', Closer s d a s' := by
  have hdet : s.detached = true := by rw [h.cell.detachFlag, hd]; rfl
  have hh := h.cell.detacherHolds d hd
  have ho := h.outline e
  cases hp : s.pc e <;> rw [hp] at ho
  case detachLock handle =>
    have ht : s.taskLock = none := by
      cases ht : s.taskLock with
      | none => rfl
      | some x =>
        cases hl.symm.trans (h.taskLock_registryLock ht)
        exact absurd ht ho.2.1
    refine ⟨.advance e .calm, detachFail s e handle .EINVAL, ?_, rfl, rfl, rfl, ?_⟩
    · simp [step, advance, hp, detachLock, ht, hdet]
    · refine work_lt rfl (Nat.le_refl _) ?_ (.inl rfl) (.inr (.inr ⟨by rw [hl]; simp, rfl⟩))
      by_cases hde : d = e
      · subst hde
        simp [detachFail, State.ret, Pc.rank]
      · simp [detachFail, State.ret, hde]
  case detachLoad handle =>
    cases ho.1.holder.symm.trans hh
    have hs : advance s d .calm = some (detachLoad s d handle) := by simp [advance, hp]
    refine closer_advance hs rfl rfl rfl rfl ?_ (.inr rfl)
    unfold detachLoad
    split <;> simp [hp, Pc.rank]
  case detachReclaim handle =>
    cases ho.1.holder.symm.trans hh
    have hs : advance s d .calm = some (detachReclaim s d handle) := by simp [advance, hp]
    unfold detachReclaim at hs
    split at hs <;> exact closer_advance hs rfl rfl rfl rfl (by simp [hp, Pc.rank]) (.inr rfl)
  case detachUnlock handle reclaim =>
    cases ho.1.holder.symm.trans hh
    have hs : advance s d .calm = some (detachUnlock s d handle reclaim) := by simp [advance, hp]
    unfold detachUnlock at hs
    split at hs
    · exact closer_advance hs rfl rfl rfl rfl (by simp [hp, Pc.rank]) (.inl rfl)
    · exact closer_advance hs rfl rfl rfl rfl (by simp [hp, State.ret, Pc.rank]) (.inl rfl)
  case detachInvalidate | detachStore => cases hdet.symm.trans ho.1.detached
  case idle => exact absurd hl ho.1
  case returned call result =>
    cases result with
    | none => exact absurd hl ho.1.1
    | some error => exact absurd hl ho.1
  case joinClaim | detachEnter => exact absurd hl ho.1.1
  case invalidate => exact absurd hl ho.unlocked.1
  case free => exact absurd hl ho.1.unlocked.1
  all_goals cases hdet.symm.trans ho.1.attached

theorem wakeJoiners_rank (s : State C G) (d : C) : ((wakeJoiners s).pc d).rank = (s.pc d).rank := by
  by_cases hp : ∃ args, s.pc d = .joinParked args
  · obtain ⟨args, hp⟩ := hp
    simp only [wakeJoiners, hp]
    split <;> rfl
  · rw [wakeJoiners_pc_of_not_parked fun args he => hp ⟨args, he⟩]

theorem closer_schedule (t : State C G) (pc : SchedPc)
    (hs : schedule s s.incarnation = some (t.setSched s.incarnation pc)) (hi : t.incarnation = s.incarnation)
    (hd : t.detacher = s.detacher) (hr : t.refs = s.refs) (hp : (t.pc d).rank = (s.pc d).rank)
    (hl : t.registryLock = s.registryLock) (hlt : pc.rank < (s.sched s.incarnation).rank) :
    ∃ a s', Closer s d a s' := by
  have hself : (t.setSched s.incarnation pc).sched (t.setSched s.incarnation pc).incarnation = pc := by
    show update t.sched s.incarnation pc t.incarnation = pc
    rw [hi, update_self]
  refine ⟨.schedule s.incarnation, _, hs, rfl, hi, hd, work_lt hr ?_ (Nat.le_of_eq hp) (.inr hl) (.inl ?_)⟩
  · rw [hself]; exact Nat.le_of_lt hlt
  · rw [hself]; exact hlt

/-- With the registry lock free, a scheduler that is not done gets on, or waits for a pin. -/
theorem closer_scheduler (h : Inv s) (hl : s.registryLock = none) (hg : 1 ≤ s.incarnation)
    (hnd : s.sched s.incarnation ≠ .done) : ∃ a s', Closer s d a s' := by
  have ht : s.taskLock = none := by
    cases ht : s.taskLock with
    | none => rfl
    | some x => exact nomatch hl.symm.trans (h.taskLock_registryLock ht)
  have hok := h.cell.sched
  cases hp : s.sched s.incarnation <;> rw [hp] at hok
  case unborn => rw [hok] at hg; omega
  case done => exact absurd hp hnd
  case running =>
    exact closer_schedule { s with completed := true } .exitWake (by simp [schedule, hp, ht]) rfl rfl rfl rfl rfl (by rw [hp]; decide)
  case exitWake =>
    exact closer_schedule (wakeJoiners s) .markReady (by simp [schedule, hp, ht]) rfl rfl rfl (wakeJoiners_rank s d) rfl
      (by rw [hp]; decide)
  case markReady =>
    exact closer_schedule { s with
      reclaimReady := true
      offStack := update s.offStack s.incarnation true } .loadDetached (by rw [schedule, hp]) rfl rfl rfl rfl
      rfl (by rw [hp]; decide)
  case loadDetached =>
    refine closer_schedule s (if s.detached then .loadReady else .done) (by rw [schedule, hp]) rfl rfl rfl rfl rfl ?_
    rw [hp]
    split <;> decide
  case loadReady =>
    refine closer_schedule s (if s.reclaimReady then .claim else .done) (by rw [schedule, hp]) rfl rfl rfl rfl rfl ?_
    rw [hp]
    split <;> decide
  case claim =>
    by_cases hc : s.reclaimClaimed = true
    · exact closer_schedule s .done (by simp [schedule, hp, hc]) rfl rfl rfl rfl rfl (by rw [hp]; decide)
    · exact closer_schedule (s.claimReclaim (.scheduler s.incarnation)) .invalidate (by simp [schedule, hp, hc]) rfl rfl rfl rfl
        rfl (by rw [hp]; decide)
  case invalidate =>
    exact closer_schedule { s with handleGen := s.handleGen + 1, unlisted := true } .free
      (by simp [schedule, hp, invalidate, hl]) rfl rfl rfl rfl rfl (by rw [hp]; decide)
  case free =>
    by_cases hr : s.refs = 0
    · exact closer_schedule s.freeStorage .done (by simp [schedule, hp, free, hr]) rfl rfl rfl rfl rfl (by rw [hp]; decide)
    · exact ⟨_, _, closer_unpin hr⟩

/-- With the registry lock free and its scheduler done, the detacher of an allocated task has its reclaim claim. -/
theorem closer_detacher (h : Inv s) (hd : s.detacher s.incarnation = some d) (ha : s.allocated = true)
    (hl : s.registryLock = none) (hdone : s.sched s.incarnation = .done) : ∃ a s', Closer s d a s' := by
  have hdet : s.detached = true := by rw [h.cell.detachFlag, hd]; rfl
  have hh := h.cell.detacherHolds d hd
  have hunlocked : ∀ handle b, ¬ Detaching s d handle b := fun _ _ hc => nomatch hl.symm.trans hc.locked.1
  have ho := h.outline d
  have hok := h.cell.sched
  rw [hdone] at hok
  cases hr : s.reclaimer s.incarnation with
  | none =>
    rcases h.cell.responsible hdet hr with hs | ⟨e, handle, he, hp⟩
    · exact absurd hdone hs
    · cases he.symm.trans hh
      rcases hp with hp | hp <;> rw [hp] at ho <;> exact absurd ho.1 (hunlocked _ _)
  | some a =>
    cases a with
    | scheduler k =>
      obtain ⟨rfl, _⟩ := h.cell.byScheduler k hr
      exact nomatch ha.symm.trans (hok.2 hr)
    | caller e =>
      cases (h.cell.byCaller e hr).symm.trans hh
      obtain ⟨call, hp | hp | hp⟩ := h.cell.reclaiming d hr ha
      · have hs : advance s d .calm = some (({ s with
            handleGen := s.handleGen + 1
            unlisted := true } : State C G).setPc d (.free call)) := by simp [advance, hp, invalidate, hl]
        exact closer_advance hs rfl rfl rfl rfl (by simp [hp, Pc.rank]) (.inr rfl)
      · by_cases hrefs : s.refs = 0
        · have hs : advance s d .calm = some (s.freeStorage.ret d call none) := by simp [advance, hp, free, hrefs]
          exact closer_advance hs rfl rfl rfl rfl (by simp [hp, State.ret, Pc.rank]) (.inr rfl)
        · exact ⟨_, _, closer_unpin hrefs⟩
      · rw [hp] at ho
        exact absurd ho.1 (hunlocked _ _)

/-- While a detached task is allocated, somebody gets on with its reclaim. -/
theorem exists_closer (h : Inv s) (hd : s.detacher s.incarnation = some d) (ha : s.allocated = true) :
    ∃ a s', Closer s d a s' := by
  cases hl : s.registryLock with
  | some e => exact closer_locked h hd hl
  | none =>
    by_cases hdone : s.sched s.incarnation = .done
    · exact closer_detacher h hd ha hl hdone
    · exact closer_scheduler h hl (h.cell.live ha).2 hdone

theorem Cell.freed_of_detached (h : Cell s) (hd : s.detacher s.incarnation = some d) (ha : s.allocated = false) :
    s.freed s.incarnation = 1 := by
  rcases h.dead ha with h0 | ⟨hf, _⟩
  · have he := h.elsewhere 0 (.inr rfl)
    rw [h0] at hd
    exact nomatch he.detacher.symm.trans hd
  · exact hf

/-- **No detached task is left behind**: wherever a run is, some continuation frees it. -/
theorem exists_run_freed {n : Nat} (h : Inv s) (hd : s.detacher s.incarnation = some d) (hn : work s d ≤ n) :
    ∃ acts s', run (guarded quiet step) s acts = some s' ∧ s'.freed s.incarnation = 1 := by
  -- By induction on the work left; each action that brings the reclaim closer leaves less.
  induction n generalizing s with
  | zero =>
    cases ha : s.allocated with
    | false => exact ⟨[], s, rfl, h.cell.freed_of_detached hd ha⟩
    | true =>
      obtain ⟨a, s', hc⟩ := exists_closer h hd ha
      have := hc.work
      omega
  | succ n ih =>
    cases ha : s.allocated with
    | false => exact ⟨[], s, rfl, h.cell.freed_of_detached hd ha⟩
    | true =>
      obtain ⟨a, s₁, hc⟩ := exists_closer h hd ha
      have hw := hc.work
      obtain ⟨acts, s', hr, hf⟩ := ih (step_inv h hc.quiet hc.step) (by rw [hc.detacher, hc.incarnation]; exact hd)
        (by omega)
      refine ⟨a :: acts, s', run_cons.mpr ⟨s₁, guarded_some.mpr ⟨hc.quiet, hc.step⟩, hr⟩, ?_⟩
      rw [← hc.incarnation]
      exact hf

end Llam.Reclaim
