import Llam.Blocking.Cancel

/-!
# The contract of blocking calls

What holds in every state that a run reaches, whatever the interleaving of callers, workers and resolvers: a callback runs
at most once and never after its call is over, a successful call returns what its callback returned, a caller is woken
once for each time it parked and not while its callback runs, `block_pending` counts the jobs that are admitted and not
accounted for, and a job object is recycled once and with nobody left that refers to it
(`blocking_calls_run_at_most_once`).
-/

namespace Llam.Blocking

open Llam.Wait Llam.Lib Function

variable {T V W K : Type} [DecidableEq T] [DecidableEq W] [DecidableEq K] [Inhabited V] {s s' : State T V W K} {t : T}
  {j : Nat}

/-! ## What a later state says of an earlier call -/

/-- Call `n` has returned. -/
def Task.Over (x : Task V W K) (n : Nat) : Prop := n < x.call ∨ n = x.call ∧ ∃ outcome, x.pc = .returned outcome

/-- A call that is over, or whose job was aborted in the queue, stays so and its callback is not started any more. -/
structure Follows (x x' : Task V W K) : Prop where
  aborted : ∀ n, x.aborted n = true → x'.aborted n = true
  past : ∀ n, x.Over n → x'.Over n ∧ x'.started n = x.started n ∧ x'.callback n = x.callback n

theorem Follows.refl (x : Task V W K) : Follows x x := ⟨fun _ => id, fun _ h => ⟨h, rfl, rfl⟩⟩

theorem Follows.trans {x y z : Task V W K} (h : Follows x y) (h' : Follows y z) : Follows x z where
  aborted n hn := h'.aborted n (h.aborted n hn)
  past n hn := by
    obtain ⟨ho, hs, hc⟩ := h.past n hn
    obtain ⟨ho', hs', hc'⟩ := h'.past n ho
    exact ⟨ho', hs'.trans hs, hc'.trans hc⟩

/-- The history of a task. -/
def Task.log (x : Task V W K) := (x.call, x.aborted, x.started, x.callback)

theorem follows_of_same {x x' : Task V W K} (h : x'.log = x.log)
    (hpc : ∀ outcome, x.pc = .returned outcome → x'.pc = .returned outcome) : Follows x x' := by
  simp only [Task.log, Prod.mk.injEq] at h
  obtain ⟨hcall, hab, hst, hcb⟩ := h
  refine ⟨fun n => by rw [hab]; exact id, fun n hn => ⟨?_, by rw [hst], by rw [hcb]⟩⟩
  rcases hn with hlt | ⟨he, outcome, ho⟩
  · exact .inl (by rw [hcall]; exact hlt)
  · exact .inr ⟨by rw [hcall]; exact he, outcome, hpc outcome ho⟩

theorem follows_of_current {x x' : Task V W K} (hcall : x'.call = x.call)
    (hpc : ∀ outcome, x.pc ≠ .returned outcome) (hab : ∀ n, x.aborted n = true → x'.aborted n = true)
    (hst : ∀ n, n ≠ x.call → x'.started n = x.started n)
    (hcb : ∀ n, n ≠ x.call → x'.callback n = x.callback n) : Follows x x' where
  aborted := hab
  past n hn := by
    rcases hn with hlt | ⟨_, outcome, ho⟩
    · exact ⟨.inl (by rw [hcall]; exact hlt), hst n (Nat.ne_of_lt hlt), hcb n (Nat.ne_of_lt hlt)⟩
    · exact absurd ho (hpc outcome)

theorem follows_setTask {x : Task V W K} (h : Follows (s.tasks t) x) (u : T) :
    Follows (s.tasks u) ((s.setTask t x).tasks u) := by
  by_cases hu : u = t
  · subst hu; rw [setTask_self]; exact h
  · rw [show (s.setTask t x).tasks u = s.tasks u from update_of_ne hu _ _]
    exact .refl _

theorem follows_goOn {x : Task V W K} {u : T} (h : x.log = (s.tasks t).log) (hpc : x.pc = (s.tasks t).pc) :
    Follows (s.tasks u) ((s.setTask t x).tasks u) :=
  follows_setTask (follows_of_same h fun _ => hpc.trans) u

theorem releaseStep_follows {phase : Releasing} {next : Option Releasing}
    (hs : releaseStep s j phase = some (s', next)) (u : T) : Follows (s.tasks u) (s'.tasks u) := by
  cases phase with
  | cas =>
    simp only [releaseStep] at hs
    split at hs
    · split at hs
      · cases hs; exact follows_goOn rfl rfl
      · cases hs; exact .refl _
    · cases hs; exact .refl _
  | close =>
    obtain ⟨t, _, ht⟩ := Option.map_eq_some_iff.mp hs
    cases ht
    exact follows_goOn rfl rfl
  | drain =>
    obtain ⟨t, _, ht⟩ := Option.bind_eq_some_iff.mp hs
    split at ht
    · cases ht; exact .refl _
    · cases ht
  | push => cases hs; exact .refl _

theorem wakeStep_follows {phase : Waking} {next : Option Waking} (hs : wakeStep s t phase = some (s', next)) (u : T) :
    Follows (s.tasks u) (s'.tasks u) := by
  cases phase with
  | prepare =>
    simp only [wakeStep] at hs
    repeat' split at hs
    all_goals cases hs
    all_goals exact follows_goOn rfl rfl
  | close => cases hs; exact follows_goOn rfl rfl
  | drain =>
    simp only [wakeStep] at hs
    split at hs
    · cases hs; exact follows_goOn rfl rfl
    · cases hs
  | run =>
    cases hs
    refine follows_setTask ?_ u
    refine follows_of_same rfl fun outcome ho => ?_
    simp only [ho]

theorem start_follows {valid : Bool} (hs : start s t valid = some s') (u : T) : Follows (s.tasks u) (s'.tasks u) := by
  obtain ⟨pc, rfl⟩ : ∃ pc, s' = s.setTask t { s.tasks t with call := (s.tasks t).call + 1, pc := pc } := by
    simp only [start] at hs
    split at hs
    · cases hs; exact ⟨_, rfl⟩
    · cases hs; exact ⟨_, rfl⟩
    · cases hs
  refine follows_setTask ?_ u
  refine ⟨fun _ => id, fun n hn => ⟨.inl ?_, rfl, rfl⟩⟩
  rcases hn with hlt | ⟨rfl, _⟩
  · exact Nat.lt_succ_of_lt hlt
  · exact Nat.lt_succ_self _

theorem taskStep_follows {env : Env V} (hs : taskStep s t env = some s') (u : T) :
    Follows (s.tasks u) (s'.tasks u) := by
  have hset : ∀ (s₁ : State T V W K) (x : Task V W K) (pc : Pc V), s₁.tasks = s.tasks → (s.tasks t).pc = pc →
      (∀ outcome, pc ≠ .returned outcome) → x.log = (s.tasks t).log → Follows (s.tasks u) ((s₁.setTask t x).tasks u) := by
    intro s₁ x pc hsame hp hn hlog
    rw [← hsame] at hp hlog ⊢
    exact follows_setTask (follows_of_same hlog fun outcome ho => absurd (hp.symm.trans ho) (hn outcome)) u
  simp only [taskStep] at hs
  cases hp : (s.tasks t).pc <;> rw [hp] at hs
  case idle | returned | parked => cases hs
  case enter =>
    cases hs
    split <;> exact hset s _ _ rfl hp (by simp) rfl
  case alloc =>
    cases hs
    unfold alloc
    split
    · exact hset _ _ _ rfl hp (by simp) rfl
    split
    · exact hset s _ _ rfl hp (by simp) rfl
    · exact .refl _
  case prepare j =>
    cases hs
    unfold prepare
    split <;> exact hset _ _ _ rfl hp (by simp) rfl
  case close | unregister | finishClose | rollback => cases hs; exact hset s _ _ rfl hp (by simp) rfl
  case publish j =>
    simp only [publish] at hs
    split at hs
    · cases hs
    · split at hs <;> cases hs <;> exact hset s _ _ rfl hp (by simp) rfl
  case submit j =>
    cases hs
    unfold submit
    repeat' split
    all_goals exact hset _ _ _ rfl hp (by simp) rfl
  case shouldPark j =>
    cases hs
    simp only [shouldPark]
    split <;> exact hset s _ _ rfl hp (by simp) rfl
  case finishDrain =>
    simp only [finishDrain] at hs
    split at hs
    · cases hs
    · cases hs; exact hset s _ _ rfl hp (by simp) rfl
  case rollbackDrain =>
    simp only [rollbackDrain] at hs
    split at hs
    · cases hs
    · cases hs; exact hset s _ _ rfl hp (by simp) rfl
  case release j error phase =>
    obtain ⟨⟨s₁, next⟩, hr, heq⟩ := Option.map_eq_some_iff.mp hs
    have hpc : (s₁.tasks t).pc = .release j error phase := by
      by_cases hpush : phase = .push
      · subst hpush; cases hr; exact hp
      · rw [(releaseStep_same hpush hr).2.2.1 t]; exact hp
    have hgo : ∀ pc : Pc V, Follows (s₁.tasks u) ((s₁.goto t pc).tasks u) := fun pc => by
      refine follows_setTask ?_ u
      refine follows_of_same rfl fun outcome ho => ?_
      cases hpc.symm.trans ho
    cases next with
    | none | some phase' => subst heq; exact (releaseStep_follows hr u).trans (hgo _)

theorem Task.Unresolved.not_returned {x : Task V W K} (h : x.Unresolved j) (outcome : Outcome V) :
    x.pc ≠ .returned outcome := by
  rcases h.2 with ⟨hp, _⟩ | ⟨hp, _⟩ <;> rw [hp] <;> exact nofun

theorem workerStep_follows {w : W} {env : Env V} (h : Inv s) (hs : workerStep s w env = some s') (u : T) :
    Follows (s.tasks u) (s'.tasks u) := by
  simp only [workerStep] at hs
  cases hp : s.workers w <;> rw [hp] at hs
  case idle =>
    simp only at hs
    split at hs
    · cases hs
    · cases hs; exact .refl _
  case claim j =>
    obtain ⟨t, _, rfl⟩ := Option.map_eq_some_iff.mp hs
    unfold claim
    split
    · exact follows_goOn rfl rfl
    · exact .refl _
  case discard | complete => cases hs; exact .refl _
  case noteActive j =>
    obtain ⟨t, ht, rfl⟩ := Option.map_eq_some_iff.mp hs
    obtain ⟨-, hok⟩ := h.worker_of hp rfl ht
    simp only [noteActive]
    split
    · exact follows_goOn rfl rfl
    refine follows_setTask ?_ u
    exact follows_of_current rfl hok.1.unresolved.not_returned (fun _ => id)
      (fun n hn => update_of_ne hn _ _) (fun _ _ => rfl)
  case calling j =>
    obtain ⟨t, ht, rfl⟩ := Option.map_eq_some_iff.mp hs
    obtain ⟨-, hok⟩ := h.worker_of hp rfl ht
    refine follows_setTask ?_ u
    exact follows_of_current rfl hok.1.unresolved.not_returned (fun _ => id) (fun _ _ => rfl)
      (fun n hn => update_of_ne hn _ _)
  case finish j =>
    cases hs
    unfold finishJob
    split <;> exact .refl _
  case storeResult j | storeCancelled j =>
    obtain ⟨t, _, rfl⟩ := Option.map_eq_some_iff.mp hs
    exact follows_goOn rfl rfl
  case wake j phase =>
    obtain ⟨t, _, hs⟩ := Option.bind_eq_some_iff.mp hs
    obtain ⟨⟨s₁, next⟩, hr, heq⟩ := Option.map_eq_some_iff.mp hs
    cases next <;> (subst heq; exact wakeStep_follows hr u)
  case release j phase =>
    obtain ⟨⟨s₁, next⟩, hr, heq⟩ := Option.map_eq_some_iff.mp hs
    cases next <;> (subst heq; exact releaseStep_follows hr u)

theorem cancelStep_follows {k : K} (hs : cancelStep s k = some s') (u : T) : Follows (s.tasks u) (s'.tasks u) := by
  simp only [cancelStep] at hs
  cases hp : s.cancellers k <;> rw [hp] at hs
  case idle => cases hs
  case enter t expected =>
    cases hs
    split
    · exact follows_goOn rfl rfl
    · exact .refl _
  case check t expected =>
    cases hs
    simp only [cancelCheck]
    repeat' split
    all_goals exact .refl _
  case abortQueued t j generation =>
    cases hs
    simp only [abortQueued]
    split
    · refine follows_setTask ?_ u
      refine ⟨fun n hn => ?_, fun n hn => ⟨hn, rfl, rfl⟩⟩
      by_cases he : n = (s.tasks t).call
      · subst he; exact update_self ..
      · exact (update_of_ne he _ _).trans hn
    · exact .refl _
  case recheck t j generation =>
    cases hs
    simp only [recheck]
    split <;> exact .refl _
  case abortRunning t j generation =>
    cases hs
    unfold abortRunning
    split <;> exact .refl _
  case store t | finish t | done t =>
    cases hs
    exact follows_goOn rfl rfl
  case wake t phase =>
    obtain ⟨⟨s₁, next⟩, hr, heq⟩ := Option.map_eq_some_iff.mp hs
    cases next <;> (subst heq; exact wakeStep_follows hr u)

theorem step_follows {a : Action T V W K} (h : Inv s) (hs : step s a = some s') (t : T) :
    Follows (s.tasks t) (s'.tasks t) := by
  cases a with
  | call u valid => exact start_follows hs t
  | task u env => exact taskStep_follows hs t
  | worker w env => exact workerStep_follows h hs t
  | requestStop => cases hs; exact .refl _
  | cancelToken k u | cancelStop k u =>
    simp only [step] at hs
    split at hs
    · cases hs; exact .refl _
    · cases hs
  | canceller k => exact cancelStep_follows hs t

theorem run_follows {acts : List (Action T V W K)} (h : Inv s) (hr : run step s acts = some s') (t : T) :
    Follows (s.tasks t) (s'.tasks t) := by
  refine run_trans (I := Inv) (R := fun s s' : State T V W K => ∀ t, Follows (s.tasks t) (s'.tasks t)) ?_ ?_ ?_ ?_ h hr t
  · exact fun s t => .refl _
  · exact fun s₁ s₂ s₃ h h' t => (h t).trans (h' t)
  · exact fun _ _ _ => step_inv
  · exact fun _ _ _ => step_follows

/-! ## The contract -/

theorem Inv.unresolved_of_calling (h : Inv s) {n : Nat} (h1 : (s.tasks t).started n = 1)
    (h2 : (s.tasks t).callback n = none) : n = (s.tasks t).call ∧ ∃ j, (s.tasks t).Unresolved j := by
  have hp := h.part t
  have hn : n = (s.tasks t).call := by
    rcases Nat.lt_trichotomy n (s.tasks t).call with hlt | heq | hgt
    · have := (hp.history.past n hlt).1 h1
      rw [h2] at this
      cases this
    · exact heq
    · exact absurd ((hp.history.future n hgt).1.symm.trans h1) (by decide)
  subst hn
  refine ⟨rfl, ?_⟩
  have hun : ¬ (s.tasks t).Unstarted := fun hu => absurd (hu.1.symm.trans h1) (by decide)
  have hnr : ∀ v e, ¬ (s.tasks t).Ran v e := fun v e hr => nomatch h2.symm.trans hr.2
  have hnd : ¬ (s.tasks t).Done := by
    rintro (hu | ⟨v, e, hr⟩)
    · exact hun hu
    · exact hnr v e hr
  have hns : ¬ (s.tasks t).Settled := by
    intro hs
    simp only [Task.Settled] at hs
    split at hs
    · exact hnr _ _ hs
    · exact hnd hs
  have hk := hp.task
  cases hpc : (s.tasks t).pc <;> rw [hpc] at hk
  case idle => exact absurd hk.2 hnd
  case returned => exact absurd hk.2.1 hnd
  case enter | release => exact absurd hk.2.1 hun
  case alloc => exact absurd hk.blank.1 hun
  case prepare | close | publish => exact absurd hk.1.blank.1 hun
  case submit | rollback | rollbackDrain => exact absurd hk.2.unstarted hun
  case shouldPark j =>
    rcases hk with ⟨hu, _⟩ | ⟨_, _, _, hs⟩
    · exact ⟨j, hu⟩
    · exact absurd hs hns
  case parked j =>
    rcases hk with ⟨hu, _⟩ | ⟨hv, hr⟩
    · exact ⟨j, hu⟩
    refine absurd ?_ hns
    -- Whoever has completed the node has settled the call before.
    simp only [Reinjecting] at hr
    cases hd : (s.tasks t).duty <;> rw [hd] at hr
    case nobody | offered => exact hr.elim
    case worker w =>
      obtain ⟨ht, phase, hw, hphase⟩ := hr
      obtain ⟨-, hok⟩ := h.worker_of hw rfl ht
      cases phase with
      | prepare => exact absurd rfl hphase
      | close | drain | run => exact hok.2.2.2
    case canceller k =>
      obtain ⟨phase, hk, hphase⟩ := hr
      have hok := hp.cancel k (by rw [hk]; rfl)
      rw [hk] at hok
      cases phase with
      | prepare => exact absurd rfl hphase
      | close | drain | run => exact hok.2.2
  case unregister => exact absurd hk.2.2 hns
  case finishClose | finishDrain => exact absurd hk.2.2.2 hns

theorem Task.History.wakes (h : (s.tasks t).History) (n : Nat) :
    (s.tasks t).wakes n ≤ (s.tasks t).parks n ∧ ((∀ j, (s.tasks t).pc ≠ .parked j) ∨ n ≠ (s.tasks t).call →
      (s.tasks t).wakes n = (s.tasks t).parks n) := by
  have hother : n ≠ (s.tasks t).call → (s.tasks t).wakes n = (s.tasks t).parks n := by
    intro hn
    rcases Nat.lt_or_gt_of_ne hn with hlt | hgt
    · exact (h.past n hlt).2
    · obtain ⟨_, _, _, hpk, hwk⟩ := h.future n hgt
      rw [hpk, hwk]
  by_cases hn : n = (s.tasks t).call
  · subst hn
    have hc := h.current
    cases hpc : (s.tasks t).pc <;> rw [hpc] at hc
    case parked j =>
      refine ⟨by rw [hc.2]; exact Nat.zero_le _, ?_⟩
      rintro (hp | hp)
      · exact absurd rfl (hp j)
      · exact absurd rfl hp
    case idle | returned | unregister | finishClose | finishDrain => exact ⟨Nat.le_of_eq hc, fun _ => hc⟩
    all_goals exact ⟨by rw [hc.1, hc.2], fun _ => by rw [hc.1, hc.2]⟩
  · exact ⟨Nat.le_of_eq (hother hn), fun _ => hother hn⟩

theorem Inv.loaded (h : Inv s) {k : K} (hk : (s.cancellers k).loaded = some (t, j)) :
    ∃ generation, Loaded s t j generation := by
  have hok : ∀ u, (s.cancellers k).target = some u → CancelOk s k (s.cancellers k) := fun u => (h.part u).cancel k
  cases hp : s.cancellers k <;> rw [hp] at hk hok <;> cases hk
  case abortQueued generation | recheck generation | abortRunning generation => exact ⟨generation, hok t rfl⟩

/-- What callers, workers and resolvers may rely on in a state. -/
structure Contract (s : State T V W K) : Prop where
  /-- No callback runs twice. -/
  once : ∀ t n, (s.tasks t).started n ≤ 1
  /-- A call that returns 0 returns the result and the `errno` of its callback. -/
  result : ∀ t result errno, (s.tasks t).pc = .returned (.ok result errno) → (s.tasks t).Ran result errno
  /-- A job that was aborted in the queue is never run, and no callback of a call that is over is. -/
  later : ∀ acts s', run step s acts = some s' → ∀ t n,
    ((s.tasks t).aborted n = true → (s'.tasks t).started n = 0) ∧
      ((s.tasks t).Over n → (s'.tasks t).started n = (s.tasks t).started n ∧
        (s'.tasks t).callback n = (s.tasks t).callback n)
  /-- While its callback runs, the caller waits and has not been woken. -/
  calling : ∀ t n, (s.tasks t).started n = 1 → (s.tasks t).callback n = none →
    n = (s.tasks t).call ∧ (∃ j, (s.tasks t).Unresolved j) ∧ (s.tasks t).wakes n = 0
  /-- A caller parks at most once in a call, and is woken once for it. -/
  wakes : ∀ t n, (s.tasks t).parks n ≤ 1 ∧ (s.tasks t).wakes n ≤ (s.tasks t).parks n ∧
    ((∀ j, (s.tasks t).pc ≠ .parked j) ∨ n ≠ (s.tasks t).call → (s.tasks t).wakes n = (s.tasks t).parks n)
  /-- A parked caller has somebody who is going to wake it. -/
  owed : ∀ t j, (s.tasks t).pc = .parked j → Responsible s t j ∨ Reinjecting s t j
  /-- The counter of pending jobs. -/
  pending : s.pending = s.outstanding.card ∧
    ∀ j, j ∈ s.outstanding ↔ j ∈ s.queue ∨ ∃ w, (s.workers w).owes = some j
  bounded : s.maxBlockingJobs ≠ 0 → s.pending ≤ s.maxBlockingJobs
  /-- An object is given back once for each time it was taken. -/
  recycled : ∀ j, s.allocs j = s.frees j + if j ∈ s.pool ∨ s.fresh ≤ j then 0 else 1
  poolNodup : s.pool.Nodup
  /-- Nobody refers to an object in the pool. -/
  pooled : ∀ j, j ∈ s.pool → j ∉ s.queue ∧ (∀ w, (s.workers w).holds ≠ some j) ∧
    (∀ t, (s.tasks t).pc.holds ≠ some j) ∧ ∀ k t, (s.cancellers k).loaded ≠ some (t, j)
  /-- A resolver only aborts jobs of the task it was sent for. -/
  cancels : ∀ k t j, (s.cancellers k).loaded = some (t, j) → (s.jobs j).task = some t
  /-- The call that a callback is run for, or a queued job aborted for, is the one that submitted the job. -/
  charged : (∀ w j t, s.workers w = .noteActive j ∨ s.workers w = .calling j → (s.jobs j).task = some t →
      (s.jobs j).call = (s.tasks t).call) ∧
    ∀ k t j generation, s.cancellers k = .abortQueued t j generation → (s.jobs j).state = .queued →
      (s.jobs j).call = (s.tasks t).call

theorem Inv.charged_worker (h : Inv s) {w : W} (hw : s.workers w = .noteActive j ∨ s.workers w = .calling j)
    (ht : (s.jobs j).task = some t) : (s.jobs j).call = (s.tasks t).call := by
  rcases hw with hw | hw
  · exact (h.worker_of hw rfl ht).2.1.call
  · exact (h.worker_of hw rfl ht).2.1.call

theorem Inv.charged_resolver (h : Inv s) {k : K} {generation : Nat} (hk : s.cancellers k = .abortQueued t j generation)
    (hq : (s.jobs j).state = .queued) : (s.jobs j).call = (s.tasks t).call := by
  have hl : Loaded s t j generation := h.resolver hk rfl
  by_cases hheld : ∃ u, s.place j = .task u
  · obtain ⟨u, hu⟩ := hheld
    obtain ⟨rfl, -, hcarries, -⟩ := h.withdrawable_of_loaded hl hu
    exact hcarries.call
  · exact (h.offered_of_queued hl.task hq fun u hu => hheld ⟨u, hu⟩).1.call

theorem Inv.calling (h : Inv s) {n : Nat} (h1 : (s.tasks t).started n = 1) (h2 : (s.tasks t).callback n = none) :
    n = (s.tasks t).call ∧ (∃ j, (s.tasks t).Unresolved j) ∧ (s.tasks t).wakes n = 0 := by
  obtain ⟨rfl, j, hu⟩ := h.unresolved_of_calling h1 h2
  refine ⟨rfl, ⟨j, hu⟩, ?_⟩
  have hc := (h.part t).history.current
  rcases hu.2 with ⟨hp, _⟩ | ⟨hp, _⟩ <;> rw [hp] at hc
  · exact hc.2
  · exact hc.2

theorem Inv.later {acts : List (Action T V W K)} (h : Inv s) (hr : run step s acts = some s') (n : Nat) :
    ((s.tasks t).aborted n = true → (s'.tasks t).started n = 0) ∧
      ((s.tasks t).Over n → (s'.tasks t).started n = (s.tasks t).started n ∧
        (s'.tasks t).callback n = (s.tasks t).callback n) := by
  have hf := run_follows h hr t
  have h' : Inv s' := run_induction (fun _ _ _ => step_inv) h hr
  refine ⟨fun ha => (h'.part t).history.aborted n (hf.aborted n ha), fun ho => ?_⟩
  obtain ⟨_, hs, hc⟩ := hf.past n ho
  exact ⟨hs, hc⟩

theorem Places.recycled (h : Places s) (j : Nat) :
    s.allocs j = s.frees j + if j ∈ s.pool ∨ s.fresh ≤ j then 0 else 1 := by
  rw [h.balance j]
  simp only [h.pool j, h.fresh j]
  cases s.place j <;> simp [Place.out]

theorem Inv.pooled (h : Inv s) (hj : j ∈ s.pool) : j ∉ s.queue ∧ (∀ w, (s.workers w).holds ≠ some j) ∧
    (∀ t, (s.tasks t).pc.holds ≠ some j) ∧ ∀ k t, (s.cancellers k).loaded ≠ some (t, j) := by
  have hp := (h.places.pool j).mp hj
  refine ⟨fun hq => ?_, fun w hw => ?_, fun t ht => ?_, fun k t hk => ?_⟩
  · exact nomatch hp.symm.trans ((h.places.queue j).mp hq)
  · exact nomatch hp.symm.trans ((h.places.worker w j).mp hw)
  · exact nomatch hp.symm.trans ((h.places.task t j).mp ht)
  · obtain ⟨generation, hl⟩ := h.loaded hk
    exact nomatch (h.task_of_pool hp).symm.trans hl.task

theorem blocking_calls_run_at_most_once {maxBlockingJobs : Nat}
    (h : Reachable step (State.init maxBlockingJobs) s) : Contract s := by
  have hi := reachable_inv h
  refine {
    once := fun t n => (hi.part t).history.started n
    result := ?_
    later := fun acts s' hr t n => hi.later hr n
    calling := fun t n h1 h2 => hi.calling h1 h2
    wakes := fun t n => ⟨(hi.part t).history.parks n, (hi.part t).history.wakes n⟩
    owed := ?_
    pending := ⟨hi.places.pending, hi.places.outstanding⟩
    bounded := hi.places.bounded
    recycled := hi.places.recycled
    poolNodup := hi.places.poolNodup
    pooled := fun j hj => hi.pooled hj
    cancels := ?_
    charged := ⟨fun w j t => hi.charged_worker, fun k t j generation => hi.charged_resolver⟩ }
  · intro t result errno hpc
    have hk := (hi.part t).task
    rw [hpc] at hk
    exact hk.2.2 result errno rfl
  · intro t j hpc
    have hk := (hi.part t).task
    rw [hpc] at hk
    exact hk.imp And.right And.right
  · intro k t j hk
    obtain ⟨generation, hl⟩ := hi.loaded hk
    exact hl.task

theorem parked_call_returns_callback_result : ∃ s : State Unit Nat Unit Unit, Reachable step (State.init 1) s ∧
    ((s.tasks ()).pc = .returned (.ok 7 (some .EAGAIN)) ∧ (s.tasks ()).parks 1 = 1) ∧ Contract s := by
  let env : Env Nat := ⟨false, none, none, none, 7, some .EAGAIN⟩
  obtain ⟨s, hr, hs⟩ := exists_reachable step (State.init 1 : State Unit Nat Unit Unit)
    (fun s => ((s.tasks ()).pc, (s.tasks ()).parks 1)) (b := (.returned (.ok 7 (some .EAGAIN)), 1))
    (.call () true :: (List.replicate 8 (.task () env) ++ List.replicate 13 (.worker () env) ++
      List.replicate 3 (.task () env))) (by decide)
  exact ⟨s, hr, Prod.ext_iff.mp hs, blocking_calls_run_at_most_once hr⟩

end Llam.Blocking
