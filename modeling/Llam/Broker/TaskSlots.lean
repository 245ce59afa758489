import Llam.Broker.Revocation

/-!
# Task slots

What a step does to the task table, to the spawns and to the trampolines (`Moves`, `exec_moves`), and what follows for whole
runs (`broker_task_slots`): the result of a task is returned once, the quotas hold, a slot is not reset or used again while
its trampoline runs, and the slot of a detached task is free when its trampoline ends.
-/

namespace Llam.Broker

open Llam.Lib Function Control Slot

variable {n : Nat} {b : Control} {env : Env}

/-! ## Steps of the task table -/

/-- **What a step does** to the tasks, the spawns and the trampolines. -/
inductive Moves (s s' : State n) : Prop
  /-- Slots are left alone or taken from their owners. -/
  | taken (htasks : Taken s s'.control.tasks) (hcalls : s'.calls = s.calls) (hfibers : s'.fibers = s.fibers)
  /-- A free slot is reserved, within the quotas. -/
  | reserved (k : Fin n) (c : Call) (x : Slot Task) (hnone : s.calls k = none)
      (hfree : (s.control.tasks c.index).active = false) (hsubject : x.subjectId = c.subject)
      (hkind : x.body.kind = some c.kind) (hstate : x.body.state = .SPAWNED) (htask : c.task = none)
      (hsleeps : c.kind = .SLEEP_NS_RETURN_U64 → s.control.longSleepTaskCount < longSleepTasksMax)
      (hquota : c.subject ≠ 0 → s.control.subjectTaskCount c.subject < tasksPerSubject)
      (htasks : s'.control.tasks = update s.control.tasks c.index x)
      (hcalls : s'.calls = update s.calls k (some c)) (hfibers : s'.fibers = s.fibers)
  /-- A spawn goes on, and perhaps starts its task. -/
  | goesOn (k : Fin n) (c c' : Call) (hc : s.calls k = some c) (hindex : c'.index = c.index)
      (htasks : s'.control.tasks = s.control.tasks) (hcalls : s'.calls = update s.calls k (some c'))
      (hfibers : (c.task = none → c'.task = none) ∧ s'.fibers = s.fibers ∨
        s'.fibers = s.fibers ++ [⟨c.index, c.subject, .entered⟩])
  /-- A spawn returns and leaves its slot with new contents, or free. -/
  | returns (k : Fin n) (c : Call) (x : Slot Task) (hc : s.calls k = some c)
      (hx : x = .cleared .TASK ∧ c.task = none ∨ ∃ y : Task, x = { s.control.tasks c.index with body := y } ∧
        y.kind = (s.control.tasks c.index).body.kind ∧
        (y.state = .COMPLETED ∧ c.task = none ∨ c.task ≠ none ∧ y.state = (s.control.tasks c.index).body.state))
      (htasks : s'.control.tasks = update s.control.tasks c.index x)
      (hcalls : s'.calls = update s.calls k none) (hfibers : s'.fibers = s.fibers)
  /-- A trampoline goes on. -/
  | advances (p : Nat) (y y' : Fiber) (x : Task) (hy : s.fibers[p]? = some y) (hindex : y'.index = y.index)
      (hkind : x.kind = (s.control.tasks y.index).body.kind) (hstate : x.state = (s.control.tasks y.index).body.state)
      (htasks : s'.control.tasks =
        update s.control.tasks y.index { s.control.tasks y.index with body := x })
      (hcalls : s'.calls = s.calls) (hfibers : s'.fibers = s.fibers.set p y')
  /-- A trampoline ends. -/
  | ends (p : Nat) (y : Fiber) (x : Slot Task) (hy : s.fibers[p]? = some y)
      (hx : (s.control.tasks y.index).body.state = .DETACHED ∧ x = .cleared .TASK ∨
        (s.control.tasks y.index).body.state = .SPAWNED ∧
          x = { s.control.tasks y.index with body := { (s.control.tasks y.index).body with state := .COMPLETED } })
      (htasks : s'.control.tasks = update s.control.tasks y.index x) (hcalls : s'.calls = s.calls)
      (hfibers : s'.fibers = s.fibers.eraseIdx p)

theorem spawnReserve_quota {subject arg0 : UInt64} {code : UInt32} {rights : Rights}
    {kind : TaskKind} {i : Fin slotCount} (h : b.spawnReserve subject code arg0 rights env = .ok (kind, i)) :
    (kind = .SLEEP_NS_RETURN_U64 → b.longSleepTaskCount < longSleepTasksMax) ∧
      (subject ≠ 0 → b.subjectTaskCount subject < tasksPerSubject) := by
  unfold Control.spawnReserve at h
  split at h
  · cases h
  split at h
  · cases h
  · cases h
  split at h
  · cases h
  split at h
  · cases h
  split at h
  · cases h
  rename_i hsleeps
  split at h
  · cases h
  rename_i hquota
  split at h
  · cases h
  split at h
  · cases h
  cases h
  rw [not_and, Nat.not_le] at hsleeps hquota
  exact ⟨hsleeps, hquota⟩

section Moves

variable {s : State n} {k : Fin n} {c : Call}

theorem fiberStep_moves (hinv : Inv s) {p : Nat} {y : Fiber} (hy : s.fibers[p]? = some y) (slept : Option Errno) :
    Moves s (s.fiberStep p y slept) := by
  have hfiber := hinv.tasks.fiber y (List.mem_of_getElem? hy)
  unfold State.fiberStep
  split
  · have hresult : ∀ r : UInt64 × Option Errno, Moves s
        { s with control := s.control.setResult y.index r, fibers := s.fibers.set p { y with phase := .computed } } :=
      fun r => .advances p y { y with phase := .computed }
        { (s.control.tasks y.index).body with result0 := r.1, errorCode := r.2 } hy rfl rfl rfl
        (tasks_setSlot s.control y.index _) rfl rfl
    exact hresult _
  · dsimp only
    split
    · rename_i hspawned
      exact .ends p y _ hy (.inr ⟨hspawned, rfl⟩) (tasks_setSlot s.control y.index _) rfl rfl
    · exact .advances p y { y with phase := .detached } (s.control.tasks y.index).body hy rfl rfl rfl
        (update_eq_self ..).symm rfl rfl
    · rename_i hspawned hdetached
      exact absurd hfiber.live (not_or.mpr ⟨hdetached, fun h => hspawned h.1⟩)
  · rename_i hphase
    have hdetached : (s.control.tasks y.index).body.state = .DETACHED := hfiber.live.resolve_right fun h => h.2 hphase
    exact .ends p y _ hy (.inl ⟨hdetached, rfl⟩) (tasks_setSlot s.control y.index _) rfl rfl

theorem exec_moves (hinv : Inv s) {a : Action n} {r : State n × Option Outcome} (h : s.exec a = some r) : Moves s r.1 := by
  obtain ⟨s', out⟩ := r
  cases State.exec_executes h with
  | @op subject o overtakes env hunforged =>
    have heffect : s.control.Effect subject (s.load overtakes) o _
        (s.control.perform subject (s.load overtakes) o env).2.token := perform_effect o
    have htaken := effect_taken heffect hinv hunforged
    exact .taken htaken rfl rfl
  | reserved hk hreserve =>
    obtain ⟨hfree, -⟩ := spawnReserve_ok hreserve
    obtain ⟨hsleeps, hquota⟩ := spawnReserve_quota hreserve
    exact .reserved _ ⟨_, _, _, _, _, none, none⟩ _ hk hfree (by rfl) (by rfl) (by rfl) rfl hsleeps hquota
      (tasks_setSlot s.control _ _) rfl rfl
  | unissued hc hnone =>
    have htask := (hinv.tasks.call _ _ hc).unstarted hnone
    exact .returns _ _ _ hc (.inl ⟨rfl, htask⟩) (tasks_setSlot s.control _ _) rfl rfl
  | @issued k c _ _ t hc => exact .goesOn k c { c with token := some t } hc rfl rfl rfl (.inl ⟨id, rfl⟩)
  | unstarted hc _ htask => exact .returns _ _ _ hc (.inl ⟨rfl, htask⟩) (tasks_setSlot s.control _ _) rfl rfl
  | @started k c _ task hc => exact .goesOn k c { c with task := some task } hc rfl rfl rfl (.inr rfl)
  | @computed k c _ _ hc _ htask =>
    generalize taskCompute c.kind c.arg0 none = r
    have htasks := (congrArg Control.tasks (setTaskState_setResult s.control c.index r .COMPLETED)).trans
      (tasks_setSlot s.control c.index _)
    exact .returns k c _ hc (.inr ⟨{ (s.control.tasks c.index).body with result0 := r.1, errorCode := r.2, state := .COMPLETED },
      rfl, rfl, .inl ⟨rfl, htask⟩⟩) htasks rfl rfl
  | @stored k c _ task hc _ htask =>
    exact .returns k c _ hc (.inr ⟨{ (s.control.tasks c.index).body with task := some task }, rfl, rfl,
      .inr ⟨htask ▸ (by simp), rfl⟩⟩) (tasks_setSlot s.control c.index _) rfl rfl
  | fiber hx => exact fiberStep_moves hinv hx _
  | reclaimed hidle => exact .taken (reclaim_taken hinv hidle) rfl rfl
  | rolledBack hknown => exact .taken (rollback_taken hinv hknown) rfl rfl
  | refused | revokedAll => exact .taken .same rfl rfl

end Moves

/-! ## Slots that go on -/

/-- The slot holds the command that it held before; a sleep that has ended does not begin again. -/
structure Slot.Continues (x x' : Slot Task) : Prop where
  active : x.active = true
  id : x'.id = x.id
  generation : x'.generation = x.generation
  subject : x'.subjectId = x.subjectId
  kind : x'.body.kind = x.body.kind
  pending : x'.body.state = .SPAWNED ∨ x'.body.state = .DETACHED → x.body.state = .SPAWNED ∨ x.body.state = .DETACHED
  detached : x.body.state = .DETACHED → x'.body.state = .DETACHED

/-- A slot that was free is set up, within the quotas. -/
structure Fresh (b : Control) (i : Fin slotCount) (x : Slot Task) : Prop where
  free : (b.tasks i).active = false
  sleeps : x.body.kind = some .SLEEP_NS_RETURN_U64 → b.longSleepTaskCount < longSleepTasksMax
  quota : x.subjectId ≠ 0 → b.subjectTaskCount x.subjectId < tasksPerSubject

theorem Slot.Continues.refl {x : Slot Task} (h : x.active = true) : x.Continues x :=
  ⟨h, rfl, rfl, rfl, rfl, fun hstate => hstate, fun hstate => hstate⟩

theorem Slot.continues_abandoned {x : Slot Task} (h : (Slot.abandoned x).active = true) : x.Continues (Slot.abandoned x) := by
  rcases abandoned_cases x with ⟨hstate, heq⟩ | ⟨-, heq⟩ <;> rw [heq] at h ⊢
  · exact ⟨h, rfl, rfl, rfl, rfl, fun _ => hstate, fun _ => rfl⟩
  · cases h

section Continues

variable {s s' : State n}

theorem Moves.slots (h : Moves s s') (hinv : Inv s) :
    (∀ i, (s'.control.tasks i).active = true → (s.control.tasks i).Continues (s'.control.tasks i)) ∨
      ∃ i, Fresh s.control i (s'.control.tasks i) ∧ ∀ j, j ≠ i → s'.control.tasks j = s.control.tasks j := by
  -- a step that writes one slot leaves the others alone
  have hone : ∀ {j : Fin slotCount} {x : Slot Task}, s'.control.tasks = update s.control.tasks j x →
      (x.active = true → (s.control.tasks j).Continues x) →
      ∀ i, (s'.control.tasks i).active = true → (s.control.tasks i).Continues (s'.control.tasks i) := by
    intro j x htasks hx i hactive
    rcases eq_or_ne i j with rfl | hne
    · rw [htasks, update_self] at hactive ⊢
      exact hx hactive
    · rw [htasks, update_of_ne hne] at hactive ⊢
      exact .refl hactive
  cases h with
  | taken htasks hcalls hfibers =>
    refine .inl fun i hactive => ?_
    rcases htasks i with heq | ⟨heq, -⟩ <;> rw [heq] at hactive ⊢
    · exact .refl hactive
    · exact continues_abandoned hactive
  | reserved k c x hnone hfree hsubject hkind hstate htask hsleeps hquota htasks hcalls hfibers =>
    refine .inr ⟨c.index, ?_, fun j hj => ?_⟩
    · rw [htasks, update_self]
      refine ⟨hfree, fun h => hsleeps (Option.some.inj (hkind.symm.trans h)), fun h => ?_⟩
      rw [hsubject] at h ⊢
      exact hquota h
    · rw [htasks, update_of_ne hj]
  | goesOn k c c' hc hindex htasks hcalls hfibers =>
    refine .inl fun i hactive => ?_
    rw [htasks] at hactive ⊢
    exact .refl hactive
  | returns k c x hc hx htasks hcalls hfibers =>
    refine .inl (hone htasks fun hactive => ?_)
    rcases hx with ⟨rfl, -⟩ | ⟨y, rfl, hkind, ⟨hcompleted, htask⟩ | ⟨-, hstate⟩⟩
    · cases hactive
    · have hspawned := (hinv.tasks.call k c hc).live.resolve_right fun hlive => hlive.2 htask
      refine ⟨hactive, rfl, rfl, rfl, hkind, fun _ => .inl hspawned, fun hdetached => ?_⟩
      cases hspawned.symm.trans hdetached
    · exact ⟨hactive, rfl, rfl, rfl, hkind, fun h => hstate ▸ h, fun h => hstate.trans h⟩
  | advances p y y' x hy hindex hkind hstate htasks hcalls hfibers =>
    exact .inl (hone htasks fun hactive =>
      ⟨hactive, rfl, rfl, rfl, hkind, fun h => hstate ▸ h, fun h => hstate.trans h⟩)
  | ends p y x hy hx htasks hcalls hfibers =>
    refine .inl (hone htasks fun hactive => ?_)
    rcases hx with ⟨-, rfl⟩ | ⟨hspawned, rfl⟩
    · cases hactive
    · refine ⟨hactive, rfl, rfl, rfl, rfl, fun _ => .inl hspawned, fun hdetached => ?_⟩
      cases hspawned.symm.trans hdetached

theorem Moves.continues (h : Moves s s') (hinv : Inv s) {i : Fin slotCount} (hactive : (s.control.tasks i).active = true)
    (hactive' : (s'.control.tasks i).active = true) : (s.control.tasks i).Continues (s'.control.tasks i) := by
  rcases h.slots hinv with hall | ⟨j, hfresh, hothers⟩
  · exact hall i hactive'
  rcases eq_or_ne i j with rfl | hne
  · cases hactive.symm.trans hfresh.free
  · rw [hothers i hne]
    exact .refl hactive

end Continues

/-! ## Quotas -/

theorem countP_finRange_le {m : Nat} {p q : Fin m → Bool} (i : Fin m) (h : ∀ j, j ≠ i → q j = true → p j = true) :
    (List.finRange m).countP q ≤ (List.finRange m).countP p + 1 := by
  have hmono : (List.finRange m).countP q ≤ (List.finRange m).countP fun j => p j || j == i := by
    refine List.countP_mono_left fun j _ hj => ?_
    rcases eq_or_ne j i with rfl | hne
    · simp
    · simp [h j hne hj]
  have hsplit : ∀ l : List (Fin m), l.countP (fun j => p j || j == i) ≤ l.countP p + l.countP (· == i) := by
    intro l
    induction l with
    | nil => simp
    | cons j l ih =>
      simp only [List.countP_cons]
      cases p j <;> cases j == i <;> simp <;> omega
  have hone : (List.finRange m).countP (· == i) ≤ 1 := List.nodup_iff_count_le_one.mp (List.nodup_finRange m) i
  have := hsplit (List.finRange m)
  omega

section Quotas

variable {s s' : State n}

theorem Moves.count_le (h : Moves s s') (hinv : Inv s) {p : Slot Task → Bool} {bound : Nat}
    (hactive : ∀ x, p x = true → x.active = true) (hcontinues : ∀ x x', x.Continues x' → p x' = true → p x = true)
    (hfresh : ∀ i x, Fresh s.control i x → p x = true →
      (List.finRange slotCount).countP (fun i => p (s.control.tasks i)) < bound)
    (hle : (List.finRange slotCount).countP (fun i => p (s.control.tasks i)) ≤ bound) :
    (List.finRange slotCount).countP (fun i => p (s'.control.tasks i)) ≤ bound := by
  rcases h.slots hinv with hall | ⟨i, hi, hothers⟩
  · refine Nat.le_trans (List.countP_mono_left fun j _ hj => ?_) hle
    exact hcontinues _ _ (hall j (hactive _ hj)) hj
  by_cases hpi : p (s'.control.tasks i) = true
  · refine Nat.le_trans (countP_finRange_le i fun j hne hj => ?_) (hfresh i _ hi hpi)
    rw [hothers j hne] at hj
    exact hj
  refine Nat.le_trans (List.countP_mono_left fun j _ hj => ?_) hle
  have hne : j ≠ i := by
    rintro rfl
    exact hpi hj
  rw [hothers j hne] at hj
  exact hj

theorem pendingSleep_iff {x : Slot Task} : x.pendingSleep = true ↔
    x.active = true ∧ x.body.kind = some .SLEEP_NS_RETURN_U64 ∧ (x.body.state = .SPAWNED ∨ x.body.state = .DETACHED) := by
  simp [Slot.pendingSleep, and_assoc]

theorem Moves.sleeps_le (h : Moves s s') (hinv : Inv s) (hle : s.control.longSleepTaskCount ≤ longSleepTasksMax) :
    s'.control.longSleepTaskCount ≤ longSleepTasksMax := by
  refine h.count_le hinv (fun x hx => (pendingSleep_iff.mp hx).1) (fun x x' hx hp => ?_) (fun i x hx hp => ?_) hle
  · obtain ⟨-, hkind, hstate⟩ := pendingSleep_iff.mp hp
    exact pendingSleep_iff.mpr ⟨hx.active, hx.kind ▸ hkind, hx.pending hstate⟩
  · exact hx.sleeps (pendingSleep_iff.mp hp).2.1

theorem Moves.subject_le (h : Moves s s') (hinv : Inv s) (subject : UInt64)
    (hle : s.control.subjectTaskCount subject ≤ tasksPerSubject) :
    s'.control.subjectTaskCount subject ≤ tasksPerSubject := by
  by_cases hzero : subject = 0
  · rw [Control.subjectTaskCount, if_pos hzero]
    exact Nat.zero_le _
  have hcount : ∀ b : Control, b.subjectTaskCount subject = _ := fun b => if_neg hzero
  rw [hcount] at hle ⊢
  refine h.count_le (p := fun x => x.active && x.subjectId == subject) hinv (fun x hx => ?_) (fun x x' hx hp => ?_)
    (fun i x hx hp => ?_) hle <;> simp only [Bool.and_eq_true, beq_iff_eq] at *
  · exact hx.1
  · exact ⟨hx.active, hx.subject ▸ hp.2⟩
  · have hlt := hx.quota (hp.2 ▸ hzero)
    rw [hp.2, hcount] at hlt
    exact hlt

end Quotas

/-! ## What drives a command -/

/-- A command that has not ended has its trampoline, or a spawn that has not started it yet. -/
def State.Driven (s : State n) (i : Fin slotCount) : Prop :=
  (∃ y ∈ s.fibers, y.index = i) ∨
    (s.control.tasks i).body.state = .SPAWNED ∧ ∃ k c, s.calls k = some c ∧ c.index = i ∧ c.task = none

def State.AllDriven (s : State n) : Prop :=
  ∀ i, (s.control.tasks i).active = true →
    (s.control.tasks i).body.state = .SPAWNED ∨ (s.control.tasks i).body.state = .DETACHED → s.Driven i

section Driven

variable {s s' : State n}

theorem Moves.driven (h : Moves s s') (hinv : Inv s) (hdriven : s.AllDriven) : s'.AllDriven := by
  intro i hactive hlive
  cases h with
  | taken htasks hcalls hfibers =>
    unfold State.Driven
    rw [hcalls, hfibers]
    rcases htasks i with heq | ⟨heq, hnone⟩
    · rw [heq] at hactive hlive ⊢
      exact hdriven i hactive hlive
    -- no spawn in progress has the slot
    rw [heq] at hactive hlive
    have hcontinues := continues_abandoned hactive
    rcases hdriven i hcontinues.active (hcontinues.pending hlive) with hfiber | ⟨-, k, c, hc, hindex, -⟩
    · exact .inl hfiber
    · exact absurd hindex (hnone k c hc)
  | reserved k c x hnone hfree hsubject hkind hstate htask hsleeps hquota htasks hcalls hfibers =>
    unfold State.Driven
    rw [hcalls, hfibers]
    rcases eq_or_ne i c.index with rfl | hne
    · rw [htasks, update_self]
      exact .inr ⟨hstate, k, c, update_self .., rfl, htask⟩
    rw [htasks, update_of_ne hne] at hactive hlive ⊢
    refine (hdriven i hactive hlive).imp id fun ⟨hspawned, l, d, hd, hrest⟩ => ⟨hspawned, l, d, ?_, hrest⟩
    have hl : l ≠ k := by
      rintro rfl
      cases hnone.symm.trans hd
    rw [update_of_ne hl, hd]
  | goesOn k c c' hc hindex htasks hcalls hfibers =>
    unfold State.Driven
    rw [htasks] at hactive hlive ⊢
    rw [hcalls]
    rcases hdriven i hactive hlive with ⟨y, hy, hyi⟩ | ⟨hspawned, l, d, hd, hdi, hdtask⟩
    · refine .inl ⟨y, ?_, hyi⟩
      rcases hfibers with ⟨-, hfibers⟩ | hfibers <;> rw [hfibers]
      · exact hy
      · exact List.mem_append_left _ hy
    rcases eq_or_ne l k with rfl | hl
    · cases hc.symm.trans hd
      rcases hfibers with ⟨htask, hfibers⟩ | hfibers
      · exact .inr ⟨hspawned, l, c', update_self .., hindex.trans hdi, htask hdtask⟩
      refine .inl ⟨⟨c.index, c.subject, .entered⟩, ?_, hdi⟩
      rw [hfibers]
      exact List.mem_append_right _ (List.mem_singleton_self _)
    · exact .inr ⟨hspawned, l, d, (update_of_ne hl ..).trans hd, hdi, hdtask⟩
  | returns k c x hc hx htasks hcalls hfibers =>
    unfold State.Driven
    rw [hcalls, hfibers]
    rcases eq_or_ne i c.index with rfl | hne
    · rw [htasks, update_self] at hactive hlive
      rcases hx with ⟨rfl, -⟩ | ⟨y, rfl, hkind, ⟨hcompleted, -⟩ | ⟨htask, hstate⟩⟩
      · cases hactive
      · rw [hcompleted] at hlive
        rcases hlive with hlive | hlive <;> cases hlive
      -- the spawn that drove the command has started it
      rw [hstate] at hlive
      rcases hdriven c.index hactive hlive with hfiber | ⟨-, l, d, hd, hdi, hdtask⟩
      · exact .inl hfiber
      cases hinv.tasks.apart l k d c hd hc hdi
      cases hc.symm.trans hd
      exact absurd hdtask htask
    · rw [htasks, update_of_ne hne] at hactive hlive ⊢
      refine (hdriven i hactive hlive).imp id fun ⟨hspawned, l, d, hd, hdi, hdtask⟩ => ⟨hspawned, l, d, ?_, hdi, hdtask⟩
      have hl : l ≠ k := by
        rintro rfl
        cases hc.symm.trans hd
        exact hne hdi.symm
      rw [update_of_ne hl, hd]
  | advances p y y' x hy hindex hkind hstate htasks hcalls hfibers =>
    have hmem : y' ∈ s'.fibers := by
      rw [hfibers]
      exact List.mem_set (List.getElem?_eq_some_iff.mp hy).1 y'
    rcases eq_or_ne i y.index with rfl | hne
    · exact .inl ⟨y', hmem, hindex⟩
    unfold State.Driven
    rw [htasks, update_of_ne hne] at hactive hlive ⊢
    rw [hcalls]
    refine (hdriven i hactive hlive).imp (fun ⟨z, hz, hzi⟩ => ⟨z, ?_, hzi⟩) id
    obtain ⟨q, hq⟩ := List.mem_iff_getElem?.mp hz
    have hqp : p ≠ q := by
      rintro rfl
      cases hy.symm.trans hq
      exact hne hzi.symm
    rw [hfibers]
    exact List.mem_of_getElem? ((List.getElem?_set_ne hqp).trans hq)
  | ends p y x hy hx htasks hcalls hfibers =>
    rcases eq_or_ne i y.index with rfl | hne
    · rw [htasks, update_self] at hactive hlive
      rcases hx with ⟨-, rfl⟩ | ⟨-, rfl⟩
      · cases hactive
      · rcases hlive with hlive | hlive <;> cases hlive
    unfold State.Driven
    rw [htasks, update_of_ne hne] at hactive hlive ⊢
    rw [hcalls]
    refine (hdriven i hactive hlive).imp (fun ⟨z, hz, hzi⟩ => ⟨z, ?_, hzi⟩) id
    obtain ⟨q, hq⟩ := List.mem_iff_getElem?.mp hz
    have hqp : q ≠ p := by
      rintro rfl
      cases hy.symm.trans hq
      exact hne hzi.symm
    rw [hfibers]
    exact List.mem_eraseIdx_iff_getElem?.mpr ⟨q, hqp, hq⟩

end Driven

/-! ## Runs -/

/-- The invariant of the task table. -/
structure SlotsOk (s : State n) : Prop where
  inv : Inv s
  driven : s.AllDriven
  sleeps : s.control.longSleepTaskCount ≤ longSleepTasksMax
  subjects : ∀ subject, s.control.subjectTaskCount subject ≤ tasksPerSubject

theorem step_moves {s s' : State n} {a : Action n} (hinv : Inv s) (h : step s a = some s') : Moves s s' := by
  obtain ⟨r, hr, rfl⟩ := Option.map_eq_some_iff.mp h
  exact exec_moves hinv hr

theorem step_slotsOk (s : State n) (a : Action n) (s' : State n) (hok : SlotsOk s) (h : step s a = some s') :
    SlotsOk s' := by
  have hmoves := step_moves hok.inv h
  exact ⟨step_inv s a s' hok.inv h, hmoves.driven hok.inv hok.driven, hmoves.sleeps_le hok.inv hok.sleeps,
    fun subject => hmoves.subject_le hok.inv subject (hok.subjects subject)⟩

theorem init_slotsOk (runtimeId : UInt64) (key : Key) : SlotsOk (State.init n runtimeId key) := by
  refine ⟨init_inv runtimeId key, nofun, ?_, fun subject => ?_⟩
  · have hnone : (State.init n runtimeId key).control.longSleepTaskCount = 0 := List.countP_eq_zero.mpr fun i _ => nofun
    omega
  · unfold Control.subjectTaskCount
    split
    · exact Nat.zero_le _
    have hnone : (List.finRange slotCount).countP (fun i => ((State.init n runtimeId key).control.tasks i).active &&
        ((State.init n runtimeId key).control.tasks i).subjectId == subject) = 0 :=
      List.countP_eq_zero.mpr fun i _ => nofun
    omega

theorem reachable_slotsOk {runtimeId : UInt64} {key : Key} {s : State n}
    (h : Reachable step (State.init n runtimeId key) s) : SlotsOk s :=
  h.induction (init_slotsOk runtimeId key) step_slotsOk

/-! ## Joins -/

/-- The step is a join that returns the result of the task `id`. -/
def Joins (s : State n) (a : Action n) (id result : UInt64) : Prop :=
  ∃ subject t overtakes env s', a = .op subject (.joinTask t) overtakes env ∧ t.slot = id ∧
    s.exec a = some (s', some (.done result))

theorem Control.joinTask_done {subject : UInt64} {load : Nat → UInt64} {t : Token}
    {result : UInt64} (h : (b.joinTask subject load t env).2 = .done result) :
    ∃ i, b.Found .TASK i subject (load 0) t ∧ (b.tasks i).body.state = .COMPLETED ∧ (b.tasks i).body.result0 = result ∧
      (b.joinTask subject load t env).1 = b.clearSlot .TASK i := by
  have hfail : ∀ e, Outcome.fail e ≠ .done result := fun e => nofun
  unfold Control.joinTask at h ⊢
  split at h
  · exact absurd h (hfail _)
  · exact absurd h (hfail _)
  rename_i i hrefused hfind
  dsimp only at h ⊢
  split at h
  · exact absurd h (hfail _)
  rename_i hspawned
  split at h
  · exact absurd h (hfail _)
  rename_i hcompleted
  rw [not_not] at hcompleted
  refine ⟨i, (findObject_ok hfind).1, hcompleted, ?_, ?_⟩
  · split at h
    · exact absurd h (hfail _)
    · exact absurd h (hfail _)
    · exact congrArg (fun o : Outcome => match o.status with | .ok v => v | .error _ => 0) h
  · rw [if_neg hspawned, if_neg (not_not.mpr hcompleted)]

section Joins

variable {s s' s'' : State n} {a b : Action n} {id result : UInt64}

theorem Joins.slot (h : Joins s a id result) : ∃ i, (s.control.tasks i).active = true ∧ (s.control.tasks i).id = id ∧
    (s.control.tasks i).body.state = .COMPLETED ∧ (s.control.tasks i).body.result0 = result ∧
    ∀ s', step s a = some s' → s'.control.tasks = update s.control.tasks i (.cleared .TASK) := by
  obtain ⟨subject, t, overtakes, env, s₁, rfl, rfl, hexec⟩ := h
  have hstep : step s (.op subject (.joinTask t) overtakes env) = some s₁ := congrArg (Option.map Prod.fst) hexec
  simp only [State.exec] at hexec
  split at hexec
  · obtain ⟨rfl, hout⟩ := Prod.mk.inj (Option.some.inj hexec)
    obtain ⟨i, hfound, hstate, hresult, hcontrol⟩ := joinTask_done (Option.some.inj hout)
    obtain ⟨hactive, hid, -⟩ := named_iff.mp hfound.named
    refine ⟨i, hactive, hid, hstate, hresult, fun s' hs' => ?_⟩
    cases hstep.symm.trans hs'
    have htasks := congrArg Control.tasks hcontrol
    exact htasks
  · cases hexec

theorem Joins.once (h : Joins s a id result) (hinv : Inv s) (hstep : step s a = some s') {as : List (Action n)}
    (hrun : run step s' as = some s'') (result' : UInt64) : ¬ Joins s'' b id result' := by
  intro hagain
  obtain ⟨i, hactive, hid, -, -, htasks⟩ := h.slot
  obtain ⟨j, hactive', hid', -⟩ := hagain.slot
  have hkeeps := step_keeps hinv hstep
  -- the task is in no slot after the join
  have hgone : ∀ j g, s'.registry.slots .TASK j = some g → g.id ≠ id.toNat := by
    intro j g hg heq
    obtain ⟨hj, rfl⟩ := grant_eq_some (x := s'.control.tasks j) hg
    rw [htasks s' hstep] at hj heq
    rcases eq_or_ne j i with rfl | hne
    · rw [update_self] at hj
      cases hj
    · rw [update_of_ne hne] at hj heq
      exact hne (hinv.index_eq hj hactive ((UInt64.toNat_inj.mp heq).trans hid.symm))
  have hnext : id.toNat < s'.registry.next .TASK := by
    have hlt := hinv.registry.slot .TASK i _ (grant_of_active hactive)
    rw [← hid]
    exact Nat.lt_of_lt_of_le hlt (hkeeps.changes.next_le .TASK)
  have hnever := (run_changes (step_inv s a s' hinv hstep) hrun).2.gone hnext hgone
  exact hnever j _ (grant_of_active hactive') (congrArg UInt64.toNat hid')

end Joins

/-! ## Detached tasks -/

section Detached

variable {s s' : State n} {p : Nat} {y : Fiber}

section

variable (hy : s.fibers[p]? = some y)

include hy

theorem step_fiber (slept : Option Errno) : step s (.fiber p slept) = some (s.fiberStep p y slept) := by
  simp only [step, State.exec, hy, Option.map_some]

theorem detached_leaves (hphase : y.phase = .detached) (slept : Option Errno) :
    ∃ s', step s (.fiber p slept) = some s' ∧ (s'.control.tasks y.index).active = false := by
  refine ⟨_, step_fiber hy slept, ?_⟩
  have htasks : (s.control.clearSlot .TASK y.index).tasks = _ := tasks_setSlot s.control y.index _
  unfold State.fiberStep
  rw [hphase]
  rw [htasks, update_self]
  rfl

theorem detached_goesOn (hphase : y.phase ≠ .detached)
    (hdetached : (s.control.tasks y.index).body.state = .DETACHED) (slept : Option Errno) :
    ∃ s' y', step s (.fiber p slept) = some s' ∧ s'.fibers[p]? = some y' ∧ y'.index = y.index ∧
      (s'.control.tasks y.index).body.state = .DETACHED ∧
      (y.phase = .entered ∧ y'.phase = .computed ∨ y.phase = .computed ∧ y'.phase = .detached) := by
  have hlt := (List.getElem?_eq_some_iff.mp hy).1
  cases hentered : y.phase with
  | entered =>
    refine ⟨_, { y with phase := .computed }, step_fiber hy slept, ?_, rfl, ?_, .inl ⟨rfl, rfl⟩⟩ <;>
      unfold State.fiberStep <;> rw [hentered] <;> dsimp only
    · rw [List.getElem?_set_self hlt]
    · rw [Control.setResult, Control.setBody, tasks_setSlot, update_self]
      exact hdetached
  | computed =>
    refine ⟨_, { y with phase := .detached }, step_fiber hy slept, ?_, rfl, ?_, .inr ⟨rfl, rfl⟩⟩ <;>
      unfold State.fiberStep <;> rw [hentered] <;> dsimp only <;> rw [hdetached] <;> dsimp only
    · rw [List.getElem?_set_self hlt]
    · exact hdetached
  | detached => exact absurd hentered hphase

theorem detached_ends (hdetached : (s.control.tasks y.index).body.state = .DETACHED)
    (slept : Option Errno) : ∃ k ≤ 3, ∃ s', run step s (List.replicate k (.fiber p slept)) = some s' ∧
      (s'.control.tasks y.index).active = false := by
  -- a step of the trampoline before steps that free the slot
  have hlast : ∀ {s : State n} {y : Fiber}, s.fibers[p]? = some y → y.phase = .detached →
      ∃ s', run step s (List.replicate 1 (.fiber p slept)) = some s' ∧ (s'.control.tasks y.index).active = false := by
    intro s y hy hphase
    obtain ⟨s', hstep, hfree⟩ := detached_leaves hy hphase slept
    exact ⟨s', run_cons.mpr ⟨s', hstep, rfl⟩, hfree⟩
  have hsecond : ∀ {s : State n} {y : Fiber}, s.fibers[p]? = some y → y.phase = .computed →
      (s.control.tasks y.index).body.state = .DETACHED →
      ∃ s', run step s (List.replicate 2 (.fiber p slept)) = some s' ∧ (s'.control.tasks y.index).active = false := by
    intro s y hy hphase hdetached
    obtain ⟨s₁, y₁, hstep, hy₁, hindex, -, hnext⟩ := detached_goesOn hy (by simp [hphase]) hdetached slept
    have hphase₁ : y₁.phase = .detached := (hnext.resolve_left fun h => by simp [hphase] at h).2
    obtain ⟨s', hrun, hfree⟩ := hlast hy₁ hphase₁
    exact ⟨s', run_cons.mpr ⟨s₁, hstep, hrun⟩, hindex ▸ hfree⟩
  cases hphase : y.phase with
  | detached => exact ⟨1, by decide, hlast hy hphase⟩
  | computed => exact ⟨2, by decide, hsecond hy hphase hdetached⟩
  | entered =>
    obtain ⟨s₁, y₁, hstep, hy₁, hindex, hdetached₁, hnext⟩ := detached_goesOn hy (by simp [hphase]) hdetached slept
    have hphase₁ : y₁.phase = .computed := (hnext.resolve_right fun h => by simp [hphase] at h).2
    obtain ⟨s', hrun, hfree⟩ := hsecond hy₁ hphase₁ (hindex.symm ▸ hdetached₁)
    exact ⟨3, by decide, s', run_cons.mpr ⟨s₁, hstep, hrun⟩, hindex ▸ hfree⟩

end

variable {subject : UInt64} {t : Token}

theorem Control.detachTask_done {load : Nat → UInt64}
    {v : UInt64} (h : (b.detachTask subject load t env).2.status = .ok v) :
    ∃ i x, b.Found .TASK i subject (load 0) t ∧ (x.active = true → x.body.state = .DETACHED) ∧
      (b.detachTask subject load t env).1.tasks = update b.tasks i x := by
  unfold Control.detachTask at h ⊢
  split at h
  · cases h
  · cases h
  rename_i i hrefused hfind
  have hfound := (findObject_ok hfind).1
  dsimp only at h ⊢
  split at h
  · exact ⟨i, .cleared .TASK, hfound, nofun, tasks_setSlot b i _⟩
  · split at h
    · cases h
    rename_i htask
    rw [if_neg htask]
    exact ⟨i, _, hfound, fun _ => rfl, tasks_setSlot b i _⟩
  · cases h

theorem detach_state (hinv : Inv s) {overtakes : Nat → Nat} {out : Outcome}
    {v : UInt64} (h : s.exec (.op subject (.detachTask t) overtakes env) = some (s', some out)) (hout : out.status = .ok v)
    (i : Fin slotCount) (hactive : (s'.control.tasks i).active = true) (hid : (s'.control.tasks i).id = t.slot) :
    (s'.control.tasks i).body.state = .DETACHED := by
  simp only [State.exec] at h
  split at h
  · obtain ⟨rfl, rfl⟩ : _ ∧ _ := by simpa using h
    obtain ⟨j, x, hfound, hx, htasks⟩ := detachTask_done hout
    have htasks' : (s.performOp subject (.detachTask t) overtakes env).1.control.tasks = _ := htasks
    rw [htasks'] at hactive hid ⊢
    obtain ⟨hactive', hid', -⟩ := named_iff.mp hfound.named
    rcases eq_or_ne i j with rfl | hne
    · rw [update_self] at hactive ⊢
      exact hx hactive
    · rw [update_of_ne hne] at hactive hid
      exact absurd (hinv.index_eq hactive hactive' (hid.trans hid'.symm)) hne
  · cases h

theorem Slot.abandoned_state {x : Slot Task} (h : (Slot.abandoned x).active = true) :
    (Slot.abandoned x).body.state = .DETACHED := by
  rcases abandoned_cases x with ⟨-, heq⟩ | ⟨-, heq⟩ <;> rw [heq] at h ⊢
  cases h

theorem reclaim_state (hsubject : subject ≠ 0) (h : step s (.reclaim .TASK subject) = some s')
    (i : Fin slotCount) (hactive : (s'.control.tasks i).active = true)
    (howner : (s'.control.tasks i).subjectId = subject) : (s'.control.tasks i).body.state = .DETACHED := by
  obtain ⟨r, hr, rfl⟩ := Option.map_eq_some_iff.mp h
  simp only [State.exec] at hr
  split at hr
  · cases hr
    have hslot : (s.control.reclaimSubject .TASK subject).tasks i =
        if (s.control.tasks i).active && (s.control.tasks i).subjectId == subject then Slot.abandoned (s.control.tasks i)
        else s.control.tasks i := by
      unfold Control.reclaimSubject
      rw [if_neg hsubject]
      show update s.control.slots .TASK _ .TASK i = _
      rfl
    rw [hslot] at hactive howner ⊢
    split at hactive
    · rename_i hown
      rw [if_pos hown]
      exact abandoned_state hactive
    · rename_i hother
      rw [if_neg hother] at howner
      exact absurd (by simp [hactive, howner]) hother
  · cases hr

theorem refuses_of_subject {epoch : UInt64} (h : t.subjectId ≠ subject) : b.Refuses subject epoch t := by
  intro required hvalid
  obtain ⟨f, i, hfound, -⟩ := validateCap_ok hvalid
  exact h hfound.audience

end Detached

theorem broker_task_slots {runtimeId : UInt64} {key : Key} {s : State n}
    (hs : Reachable step (State.init n runtimeId key) s) :
    (∀ a id result s', Joins s a id result → step s a = some s' → ∀ as s'' b result', run step s' as = some s'' →
      ¬ Joins s'' b id result') ∧
    (∀ subject, s.control.subjectTaskCount subject ≤ tasksPerSubject) ∧
    s.control.longSleepTaskCount ≤ longSleepTasksMax ∧
    (s.fibers.map Fiber.index).Nodup ∧
    (∀ y ∈ s.fibers, (s.control.tasks y.index).active = true ∧ ∀ a s', step s a = some s' →
      (∃ z ∈ s'.fibers, z.index = y.index) →
        (s'.control.tasks y.index).active = true ∧ (s.control.tasks y.index).Continues (s'.control.tasks y.index)) ∧
    (∀ i, (s.control.tasks i).active = true → (s.control.tasks i).body.state = .DETACHED →
      (∀ a s', step s a = some s' → (s'.control.tasks i).active = true →
        (s.control.tasks i).Continues (s'.control.tasks i)) ∧
      ∃ p y, s.fibers[p]? = some y ∧ y.index = i ∧ ∀ slept, ∃ k ≤ 3, ∃ s',
        run step s (List.replicate k (.fiber p slept)) = some s' ∧ (s'.control.tasks i).active = false) ∧
    (∀ subject t overtakes env s' out v, s.exec (.op subject (.detachTask t) overtakes env) = some (s', some out) →
      out.status = .ok v → ∀ i, (s'.control.tasks i).active = true → (s'.control.tasks i).id = t.slot →
        (s'.control.tasks i).body.state = .DETACHED) ∧
    (∀ subject s', subject ≠ 0 → step s (.reclaim .TASK subject) = some s' → ∀ i, (s'.control.tasks i).active = true →
      (s'.control.tasks i).subjectId = subject → (s'.control.tasks i).body.state = .DETACHED) ∧
    ∀ subject load t env, t.subjectId ≠ subject →
      s.control.Failed (s.control.perform subject load (.joinTask t) env) ∧
        s.control.Failed (s.control.perform subject load (.detachTask t) env) := by
  have hok := reachable_slotsOk hs
  have hinv := hok.inv
  refine ⟨?_, hok.subjects, hok.sleeps, hinv.tasks.single, ?_, ?_, ?_, ?_, ?_⟩
  · intro a id result s' hjoins hstep as s'' b result' hrun
    exact hjoins.once hinv hstep hrun result'
  · intro y hy
    have hactive := (hinv.tasks.fiber y hy).active
    refine ⟨hactive, fun a s' hstep ⟨z, hz, hindex⟩ => ?_⟩
    have hactive' := hindex ▸ ((step_inv s a s' hinv hstep).tasks.fiber z hz).active
    exact ⟨hactive', (step_moves hinv hstep).continues hinv hactive hactive'⟩
  · intro i hactive hdetached
    refine ⟨fun a s' hstep => (step_moves hinv hstep).continues hinv hactive, ?_⟩
    have hdriven := hok.driven i hactive (.inr hdetached)
    obtain ⟨y, hy, rfl⟩ := hdriven.resolve_right fun h => by rw [hdetached] at h; cases h.1
    obtain ⟨p, hp⟩ := List.mem_iff_getElem?.mp hy
    exact ⟨p, y, hp, rfl, detached_ends hp hdetached⟩
  · intro subject t overtakes env s' out v hexec hout
    exact detach_state hinv hexec hout
  · intro subject s' hsubject hstep
    exact reclaim_state hsubject hstep
  · intro subject load t env hsubject
    exact ⟨perform_refused (refuses_of_subject hsubject) rfl, perform_refused (refuses_of_subject hsubject) rfl⟩

set_option maxRecDepth 100000 in
theorem broker_task_slots_reclaimed : ∃ s : State 1, (s.control.tasks 0).active = true ∧
    (s.control.tasks 0).body.state = .DETACHED ∧ ∃ p y, s.fibers[p]? = some y ∧ y.index = 0 ∧ ∀ slept, ∃ k ≤ 3, ∃ s',
      run step s (List.replicate k (.fiber p slept)) = some s' ∧ (s'.control.tasks 0).active = false := by
  obtain ⟨s, hs, hf⟩ := exists_reachable step (State.init 1 1 ⟨1, 2, 3, 4⟩)
    (fun s => ((s.control.tasks 0).active, (s.control.tasks 0).body.state))
    [.spawn 0 7 4 100 (.JOIN ||| .DETACH) .plain, .issue 0 (fun _ => 0) .plain, .finish 0 (.ok 1), .store 0,
      .reclaim .TASK 7] (b := (true, .DETACHED)) (by decide +kernel)
  obtain ⟨hactive, hdetached⟩ := Prod.mk.inj hf
  have hslot := (broker_task_slots hs).2.2.2.2.2.1 0 hactive hdetached
  exact ⟨s, hactive, hdetached, hslot.2⟩

end Llam.Broker
