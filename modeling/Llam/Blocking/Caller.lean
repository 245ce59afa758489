import Llam.Blocking.Outline

/-!
# The steps of a calling task

Every step of a task writes its own record, and at most one job that it holds. `Advances` lists what such a step has to
show, `Inv.advance` puts the invariant together from it, and `start_inv` and `taskStep_inv` go through the program counters.
-/

namespace Llam.Blocking

open Llam.Wait Function

variable {T V W K : Type} [DecidableEq T] [DecidableEq W] [DecidableEq K] [Inhabited V] {s s' : State T V W K} {t : T}

/-- A job that the step of `t` writes or moves: neither a worker's nor another task's. -/
structure Mine (s s' : State T V W K) (t : T) (j : Nat) : Prop where
  place : ∀ u, u ≠ t → s.place j ≠ .task u
  worker : ∀ w, s.place j ≠ .worker w
  task : ∀ u, u ≠ t → (s.jobs j).task ≠ some u ∧ (s'.jobs j).task ≠ some u
  active : (s.tasks t).activeJob = some j → (s.jobs j).task = some t → (s'.jobs j).task = some t
  ok : JobOk s' j

/-- The step of `t` leaves it with the record `x`, and touches nothing but that and its own jobs. -/
structure Touches (s s' : State T V W K) (t : T) (x : Task V W K) : Prop where
  tasks : s'.tasks = update s.tasks t x
  workers : s'.workers = s.workers
  cancellers : s'.cancellers = s.cancellers
  stop : s'.stopRequested = s.stopRequested
  job : ∀ j, s'.jobs j = s.jobs j ∧ s'.place j = s.place j ∨ Mine s s' t j

/-- What a step of `t` that leaves it with the record `x` has to show. -/
structure Advances (s s' : State T V W K) (t : T) (x : Task V W K) : Prop extends Touches s s' t x where
  holders : x.gate.holders = (s.tasks t).gate.holders
  registered : ∀ generation, x.registered = some generation → generation ≤ x.generation ∧ x.pc.committed = true
  history : x.History
  task : TaskOk s' t x.pc
  active : ∀ j, (∀ u, s.place j ≠ .task u) → x.activeJob = some j → (s.tasks t).activeJob = some j
  wait : ∀ j, (s.tasks t).Awaits j → SameWait j (s.tasks t) x
  stays : ∀ j, (s.tasks t).Awaits j → (s.tasks t).activeJob = some j → x.activeJob = some j
  duty : ∀ k, (s.tasks t).duty = .canceller k → x.duty = .canceller k
  withdrawn : s.stopRequested = true → (s.tasks t).pc.withdrawn = true → x.pc.withdrawn = true
  generation : (x.generation = (s.tasks t).generation ∧ ((s.tasks t).pc.committed = true → x.pc.committed = true) ∧
      ∀ j, (s.tasks t).activeJob = some j → x.activeJob = some j) ∨
    ((s.tasks t).gate.holders = ∅ ∧ (s.tasks t).generation < x.generation)

variable {x : Task V W K} {j : Nat} {env : Env V} {error : Errno} {pc : Pc V}

theorem Advances.away {u : T} (ha : Advances s s' t x) (hu : u ≠ t) : Away s s' u where
  task := by rw [ha.tasks, update_of_ne hu]
  stop := by rw [ha.stop]; exact id
  job := by
    intro j hj
    rcases ha.job j with hsame | hm
    · exact hsame
    rcases hj with hp | ht | ht
    · exact absurd hp (hm.place u hu)
    · exact absurd ht (hm.task u hu).1
    · exact absurd ht (hm.task u hu).2
  worker := fun w _ _ _ => by rw [ha.workers]
  canceller := fun k _ => by rw [ha.cancellers]

theorem Advances.part (h : Inv s) (ha : Advances s s' t x) : Part s' t := by
  have hself : s'.tasks t = x := by rw [ha.tasks, update_self]
  have hp := h.part t
  exact {
    holders := by
      intro k
      rw [hself, ha.holders, ha.cancellers]
      exact hp.holders k
    registered := by rw [hself]; exact ha.registered
    history := by rw [hself]; exact ha.history
    task := by rw [hself]; exact ha.task
    job := by
      intro j hj
      rcases ha.job j with ⟨hjob, hplace⟩ | hm
      · rw [hjob] at hj
        refine (hp.job j hj).keep hjob hplace (fun w _ => by rw [ha.workers]) ?_
        intro u hu hnot
        cases hj.symm.trans hu
        rw [hself]
        exact ⟨ha.active j hnot, fun hw => ha.stays j hw.1, fun hw => ha.wait j hw.1⟩
      · exact hm.ok
    cancel := by
      intro k hk
      rw [ha.cancellers] at hk ⊢
      refine (hp.cancel k hk).keep hk (by rw [ha.stop]; exact id) ?_ ?_ ?_
      · rw [hself]
        exact ha.generation.imp (fun hg => ⟨hg.1, hg.2.1⟩) And.right
      · intro href j generation hl
        rcases ha.generation with ⟨hg, hcom, hact⟩ | ⟨hempty, _⟩
        · refine hl.keep (by rw [ha.stop]; exact id) ?_ (by rw [hself]; exact hg) (by rw [hself]; exact hcom) ?_
          · rcases ha.job j with ⟨hjob, _⟩ | hm
            · rw [hjob]; exact hl.task
            refine hm.active (hl.active.resolve_right ?_) hl.task
            rintro ⟨w, hw⟩
            refine hm.worker w ((h.places.worker w j).mp ?_)
            rcases hw with hw | hw <;> rw [hw] <;> rfl
          · rw [hself, ha.workers]
            exact Or.imp_left (hact j)
        · have hmem := (hp.holders k).mpr href
          rw [hempty] at hmem
          exact absurd hmem (Finset.notMem_empty k)
      · intro hd
        rw [hself]
        exact ⟨ha.duty k hd, ha.wait, ha.withdrawn⟩ }

theorem Inv.advance (h : Inv s) (hp : Places s') (ha : Advances s s' t x) : Inv s' := by
  refine h.act hp ?_ ?_
  · intro u
    by_cases hu : u = t
    · subst hu; exact .inr (ha.part h)
    · exact .inl (ha.away hu)
  · intro j hj
    rcases ha.job j with ⟨hjob, hplace⟩ | hm
    · rw [hjob] at hj
      refine (h.orphan j hj).keep hjob hplace (fun w _ => by rw [ha.workers]) ?_
      intro u hu
      exact nomatch hj.symm.trans hu
    · exact hm.ok

theorem touches_setTask (s : State T V W K) (t : T) (x : Task V W K) : Touches s (s.setTask t x) t x :=
  ⟨rfl, rfl, rfl, rfl, fun _ => .inl ⟨rfl, rfl⟩⟩

@[simp] theorem setTask_self (s : State T V W K) (t : T) (x : Task V W K) : (s.setTask t x).tasks t = x :=
  update_self ..

theorem Task.not_awaits (hp : x.pc = pc) (h : ∀ j, pc ≠ .shouldPark j ∧ pc ≠ .parked j) (j : Nat) : ¬ x.Awaits j := by
  rintro (hj | hj)
  · exact (h j).1 (hp.symm.trans hj)
  · exact (h j).2 (hp.symm.trans hj)

theorem Inv.caller (h : Inv s) (hpc : (s.tasks t).pc = pc) : TaskOk s t pc ∧ Task.History { s.tasks t with pc := pc } := by
  subst hpc
  exact ⟨(h.part t).task, (h.part t).history⟩

theorem Inv.plain (h : Inv s) (hpc : (s.tasks t).pc = pc) (hp : Places s') (hs : Touches s s' t x)
    (hna : ∀ j, pc ≠ .shouldPark j ∧ pc ≠ .parked j) (hgate : x.gate.holders = (s.tasks t).gate.holders)
    (hgen : x.generation = (s.tasks t).generation) (hact : x.activeJob = (s.tasks t).activeJob)
    (hduty : x.duty = (s.tasks t).duty)
    (hreg : ∀ generation, x.registered = some generation → (s.tasks t).registered = some generation)
    (hcom : pc.committed = true → x.pc.committed = true)
    (hwd : s.stopRequested = true → pc.withdrawn = true → x.pc.withdrawn = true) (hh : x.History)
    (ht : TaskOk s' t x.pc) : Inv s' := by
  subst hpc
  have hout := Task.not_awaits rfl hna
  exact h.advance hp { hs with
    holders := hgate
    registered := by
      intro generation hr
      obtain ⟨hle, hc⟩ := (h.part t).registered generation (hreg generation hr)
      exact ⟨by rw [hgen]; exact hle, hcom hc⟩
    history := hh
    task := ht
    active := fun j _ => by rw [hact]; exact id
    wait := fun j hj => absurd hj (hout j)
    stays := fun j hj => absurd hj (hout j)
    duty := fun k => by rw [hduty]; exact id
    withdrawn := hwd
    generation := .inl ⟨hgen, hcom, fun j => by rw [hact]; exact id⟩ }

theorem Inv.setTask_places (h : Inv s) (hpc : (s.tasks t).pc = pc) (hholds : x.pc.holds = pc.holds) :
    Places (s.setTask t x) :=
  h.places.same (samePlaces_setTask (by rw [hpc]; exact hholds))

theorem Inv.clear (h : Inv s) (hpc : (s.tasks t).pc = pc) (hholds : x.pc.holds = pc.holds)
    (hna : ∀ j, pc ≠ .shouldPark j ∧ pc ≠ .parked j) (hdrained : (s.tasks t).gate.drained = true)
    (hgate : x.gate.holders = (s.tasks t).gate.holders) (hgen : (s.tasks t).generation < x.generation)
    (hact : ∀ j, (∀ u, s.place j ≠ .task u) → x.activeJob ≠ some j)
    (hduty : ∀ k, (s.tasks t).duty = .canceller k → x.duty = .canceller k) (hreg : x.registered = none)
    (hwd : s.stopRequested = true → pc.withdrawn = true → x.pc.withdrawn = true) (hh : x.History)
    (ht : TaskOk (s.setTask t x) t x.pc) : Inv (s.setTask t x) := by
  have hout := Task.not_awaits hpc hna
  exact h.advance (h.setTask_places hpc hholds) { touches_setTask s t x with
    holders := hgate
    registered := by rw [hreg]; exact nofun
    history := hh
    task := ht
    active := fun j hj ha => absurd ha (hact j hj)
    wait := fun j hj => absurd hj (hout j)
    stays := fun j hj => absurd hj (hout j)
    duty := hduty
    withdrawn := by rw [hpc]; exact hwd
    generation := .inr ⟨(Gate.drained_iff _).mp hdrained, hgen⟩ }

/-! ## Program counters -/

theorem Task.Preparing.calm {stop : Bool} (h : x.Preparing false) : x.Calm stop :=
  ⟨h.node, h.activeJob, h.registered, .inl h.duty⟩

section

variable (h : Inv s)

include h

theorem enter_inv (hpc : (s.tasks t).pc = .enter) :
    Inv (if s.stopRequested then ret s t (.failed .ECANCELED) else s.goto t .alloc) := by
  obtain ⟨⟨hcalm, hblank⟩, hh⟩ := h.caller hpc
  split
  · refine h.plain hpc (h.setTask_places hpc rfl) (touches_setTask s t _) (by simp) rfl rfl rfl rfl (fun _ => id)
      (by intros; contradiction) (fun _ _ => rfl) { hh with current := hh.current.2.trans hh.current.1.symm } ?_
    simp only [TaskOk, ret, State.goto, setTask_self]
    exact ⟨{ hcalm with }, .inl hblank.1, by simp⟩
  rename_i hstop
  refine h.plain hpc (h.setTask_places hpc rfl) (touches_setTask s t _) (by simp) rfl rfl rfl rfl (fun _ => id)
    (by intros; contradiction) (fun hs => absurd hs hstop) { hh with } ?_
  simp only [TaskOk, State.goto, setTask_self]
  refine ⟨hcalm.node, hcalm.activeJob, hcalm.registered, ?_, hblank⟩
  rcases hcalm.duty with hd | ⟨k, _, hs⟩
  · exact hd
  · exact absurd hs hstop

theorem Inv.task_of_pool (hj : s.place j = .pool) : (s.jobs j).task = none := by
  have hk := h.job j
  simp only [JobOk, hj] at hk
  exact hk

theorem growPool_inv : Inv (growPool s) := by
  have hfresh : ∀ j, s.fresh ≤ j → s.place j = .fresh ∧ (s.jobs j).task = none := by
    intro j hj
    have hp := (h.places.fresh j).mp hj
    have hk := h.job j
    simp only [JobOk, hp] at hk
    exact ⟨hp, hk⟩
  have hplace : ∀ j, (growPool s).place j =
      if s.fresh ≤ j ∧ j < s.fresh + slabCount then .pool else s.place j := fun _ => rfl
  refine h.act (growPool_places h.places) (fun t => .inl ⟨rfl, id, ?_, fun _ _ _ _ => rfl, fun _ _ => rfl⟩) ?_
  · intro j hj
    refine ⟨rfl, ?_⟩
    rw [hplace, if_neg]
    rintro ⟨hle, _⟩
    obtain ⟨hp, ht⟩ := hfresh j hle
    rcases hj with hj | hj | hj
    · cases hp.symm.trans hj
    · cases ht.symm.trans hj
    · cases ht.symm.trans hj
  · intro j hj
    by_cases hr : s.fresh ≤ j ∧ j < s.fresh + slabCount
    · simp only [JobOk, hplace, if_pos hr]
      exact hj
    refine (h.orphan j hj).keep rfl (by rw [hplace, if_neg hr]) (fun _ _ => rfl) ?_
    intro u hu
    cases (show (s.jobs j).task = none from hj).symm.trans hu

theorem alloc_inv (hpc : (s.tasks t).pc = .alloc) : Inv (alloc s t env) := by
  obtain ⟨hk, hh⟩ := h.caller hpc
  have hplaces : Places (alloc s t env) := alloc_places h.places hpc
  unfold alloc at hplaces ⊢
  split
  · rename_i j rest hpool
    simp only [hpool] at hplaces
    have hj : s.place j = .pool := (h.places.pool j).mp (by rw [hpool]; exact List.mem_cons_self)
    have hnone := h.task_of_pool hj
    refine h.plain hpc hplaces (x := { s.tasks t with pc := .prepare j }) ⟨rfl, rfl, rfl, rfl, ?_⟩ (by simp) rfl rfl rfl rfl
      (fun _ => id) (by intros; contradiction) (by intros; contradiction) { hh with } ?_
    · intro i
      by_cases hi : i = j
      · subst hi
        refine .inr ⟨fun u _ => by rw [hj]; simp, fun w => by rw [hj]; simp, ?_, ?_, ?_⟩
        · intro u _
          refine ⟨by rw [hnone]; simp, ?_⟩
          simp [State.goto, State.setTask, State.move, State.setJob]
        · intro _ ht
          cases hnone.symm.trans ht
        · simp [JobOk, State.goto, State.setTask, State.move, State.setJob]
      · refine .inl ⟨?_, ?_⟩ <;> exact update_of_ne hi _ _
    · simp only [TaskOk, State.goto, setTask_self]
      refine ⟨{ hk with }, ?_⟩
      simp [State.setTask, State.move, State.setJob]
  · rename_i hpool
    simp only [hpool] at hplaces
    split
    · rename_i hf
      rw [if_pos hf] at hplaces
      refine h.plain hpc hplaces (touches_setTask s t _) (by simp) rfl rfl rfl rfl (fun _ => id) (by intros; contradiction)
        (by intros; contradiction) { hh with current := hh.current.2.trans hh.current.1.symm } ?_
      simp only [TaskOk, ret, State.goto, setTask_self]
      exact ⟨{ hk.calm with }, .inl hk.blank.1, by simp⟩
    · exact growPool_inv h

theorem prepare_inv (hpc : (s.tasks t).pc = .prepare j) : Inv (prepare s t j env) := by
  obtain ⟨⟨hprep, hnone, _⟩, hh⟩ := h.caller hpc
  have hholds : (s.tasks t).pc.holds = some j := by rw [hpc]; rfl
  have hj : s.place j = .task t := (h.places.task t j).mp hholds
  unfold prepare
  split
  · refine h.plain hpc (h.setTask_places hpc rfl) (touches_setTask s t _) (by simp) rfl rfl rfl rfl (fun _ => id)
      (by intros; contradiction) (fun _ _ => rfl) { hh with } ?_
    simp only [TaskOk, State.goto, setTask_self]
    exact ⟨{ hprep.calm with }, hprep.blank.1, .inl hnone, .inl trivial⟩
  refine h.plain hpc (h.places.same ((samePlaces_setJob s j _).trans (samePlaces_setTask hholds.symm)))
    ⟨rfl, rfl, rfl, rfl, ?_⟩ (by simp) rfl rfl rfl rfl (fun _ => id) (by intros; contradiction)
    (by intros; contradiction) { hh with } ?_
  · intro i
    by_cases hi : i = j
    · subst hi
      refine .inr ⟨fun u hu => by rw [hj]; exact fun he => hu (Place.task.inj he).symm,
        fun w => by rw [hj]; simp, ?_, ?_, ?_⟩
      · intro u hu
        refine ⟨by rw [hnone]; simp, ?_⟩
        simpa [State.setTask, State.setJob] using Ne.symm hu
      · intro _ ht
        cases hnone.symm.trans ht
      · simp [JobOk, State.setTask, State.setJob, hj]
    · exact .inl ⟨update_of_ne hi _ _, rfl⟩
  · simp only [TaskOk, setTask_self]
    refine ⟨{ hprep with node := rfl }, trivial, ⟨?_, ?_, ?_⟩, ?_⟩ <;> simp [State.setTask, State.setJob]

theorem close_inv (hpc : (s.tasks t).pc = .close j) : Inv (s.setTask t { s.tasks t with gate := (s.tasks t).gate.close, pc := .publish j }) := by
  obtain ⟨⟨hprep, hnode, hcar, hq⟩, hh⟩ := h.caller hpc
  refine h.plain hpc (h.setTask_places hpc rfl) (touches_setTask s t _) (by simp) rfl rfl rfl rfl (fun _ => id) nofun
    (fun _ => nofun) { hh with } ?_
  simp only [TaskOk, setTask_self]
  exact ⟨{ hprep with }, hnode, { hcar with }, hq⟩

theorem publish_inv (hpc : (s.tasks t).pc = .publish j) (hs : publish s t j env = some s') : Inv s' := by
  obtain ⟨⟨hprep, hnode, hcar, hq⟩, hh⟩ := h.caller hpc
  have hj : s.place j = .task t := (h.places.task t j).mp (by rw [hpc]; rfl)
  simp only [publish] at hs
  split at hs
  · cases hs
  rename_i hdrained
  have hdrained : (s.tasks t).gate.drained = true := by simpa using hdrained
  have hduty : ∀ k, (s.tasks t).duty ≠ .canceller k := fun k hd => by cases hprep.duty.symm.trans hd
  split at hs
  · cases hs
    refine h.clear hpc rfl (by simp) hdrained rfl (Nat.lt_succ_self _) (fun _ _ => by rintro ⟨⟩)
      (fun k hd => absurd hd (hduty k)) hprep.registered (fun _ _ => rfl)
      { hh with } ?_
    simp only [TaskOk, setTask_self]
    exact ⟨⟨rfl, rfl, hprep.registered, .inl hprep.duty⟩, hprep.blank.1, .inr hcar.task, .inl trivial⟩
  · cases hs
    refine h.clear hpc rfl (by simp) hdrained rfl (Nat.lt_add_of_pos_right Nat.two_pos) ?_
      (fun k hd => absurd hd (hduty k)) hprep.registered (fun _ _ => rfl)
      { hh with } ?_
    · intro i hi ha
      cases ha
      exact hi t hj
    · simp only [TaskOk, setTask_self]
      exact ⟨{ hcar with }, ⟨hprep.node, by simp [hnode]⟩, rfl, hprep.registered, hprep.blank.1,
        .inl ⟨rfl, hq, rfl, hprep.blank, hnode⟩⟩

theorem submit_refused_inv (hpc : (s.tasks t).pc = .submit j) : Inv (s.goto t (.rollback j error)) := by
  obtain ⟨hk, hh⟩ := h.caller hpc
  refine h.plain hpc (h.setTask_places hpc rfl) (touches_setTask s t _) (by simp) rfl rfl rfl rfl (fun _ => id) nofun
    (fun _ _ => rfl) { hh with } ?_
  simp only [TaskOk, State.goto, setTask_self]
  exact ⟨{ hk.1 with }, { hk.2 with }⟩

theorem submit_inv (hpc : (s.tasks t).pc = .submit j) : Inv (submit s t j env) := by
  obtain ⟨⟨hcar, hw⟩, hh⟩ := h.caller hpc
  have hna := Task.not_awaits hpc (fun i => ⟨nofun, nofun⟩)
  have hj : s.place j = .task t := (h.places.task t j).mp (by rw [hpc]; rfl)
  have hplaces : Places (submit s t j env) := submit_places h.places hpc
  unfold submit at hplaces ⊢
  split
  · exact submit_refused_inv h hpc
  rename_i htok
  rw [htok] at hplaces
  split
  · exact submit_refused_inv h hpc
  rename_i hstop
  split
  · exact submit_refused_inv h hpc
  rename_i hcap
  split
  · exact submit_refused_inv h hpc
  rename_i hmax
  simp only [if_neg hstop, if_neg hcap, if_neg hmax] at hplaces
  -- No stop has been requested, so that nobody can have aborted the job.
  obtain ⟨hduty, hq, hcalm, hblank, hnode⟩ := hw.offered.resolve_right fun ⟨hs, _⟩ => hstop hs
  refine h.advance hplaces {
    tasks := rfl
    workers := rfl
    cancellers := rfl
    stop := rfl
    job := ?_
    holders := rfl
    registered := by
      intro generation hr
      cases hr
      exact ⟨Nat.le_refl _, rfl⟩
    history := { hh with }
    task := ?_
    active := fun _ _ => id
    wait := fun i hi => absurd hi (hna i)
    stays := fun _ _ => id
    duty := fun _ => id
    withdrawn := fun hs => absurd hs hstop
    generation := .inl ⟨rfl, fun _ => rfl, fun _ => id⟩ }
  · intro i
    by_cases hi : i = j
    · subst hi
      refine .inr ⟨fun u hu => by rw [hj]; exact fun he => hu (Place.task.inj he).symm,
        fun w => by rw [hj]; exact nofun, ?_, fun _ => id, ?_⟩
      · intro u hu
        exact ⟨by rw [hcar.task]; exact fun he => hu (Option.some.inj he).symm,
          fun he => hu (Option.some.inj (hcar.task.symm.trans he)).symm⟩
      · simp only [JobOk, State.setTask, State.move, update_self]
        refine ⟨t, hcar.task, hcar.holdsTaskRef, .inl ?_⟩
        rw [update_self]
        exact ⟨hq, hcar.call, hduty, ⟨hw.node.1, .inl ⟨rfl, hnode⟩⟩, hw.activeJob, hcalm, hblank⟩
    · exact .inl ⟨rfl, update_of_ne hi _ _⟩
  · simp only [TaskOk, setTask_self]
    refine .inl ⟨⟨hw.node.1, .inl ⟨rfl, hnode⟩⟩, ?_⟩
    simp only [Responsible, setTask_self, hduty]
    exact ⟨hcar.task, hq, .inl (by simp [State.setTask, State.move])⟩

end

theorem Responsible.setTask (h : Responsible s t j) (hd : x.duty = (s.tasks t).duty) :
    Responsible (s.setTask t x) t j :=
  h.keep (by rw [setTask_self]; exact hd) (fun ht => ⟨ht, id, rfl⟩) (fun _ _ _ => rfl) (fun _ => id)

section

variable (h : Inv s)

include h

theorem shouldPark_inv (hpc : (s.tasks t).pc = .shouldPark j) : Inv (shouldPark s t j) := by
  obtain ⟨hk, hh⟩ := h.caller hpc
  have hc : (s.tasks t).parks (s.tasks t).call = 0 ∧ (s.tasks t).wakes (s.tasks t).call = 0 := hh.current
  have hplaces : ∀ x : Task V W K, x.pc.holds = none → Places (s.setTask t x) := fun x hx =>
    h.places.same (samePlaces_setTask (by rw [hpc]; exact hx))
  have hself : ∀ i, (s.tasks t).Awaits i → i = j := by
    rintro i (hi | hi)
    · exact (Pc.shouldPark.inj (hpc.symm.trans hi)).symm
    · cases hpc.symm.trans hi
  have hnw : ¬ (s.tasks t).Waking j := fun hw => by cases hpc.symm.trans hw.2.1
  have hreg : ∀ generation, (s.tasks t).registered = some generation → generation ≤ (s.tasks t).generation := fun g hg =>
    ((h.part t).registered g hg).1
  simp only [shouldPark]
  rcases hk with ⟨hu, hr⟩ | ⟨hlive, hnode, hduty, hset⟩
  · have hnode : (s.tasks t).node = .unarmed := by
      rcases hu.2 with ⟨_, hn⟩ | ⟨hq, _⟩
      · exact hn
      · cases hpc.symm.trans hq
    rw [hnode, if_pos (by decide)]
    refine h.advance (hplaces _ rfl) { touches_setTask s t _ with
      holders := rfl
      registered := fun g hg => ⟨hreg g hg, rfl⟩
      history := { hh with
        parks := ?_
        future := ?_
        past := ?_
        current := ?_ }
      task := ?_
      active := fun _ _ => id
      wait := ?_
      stays := fun _ _ => id
      duty := fun _ => id
      withdrawn := by rw [hpc]; intros; contradiction
      generation := .inl ⟨rfl, fun _ => rfl, fun _ => id⟩ }
    · intro n
      by_cases hn : n = (s.tasks t).call
      · subst hn; simp [hc.1]
      · simpa [update_of_ne hn] using hh.parks n
    · intro n hn
      have := hh.future n hn
      simpa [update_of_ne (Nat.ne_of_gt hn)] using this
    · intro n hn
      have := hh.past n hn
      simpa [update_of_ne (Nat.ne_of_lt hn)] using this
    · simp [hc.1, hc.2]
    · simp only [TaskOk, setTask_self]
      exact .inl ⟨⟨hu.1, .inr ⟨rfl, rfl⟩⟩, hr.setTask rfl⟩
    · intro i hi
      cases hself i hi
      exact ⟨fun _ => ⟨hu.1, .inr ⟨rfl, rfl⟩⟩, fun hw => absurd hw hnw, rfl, rfl, rfl, rfl, rfl, rfl, rfl, rfl⟩
  · rw [hnode, if_neg (by decide)]
    refine h.advance (hplaces _ rfl) { touches_setTask s t _ with
      holders := rfl
      registered := fun g hg => ⟨hreg g hg, rfl⟩
      history := { hh with current := hh.current.2.trans hh.current.1.symm }
      task := ?_
      active := fun _ _ => id
      wait := ?_
      stays := fun _ _ => id
      duty := fun _ => id
      withdrawn := by rw [hpc]; intros; contradiction
      generation := .inl ⟨rfl, fun _ => rfl, fun _ => id⟩ }
    · simp only [TaskOk, setTask_self]
      exact ⟨hlive, hduty, hset⟩
    · intro i hi
      cases hself i hi
      refine ⟨fun hu => ?_, fun hw => absurd hw hnw, rfl, rfl, rfl, rfl, rfl, rfl, rfl, rfl⟩
      rcases hu.2 with ⟨_, hn⟩ | ⟨_, hn⟩ <;> cases hnode.symm.trans hn

theorem unregister_inv (hpc : (s.tasks t).pc = .unregister) : Inv (s.setTask t { s.tasks t with registered := none, pc := .finishClose }) := by
  obtain ⟨hk, hh⟩ := h.caller hpc
  refine h.plain hpc (h.setTask_places hpc rfl) (touches_setTask s t _) (by simp) rfl rfl rfl rfl (fun _ => nofun)
    (fun _ => rfl) (fun _ => nofun) { hh with } ?_
  simp only [TaskOk, setTask_self]
  exact ⟨trivial, hk⟩

theorem finishClose_inv (hpc : (s.tasks t).pc = .finishClose) : Inv (s.setTask t { s.tasks t with gate := (s.tasks t).gate.close, pc := .finishDrain }) := by
  obtain ⟨hk, hh⟩ := h.caller hpc
  refine h.plain hpc (h.setTask_places hpc rfl) (touches_setTask s t _) (by simp) rfl rfl rfl rfl (fun _ => id)
    (fun _ => rfl) (fun _ => nofun) { hh with } ?_
  simp only [TaskOk, setTask_self]
  exact hk

theorem finishDrain_inv (hpc : (s.tasks t).pc = .finishDrain) (hs : finishDrain s t = some s') : Inv s' := by
  obtain ⟨⟨hreg, _, hduty, hset⟩, hh⟩ := h.caller hpc
  simp only [finishDrain] at hs
  split at hs
  · cases hs
  rename_i hdrained
  cases hs
  refine h.clear hpc rfl (by simp) (by simpa using hdrained) rfl (Nat.lt_succ_self _) (fun _ _ => by rintro ⟨⟩)
    (fun _ => id) hreg (by intros; contradiction) { hh with } ?_
  simp only [TaskOk, setTask_self]
  refine ⟨⟨rfl, rfl, hreg, .inl hduty⟩, ?_, ?_⟩
  · simp only [Task.Settled] at hset
    split at hset
    · exact .inr ⟨_, _, hset⟩
    · exact hset
  · intro result errno ho
    simp only [Task.Settled] at hset
    split at ho
    · cases ho
    rename_i hw
    rw [hw] at hset
    cases ho
    exact hset

theorem rollback_inv (hpc : (s.tasks t).pc = .rollback j error) : Inv (s.setTask t { s.tasks t with
      gate := (s.tasks t).gate.close
      parked := false
      pc := .rollbackDrain j error }) := by
  obtain ⟨hk, hh⟩ := h.caller hpc
  refine h.plain hpc (h.setTask_places hpc rfl) (touches_setTask s t _) (by simp) rfl rfl rfl rfl (fun _ => id) nofun
    (fun _ _ => rfl) { hh with } ?_
  simp only [TaskOk, setTask_self]
  exact ⟨{ hk.1 with }, { hk.2 with }⟩

theorem rollbackDrain_inv (hpc : (s.tasks t).pc = .rollbackDrain j error)
    (hs : rollbackDrain s t j error = some s') : Inv s' := by
  obtain ⟨⟨hcar, hw⟩, hh⟩ := h.caller hpc
  simp only [rollbackDrain] at hs
  split at hs
  · cases hs
  rename_i hdrained
  cases hs
  refine h.clear hpc rfl (by simp) (by simpa using hdrained) rfl (Nat.lt_succ_self _) (fun _ _ => by rintro ⟨⟩) ?_
    hw.registered (fun _ _ => rfl) { hh with } ?_
  · intro k hd
    rw [hd]
    rfl
  · simp only [TaskOk, setTask_self]
    refine ⟨⟨rfl, rfl, hw.registered, ?_⟩, hw.unstarted, .inr hcar.task, .inl trivial⟩
    -- Whoever aborted the job still has to drop its duty.
    rcases hw.offered with ⟨hd, _⟩ | ⟨hstop, _, hd | ⟨k, hd⟩⟩
    · rw [hd]; exact .inl rfl
    · rw [hd]; exact .inl rfl
    · rw [hd]; exact .inr ⟨k, rfl, hstop⟩

theorem releaseCas_inv (hpc : (s.tasks t).pc = .release j error .cas) : Inv (s.goto t (.release j error .push)) := by
  obtain ⟨hk, hh⟩ := h.caller hpc
  refine h.plain hpc (h.setTask_places hpc rfl) (touches_setTask s t _) (by simp) rfl rfl rfl rfl (fun _ => id) nofun
    (fun _ _ => rfl) { hh with } ?_
  simp only [TaskOk, State.goto, setTask_self]
  exact ⟨{ hk.1 with }, hk.2.1, hk.2.2.1, .inr trivial⟩

theorem releasePush_inv (hpc : (s.tasks t).pc = .release j error .push) : Inv (ret (s.recycle j) t (.failed error)) := by
  obtain ⟨⟨hcalm, hun, htask, _⟩, hh⟩ := h.caller hpc
  have hj : s.place j = .task t := (h.places.task t j).mp (by rw [hpc]; rfl)
  refine h.plain hpc (push_task_places h.places hpc rfl) ⟨rfl, rfl, rfl, rfl, ?_⟩ (by simp) rfl rfl rfl rfl (fun _ => id)
    (by intros; contradiction) (fun _ _ => rfl) { hh with current := hh.current.2.trans hh.current.1.symm } ?_
  · intro i
    by_cases hi : i = j
    · subst hi
      refine .inr ⟨fun u hu => by rw [hj]; exact fun he => hu (Place.task.inj he).symm,
        fun w => by rw [hj]; simp, ?_, ?_, ?_⟩
      · intro u hu
        refine ⟨?_, by simp [State.goto, ret, State.setTask, State.recycle, State.move, State.setJob]⟩
        rcases htask with ht | ht <;> rw [ht]
        · simp
        · exact fun he => hu (Option.some.inj he).symm
      · intro ha
        cases hcalm.activeJob.symm.trans ha
      · simp [JobOk, State.goto, ret, State.setTask, State.recycle, State.move, State.setJob]
    · exact .inl ⟨update_of_ne hi _ _, update_of_ne hi _ _⟩
  · simp only [TaskOk, ret, State.goto, setTask_self]
    exact ⟨{ hcalm with }, .inl hun, by simp⟩

theorem release_inv {phase : Releasing} {next : Option Releasing} {s₁ : State T V W K} (hpc : (s.tasks t).pc = .release j error phase) (hr : releaseStep s j phase = some (s₁, next)) :
    Inv (match next with | some phase => s₁.goto t (.release j error phase) | none => ret s₁ t (.failed error)) := by
  have hk := (h.part t).task
  rw [hpc] at hk
  obtain ⟨hcalm, _, htask, hphase⟩ := hk
  rcases hphase with rfl | rfl
  · -- The task has no active job any more, so that there is nothing to clear.
    have hstep : releaseStep s j .cas = some (s, some .push) := by
      rcases htask with ht | ht <;> simp [releaseStep, ht, hcalm.activeJob]
    cases hstep.symm.trans hr
    exact releaseCas_inv h hpc
  · cases hr
    exact releasePush_inv h hpc

theorem taskStep_inv (hs : taskStep s t env = some s') : Inv s' := by
  simp only [taskStep] at hs
  cases hp : (s.tasks t).pc <;> rw [hp] at hs
  case idle | returned | parked => cases hs
  case enter => cases hs; exact enter_inv h hp
  case alloc => cases hs; exact alloc_inv h hp
  case prepare j => cases hs; exact prepare_inv h hp
  case close j => cases hs; exact close_inv h hp
  case publish j => exact publish_inv h hp hs
  case submit j => cases hs; exact submit_inv h hp
  case shouldPark j => cases hs; exact shouldPark_inv h hp
  case unregister => cases hs; exact unregister_inv h hp
  case finishClose => cases hs; exact finishClose_inv h hp
  case finishDrain => exact finishDrain_inv h hp hs
  case rollback j error => cases hs; exact rollback_inv h hp
  case rollbackDrain j error => exact rollbackDrain_inv h hp hs
  case release j error phase =>
    obtain ⟨⟨s₁, next⟩, hr, rfl⟩ := Option.map_eq_some_iff.mp hs
    exact release_inv h hp hr

end

/-! ## A new call -/

theorem Task.History.next (h : x.History) (hd : x.Done) (hc : x.wakes x.call = x.parks x.call)
    (hpc : pc = .enter ∨ ∃ outcome, pc = .returned outcome) : Task.History { x with call := x.call + 1, pc := pc } := by
  obtain ⟨hs, hcb, hab, hpk, hwk⟩ := h.future (x.call + 1) (Nat.lt_succ_self _)
  refine { h with future := fun n hn => h.future n (Nat.lt_of_succ_lt hn), past := ?_, current := ?_ }
  · intro n hn
    rcases Nat.lt_succ_iff_lt_or_eq.mp hn with hlt | rfl
    · exact h.past n hlt
    refine ⟨fun h1 => ?_, hc⟩
    rcases hd with hu | ⟨v, e, hr⟩
    · exact absurd (hu.1.symm.trans h1) (by decide)
    · rw [hr.2]
      rfl
  · rcases hpc with rfl | ⟨outcome, rfl⟩
    · exact ⟨hpk, hwk⟩
    · exact hwk.trans hpk.symm

theorem start_inv {valid : Bool} (h : Inv s) (hs : start s t valid = some s') : Inv s' := by
  have hp := h.part t
  have hk := hp.task
  have hcur := hp.history.current
  -- Between two calls the task waits for nothing.
  obtain ⟨hcalm, hdone, hc, hna, hnone, hwd, hncom, heq⟩ : (s.tasks t).Calm s.stopRequested ∧ (s.tasks t).Done ∧
      (s.tasks t).wakes (s.tasks t).call = (s.tasks t).parks (s.tasks t).call ∧ (∀ j, ¬ (s.tasks t).Awaits j) ∧
      (s.tasks t).pc.holds = none ∧ (s.tasks t).pc.withdrawn = true ∧ (s.tasks t).pc.committed ≠ true ∧
      s' = s.setTask t { s.tasks t with
        call := (s.tasks t).call + 1
        pc := if valid then .enter else .returned (.failed .EINVAL) } := by
    simp only [start] at hs
    cases hpc : (s.tasks t).pc <;> rw [hpc] at hs hk hcur <;> cases hs
    case idle => exact ⟨hk.1, hk.2, hcur, Task.not_awaits hpc fun i => ⟨by simp, by simp⟩, rfl, rfl, by rintro ⟨⟩, rfl⟩
    case returned => exact ⟨hk.1, hk.2.1, hcur, Task.not_awaits hpc fun i => ⟨by simp, by simp⟩, rfl, rfl, by rintro ⟨⟩, rfl⟩
  obtain ⟨hst, hcb, hab, _, _⟩ := hp.history.future _ (Nat.lt_succ_self _)
  subst heq
  refine h.advance (h.places.same (samePlaces_setTask ?_)) { touches_setTask s t _ with
    holders := rfl
    registered := by
      intro generation hr
      cases hcalm.registered.symm.trans hr
    history := hp.history.next hdone hc ?_
    task := ?_
    active := fun _ _ => id
    wait := fun i hi => absurd hi (hna i)
    stays := fun _ _ => id
    duty := fun _ => id
    withdrawn := ?_
    generation := .inl ⟨rfl, fun hcom => absurd hcom hncom, fun _ => id⟩ }
  · rw [hnone]
    cases valid <;> rfl
  · cases valid
    · exact .inr ⟨_, rfl⟩
    · exact .inl rfl
  · cases valid
    · simp only [TaskOk, setTask_self, Bool.false_eq_true, if_false]
      exact ⟨{ hcalm with }, .inl ⟨hst, hcb⟩, by simp⟩
    · simp only [TaskOk, setTask_self, if_true]
      exact ⟨{ hcalm with }, ⟨hst, hcb⟩, hab⟩
  · intro _ _
    cases valid <;> rfl

end Llam.Blocking
