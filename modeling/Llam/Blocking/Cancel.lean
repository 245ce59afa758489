import Llam.Blocking.Worker

/-!
# The steps of a resolver, and every run

A resolver writes the task it was sent for, and the state of the job it has loaded. `Resolves` lists what such a step has to
show and `Inv.resolve` puts the invariant together from it; `step_inv` and `reachable_inv` are the invariant of the whole
system.
-/

namespace Llam.Blocking

open Llam.Wait Function

variable {T V W K : Type} [DecidableEq T] [DecidableEq W] [DecidableEq K] [Inhabited V] {s s' : State T V W K} {t : T}
  {k : K} {j : Nat} {x : Task V W K} {pc : CancelPc T}

/-- A step of resolver `k`, sent for `t`, leaves the task with the record `x` and goes on at `pc`. -/
structure Resolves (s s' : State T V W K) (k : K) (t : T) (x : Task V W K) (pc : CancelPc T) : Prop where
  tasks : s'.tasks = update s.tasks t x
  cancellers : s'.cancellers = update s.cancellers k pc
  workers : s'.workers = s.workers
  stop : s'.stopRequested = s.stopRequested
  place : s'.place = s.place
  job : ∀ i, s'.jobs i = s.jobs i ∨ (s.jobs i).task = some t ∧ (s'.jobs i).task = some t ∧
    (∀ u, u ≠ t → s.place i ≠ .task u) ∧ JobOk s' i
  target : ∀ u, (s.cancellers k).target = some u ∨ pc.target = some u → u = t
  ok : CancelOk s' k pc
  holders : ∀ l, l ∈ x.gate.holders ↔ (if l = k then pc.ref else (s.cancellers l).ref) = some t
  registered : x.registered = (s.tasks t).registered
  history : x.History
  task : TaskOk s' t x.pc
  keeps : ∀ i, s'.jobs i = s.jobs i → (∀ u, s.place i ≠ .task u) → (s.jobs i).task = some t → Keeps i (s.tasks t) x
  committed : (s.tasks t).pc.committed = true → x.pc.committed = true
  duty : ∀ l, l ≠ k → (s.tasks t).duty = .canceller l → x.duty = .canceller l ∧ x.pc = (s.tasks t).pc ∧
    ∀ i, (s.tasks t).Awaits i → SameWait i (s.tasks t) x
  generation : (x.generation = (s.tasks t).generation ∧ x.activeJob = (s.tasks t).activeJob) ∨
    ((s.tasks t).gate.holders = ∅ ∧ (s.tasks t).generation ≤ x.generation)

variable {u : T} {expected : Option Nat} {generation : Nat} {y : Job T V}

theorem Resolves.away (h : Resolves s s' k t x pc) (hu : u ≠ t) : Away s s' u where
  task := by rw [h.tasks, update_of_ne hu]
  stop := by rw [h.stop]; exact id
  job := by
    intro i hi
    refine ⟨?_, by rw [h.place]⟩
    rcases h.job i with hsame | ⟨ht, ht', hplace, _⟩
    · exact hsame
    rcases hi with hp | hi | hi
    · exact absurd hp (hplace u hu)
    · exact absurd (Option.some.inj (hi.symm.trans ht)) hu
    · exact absurd (Option.some.inj (hi.symm.trans ht')) hu
  worker := fun _ _ _ _ => by rw [h.workers]
  canceller := by
    intro l hl
    rw [h.cancellers] at hl ⊢
    by_cases hlk : l = k
    · subst hlk
      rw [update_self] at hl
      exact absurd (h.target u hl) hu
    · rw [update_of_ne hlk]

theorem Resolves.part (hi : Inv s) (h : Resolves s s' k t x pc) : Part s' t := by
  have hself : s'.tasks t = x := by rw [h.tasks, update_self]
  have hp := hi.part t
  have hnext : (s.tasks t).generation ≤ x.generation := h.generation.elim (fun hg => Nat.le_of_eq hg.1.symm) And.right
  exact {
    holders := by
      intro l
      rw [hself, h.holders l, h.cancellers]
      by_cases hl : l = k
      · subst hl; rw [if_pos rfl, update_self]
      · rw [if_neg hl, update_of_ne hl]
    registered := by
      intro generation hr
      rw [hself] at hr ⊢
      obtain ⟨hle, hc⟩ := hp.registered generation (h.registered ▸ hr)
      exact ⟨Nat.le_trans hle hnext, h.committed hc⟩
    history := by rw [hself]; exact h.history
    task := by rw [hself]; exact h.task
    job := by
      intro i hti
      rcases h.job i with hsame | ⟨_, _, _, hok⟩
      · rw [hsame] at hti
        refine (hi.job i).keep hsame (by rw [h.place]) (fun u _ => by rw [h.workers]) ?_
        intro u hu hnot
        cases hti.symm.trans hu
        rw [hself]
        exact h.keeps i hsame hnot hti
      · exact hok
    cancel := by
      intro l hl
      by_cases hlk : l = k
      · subst hlk
        rw [h.cancellers, update_self]
        exact h.ok
      have hsame : s'.cancellers l = s.cancellers l := by rw [h.cancellers, update_of_ne hlk]
      rw [hsame] at hl ⊢
      refine (hp.cancel l hl).keep hl (by rw [h.stop]; exact id) ?_ ?_ ?_
      · rw [hself]
        exact (Nat.eq_or_lt_of_le hnext).imp_left fun heq => ⟨heq.symm, h.committed⟩
      · intro href i generation hload
        rcases h.generation with ⟨hg, hact⟩ | ⟨hempty, _⟩
        · refine hload.keep (by rw [h.stop]; exact id) ?_ (by rw [hself]; exact hg)
            (by rw [hself]; exact h.committed) (by rw [hself, hact, h.workers]; exact id)
          rcases h.job i with hj | ⟨_, hj, _⟩
          · rw [hj]; exact hload.task
          · exact hj
        · have hmem := (hp.holders l).mpr href
          rw [hempty] at hmem
          exact absurd hmem (Finset.notMem_empty l)
      · intro hd
        rw [hself]
        obtain ⟨hd', hpc, hw⟩ := h.duty l hlk hd
        exact ⟨hd', hw, fun _ => by rw [hpc]; exact id⟩ }

theorem Inv.resolve (h : Inv s) (hp : Places s') (hr : Resolves s s' k t x pc) : Inv s' := by
  refine h.act hp ?_ ?_
  · intro u
    by_cases hu : u = t
    · subst hu; exact .inr (hr.part h)
    · exact .inl (hr.away hu)
  · intro i hi
    rcases hr.job i with hsame | ⟨_, hti, _⟩
    · rw [hsame] at hi
      refine (h.orphan i hi).keep hsame (by rw [hr.place]) (fun u _ => by rw [hr.workers]) ?_
      intro u hu
      exact nomatch hi.symm.trans hu
    · exact nomatch hi.symm.trans hti

theorem target_eq {pc₀ pc : CancelPc T} (h₀ : pc₀.target = some t) (h : ∀ u, pc.target = some u → u = t) (u : T)
    (hu : pc₀.target = some u ∨ pc.target = some u) : u = t := by
  rcases hu with hu | hu
  · exact Option.some.inj (hu.symm.trans h₀)
  · exact h u hu

section

variable (h : Inv s) {x : Task V W K}

include h

theorem Inv.resolver (hpc : s.cancellers k = pc) (ht : pc.target = some t) : CancelOk s k pc := by
  subst hpc
  exact (h.part t).cancel k ht

theorem Inv.observe {g : Gate K} {old : CancelPc T} (hpc : s.cancellers k = old) (hp : Places s')
    (htasks : s'.tasks = update s.tasks t { s.tasks t with gate := g })
    (hcancellers : s'.cancellers = update s.cancellers k pc) (hjobs : s'.jobs = s.jobs)
    (hworkers : s'.workers = s.workers) (hstop : s'.stopRequested = s.stopRequested) (hplace : s'.place = s.place)
    (htarget : ∀ u, old.target = some u ∨ pc.target = some u → u = t) (hok : CancelOk s' k pc)
    (hholders : ∀ l, l ∈ g.holders ↔ (if l = k then pc.ref else (s.cancellers l).ref) = some t)
    (haborts : old.aborts = some t → pc.aborts = some t) (hwake : ∀ phase, old ≠ .wake t phase) : Inv s' := by
  subst hpc
  have hself : s'.tasks t = { s.tasks t with gate := g } := by rw [htasks, update_self]
  have hother : ∀ l, l ≠ k → s'.cancellers l = s.cancellers l := fun l hl => by
    rw [hcancellers, update_of_ne hl]
  have hwait : ∀ i, SameWait i (s.tasks t) { s.tasks t with gate := g } := fun i =>
    ⟨id, id, rfl, rfl, rfl, rfl, rfl, rfl, rfl, rfl⟩
  refine h.resolve hp {
    tasks := htasks
    cancellers := hcancellers
    workers := hworkers
    stop := hstop
    place := hplace
    job := fun i => .inl (by rw [hjobs])
    target := htarget
    ok := hok
    holders := hholders
    registered := rfl
    history := { (h.part t).history with }
    task := ?_
    keeps := fun i _ _ _ => ⟨id, fun _ => id, fun _ => hwait i⟩
    committed := id
    duty := fun l _ hd => ⟨hd, rfl, fun i _ => hwait i⟩
    generation := .inl ⟨rfl, rfl⟩ }
  refine (h.part t).task.keep (a := (s.tasks t).activeJob) hself (by rw [hstop]; exact id) id
    (fun i _ => ⟨by rw [hjobs], id⟩) ?_ ?_
  · intro i hr
    refine hr.keep (by rw [hself]) (fun ht => by rw [hjobs, hplace]; exact ⟨ht, id, rfl⟩)
      (fun u _ _ => by rw [hworkers]) ?_
    intro l hl
    by_cases hlk : l = k
    · subst hlk; rw [hcancellers, update_self]; exact haborts hl
    · rw [hother l hlk]; exact hl
  · intro i hr
    refine hr.keep (by rw [hself]) (fun ht => by rw [hjobs]; exact ht) (fun u _ _ _ => by rw [hworkers]) ?_
    intro l phase hl
    refine hother l ?_
    rintro rfl
    exact hwake phase hl

theorem Inv.same_holders {old : CancelPc T} (hpc : s.cancellers k = old) (href : pc.ref = old.ref) (l : K) :
    l ∈ (s.tasks t).gate.holders ↔ (if l = k then pc.ref else (s.cancellers l).ref) = some t := by
  rw [(h.part t).holders l]
  by_cases hl : l = k
  · subst hl; rw [if_pos rfl, href, hpc]
  · rw [if_neg hl]

theorem Inv.finish_holders (hpc : pc.ref = none) (l : K) :
    l ∈ ((s.tasks t).gate.finish k).holders ↔ (if l = k then pc.ref else (s.cancellers l).ref) = some t := by
  rw [Gate.finish_holders, Finset.mem_erase, (h.part t).holders l]
  by_cases hl : l = k
  · subst hl; simp [hpc]
  · simp [hl]

theorem Inv.goOn {old : CancelPc T} (hpc : s.cancellers k = old)
    (htarget : ∀ u, old.target = some u ∨ pc.target = some u → u = t) (hok : CancelOk (s.setCanceller k pc) k pc)
    (href : pc.ref = old.ref) (haborts : old.aborts = none) (hwake : ∀ phase, old ≠ .wake t phase) :
    Inv (s.setCanceller k pc) :=
  h.observe (g := (s.tasks t).gate) hpc (h.places.same (samePlaces_setCanceller s k pc))
    (update_eq_self ..).symm rfl rfl rfl rfl rfl htarget hok (h.same_holders hpc href)
    (by rw [haborts]; exact nofun) hwake

theorem Inv.goFrom {old : CancelPc T} (hpc : s.cancellers k = old) (hold : old.target = some t)
    (htarget : pc.target = some t) (hok : CancelOk (s.setCanceller k pc) k pc) (href : pc.ref = old.ref)
    (haborts : old.aborts = none) (hwake : ∀ phase, old ≠ .wake t phase) : Inv (s.setCanceller k pc) :=
  h.goOn hpc (target_eq hold fun _ hu => Option.some.inj (hu.symm.trans htarget)) hok href haborts hwake

/-! ## Up to the compare-and-swap -/

theorem send_inv (hpc : s.cancellers k = .idle) (hs : Sent s t expected) : Inv (s.setCanceller k (.enter t expected)) := by
  refine h.goOn (t := t) hpc ?_ hs rfl rfl (by simp)
  rintro u (hu | hu)
  · cases hu
  · exact (Option.some.inj hu).symm

theorem enter_resolver_inv (hpc : s.cancellers k = .enter t expected) : Inv (match (s.tasks t).gate.tryBegin k with
      | some gate => (s.setTask t { s.tasks t with gate := gate }).setCanceller k (.check t expected)
      | none => s.setCanceller k .idle) := by
  have hok := h.resolver hpc rfl
  split
  · rename_i gate hg
    refine h.observe (g := gate) hpc ?_ rfl rfl rfl rfl rfl rfl
      (target_eq rfl fun u hu => (Option.some.inj hu).symm) ?_ ?_ (by rintro ⟨⟩) (by simp)
    · refine h.places.same (SamePlaces.trans ?_ (samePlaces_setCanceller _ _ _))
      exact samePlaces_setTask rfl
    · refine Sent.keep hok id (.inl ?_)
      show ((s.setTask t _).tasks t).generation = _ ∧ (_ → ((s.setTask t _).tasks t).pc.committed = true)
      rw [setTask_self]
      exact ⟨rfl, id⟩
    · intro l
      rw [Gate.tryBegin_holders hg, Finset.mem_insert, (h.part t).holders l]
      by_cases hl : l = k
      · subst hl; simp [CancelPc.ref]
      · simp [hl]
  · exact h.goOn hpc (target_eq rfl fun u hu => by cases hu) trivial rfl rfl (by simp)

theorem cancelCheck_inv (hpc : s.cancellers k = .check t expected) : Inv (cancelCheck s k t expected) := by
  have hok := h.resolver hpc rfl
  simp only [cancelCheck]
  split
  · rename_i j ha
    split
    · rename_i hc
      simp only [Bool.and_eq_true, Bool.or_eq_true, decide_eq_true_eq] at hc
      obtain ⟨⟨⟨he, _⟩, _⟩, ht⟩ := hc
      refine h.goFrom hpc rfl rfl ⟨ht, rfl, .inl ha, ?_⟩ rfl rfl (by simp)
      -- A stop resolver is there because of the stop, a token's because the task has committed its wait.
      rcases he with he | he
      · exact .inl (hok.1 he)
      · exact .inr ((hok.2 _ he).2 rfl)
    · exact h.goFrom hpc rfl rfl trivial rfl rfl (by simp)
  · exact h.goFrom hpc rfl rfl trivial rfl rfl (by simp)

theorem recheck_inv (hpc : s.cancellers k = .recheck t j generation) : Inv (recheck s k t j generation) := by
  have hok := h.resolver hpc rfl
  simp only [recheck]
  split
  · exact h.goFrom hpc rfl rfl { (show Loaded s t j generation from hok) with } rfl rfl (by simp)
  · exact h.goFrom hpc rfl rfl trivial rfl rfl (by simp)

theorem Inv.task_of_held (hj : s.place j = .task u) : (s.jobs j).task = none ∨ (s.jobs j).task = some u := by
  have hh := (h.places.task u j).mpr hj
  have hk := (h.part u).task
  cases hpc : (s.tasks u).pc <;> rw [hpc] at hh hk <;> cases hh
  case prepare => exact .inl hk.2.1
  case close | publish => exact .inr hk.2.2.1.task
  case submit | rollback | rollbackDrain => exact .inr hk.1.task
  case release => exact hk.2.2.1

theorem Inv.withdrawable_of_loaded (hl : Loaded s t j generation)
    (hj : s.place j = .task u) : u = t ∧ (∃ error, (s.tasks t).pc = .submit j ∨ (s.tasks t).pc = .rollback j error ∨
      (s.tasks t).pc = .rollbackDrain j error) ∧ (s.jobs j).Carries t (s.tasks t) ∧
      (s.tasks t).Withdrawable s.stopRequested j (s.jobs j) := by
  have hu : u = t := by
    rcases h.task_of_held hj with hn | hs
    · exact nomatch hn.symm.trans hl.task
    · exact Option.some.inj (hs.symm.trans hl.task)
  subst hu
  have hactive : (s.tasks u).activeJob = some j := by
    refine hl.active.resolve_right ?_
    rintro ⟨w, hw⟩
    refine nomatch hj.symm.trans ((h.places.worker w j).mp ?_)
    rcases hw with hw | hw <;> rw [hw] <;> rfl
  have hh := (h.places.task u j).mpr hj
  have hk := (h.part u).task
  refine ⟨rfl, ?_⟩
  cases hpc : (s.tasks u).pc <;> rw [hpc] at hh hk <;> cases hh
  case prepare | close | publish | release => exact nomatch hk.1.activeJob.symm.trans hactive
  case submit => exact ⟨⟨.EINVAL, .inl rfl⟩, hk.1, hk.2⟩
  case rollback error => exact ⟨⟨error, .inr (.inl rfl)⟩, hk.1, hk.2⟩
  case rollbackDrain error => exact ⟨⟨error, .inr (.inr rfl)⟩, hk.1, hk.2⟩

end

/-! ## The compare-and-swaps -/

theorem WorkerOk.abort_running {w : W} {pc : WorkerPc} (h : WorkerOk w j y x pc)
    (hr : y.state = .running) : WorkerOk w j { y with state := .aborted } x pc := by
  have hserving : Serving w j y x → Serving w j { y with state := .aborted } x := fun hs =>
    { hs with state := nofun }
  cases pc with
  | idle => exact h
  | claim i =>
    rcases h with ho | ha
    · exact nomatch ho.state.symm.trans hr
    · exact .inr rfl
  | discard i => rfl
  | noteActive i | complete i | finish i => exact ⟨hserving h.1, h.2.1, .inr rfl⟩
  | calling i => exact ⟨hserving h.1, h.2.1, h.2.2.1, .inr rfl⟩
  | storeResult i | storeCancelled i => exact ⟨hserving h.1, h.2⟩
  | wake i phase => cases phase <;> exact ⟨nofun, h.2⟩
  | release i phase =>
    cases phase with
    | cas => exact nofun
    | close | drain | push => exact ⟨nofun, h.2⟩

theorem setJob_of_ne {i : Nat} (hi : i ≠ j) (pc : CancelPc T) :
    ((s.setJob j y).setCanceller k pc).jobs i = s.jobs i := update_of_ne hi _ _

theorem setCanceller_self (s : State T V W K) (k : K) (pc : CancelPc T) : (s.setCanceller k pc).cancellers k = pc :=
  update_self ..

theorem setCanceller_of_ne {l : K} (hl : l ≠ k) (pc : CancelPc T) :
    (s.setCanceller k pc).cancellers l = s.cancellers l := update_of_ne hl _ _

theorem abortRunning_inv (h : Inv s) (hpc : s.cancellers k = .abortRunning t j generation) :
    Inv (abortRunning s k t j) := by
  have hl : Loaded s t j generation := h.resolver hpc rfl
  unfold abortRunning
  split
  · rename_i hst
    have hnt : ∀ u, s.place j ≠ .task u := by
      intro u hj
      obtain ⟨_, _, _, hw⟩ := h.withdrawable_of_loaded hl hj
      rcases hw.offered with ⟨_, hq, _⟩ | ⟨_, ha, _⟩
      · cases hq.symm.trans hst
      · cases ha.symm.trans hst
    have hself : ((s.setJob j { s.jobs j with state := .aborted }).setCanceller k (.done t)).jobs j =
        { s.jobs j with state := .aborted } := update_self ..
    have htask : ∀ i, (((s.setJob j { s.jobs j with state := .aborted }).setCanceller k (.done t)).jobs i).task =
        (s.jobs i).task := by
      intro i
      by_cases hi : i = j
      · subst hi; rw [hself]
      · rw [setJob_of_ne hi]
    refine h.resolve (t := t) (x := s.tasks t) (h.places.same ((samePlaces_setJob s j _).trans
        (samePlaces_setCanceller _ _ _))) {
      tasks := (update_eq_self ..).symm
      cancellers := rfl
      workers := rfl
      stop := rfl
      place := rfl
      job := ?_
      target := by rw [hpc]; exact target_eq rfl fun u hu => (Option.some.inj hu).symm
      ok := trivial
      holders := h.same_holders hpc rfl
      registered := rfl
      history := (h.part t).history
      task := ?_
      keeps := fun i _ _ _ => .refl i _
      committed := id
      duty := fun l _ hd => ⟨hd, rfl, fun i _ => .refl i _⟩
      generation := .inl ⟨rfl, rfl⟩ }
    · intro i
      by_cases hi : i = j
      · subst hi
        refine .inr ⟨hl.task, (htask i).trans hl.task, fun u _ => hnt u, ?_⟩
        have hk := h.job i
        have hplace : ∀ y, ((s.setJob i y).setCanceller k (.done t)).place i = s.place i := fun _ => rfl
        simp only [JobOk, hplace] at hk ⊢
        rw [hself]
        cases hp : s.place i <;> simp only [hp] at hk ⊢
        case fresh | pool => exact hk
        case queue =>
          obtain ⟨u, hu, href, _⟩ := hk
          exact ⟨u, hu, href, .inr trivial⟩
        case worker w =>
          obtain ⟨u, hu, href, hok⟩ := hk
          exact ⟨u, hu, href, hok.abort_running hst⟩
      · exact .inl (setJob_of_ne hi _)
    · refine (h.part t).task.keep (g := (s.tasks t).gate) (a := (s.tasks t).activeJob) rfl id id ?_ ?_ ?_
      · intro i hi
        refine ⟨setJob_of_ne ?_ _, id⟩
        rintro rfl
        exact hnt t ((h.places.task t i).mp hi)
      · intro i hr
        refine hr.keep rfl (fun hti => ⟨(htask i).trans hti, ?_, rfl⟩) (fun _ _ _ => rfl) ?_
        · intro hq
          have hi : i ≠ j := by
            rintro rfl
            cases hq.symm.trans hst
          rw [setJob_of_ne hi]
          exact hq
        · intro l hl'
          rw [setCanceller_of_ne]
          · exact hl'
          · rintro rfl
            rw [hpc] at hl'
            cases hl'
      · intro i hr
        refine hr.keep rfl (htask i).trans (fun _ _ _ _ => rfl) ?_
        intro l phase hl'
        refine setCanceller_of_ne ?_ _
        rintro rfl
        cases hpc.symm.trans hl'
  · exact h.goFrom hpc rfl rfl trivial rfl rfl (by simp)

theorem WorkerOk.claim_of_queued {w : W} {pc : WorkerPc} (h : WorkerOk w j y x pc)
    (hq : y.state = .queued) : (∃ i, pc = .claim i) ∧ Offered j y x := by
  cases pc with
  | idle => exact h.elim
  | claim i =>
    rcases h with ho | ha
    · exact ⟨⟨i, rfl⟩, ho⟩
    · exact nomatch hq.symm.trans ha
  | discard i => exact nomatch hq.symm.trans h
  | noteActive i | calling i | complete i | finish i | storeResult i | storeCancelled i => exact absurd hq h.1.state
  | wake i phase => cases phase <;> exact absurd hq h.1
  | release i phase =>
    cases phase with
    | cas => exact absurd hq h
    | close | drain | push => exact absurd hq h.1

theorem Inv.offered_of_queued (h : Inv s) (ht : (s.jobs j).task = some t) (hq : (s.jobs j).state = .queued)
    (hnt : ∀ u, s.place j ≠ .task u) : Offered j (s.jobs j) (s.tasks t) ∧
      (s.place j = .queue ∨ ∃ w, s.place j = .worker w ∧ ∃ i, s.workers w = .claim i) := by
  have hk := h.job j
  simp only [JobOk] at hk
  cases hp : s.place j <;> rw [hp] at hk
  case fresh | pool => cases (show (s.jobs j).task = none from hk).symm.trans ht
  case task u => exact absurd hp (hnt u)
  case queue =>
    obtain ⟨u, hu, _, hok⟩ := hk
    cases ht.symm.trans hu
    exact ⟨hok.resolve_right fun ha => (by cases hq.symm.trans ha), .inl rfl⟩
  case worker w =>
    obtain ⟨u, hu, _, hok⟩ := hk
    cases ht.symm.trans hu
    obtain ⟨hc, ho⟩ := hok.claim_of_queued hq
    exact ⟨ho, .inr ⟨w, rfl, hc⟩⟩

theorem Task.History.abort (h : x.History) (hu : x.Unstarted) {duty : Duty W K} :
    Task.History { x with duty := duty, aborted := update x.aborted x.call true } := by
  refine { h with aborted := ?_, future := ?_ }
  · intro n ha
    by_cases hn : n = x.call
    · subst hn; exact hu.1
    · exact h.aborted n (by simpa [update_of_ne hn] using ha)
  · intro n hn
    simpa [update_of_ne (Nat.ne_of_gt hn)] using h.future n hn

theorem taskOk_aborting (hx : s'.tasks t = x) (hu : x.Unresolved j) (hd : x.duty = .canceller k)
    (hk : (s'.cancellers k).aborts = some t) : TaskOk s' t x.pc := by
  have hr : Responsible s' t j := by
    simp only [Responsible, hx, hd]
    exact hk
  rcases hu.2 with ⟨hp, _⟩ | ⟨hp, _⟩ <;> rw [hp]
  · exact .inl ⟨hx ▸ hu, hr⟩
  · exact .inl ⟨hx ▸ hu, hr⟩

theorem abortQueued_inv (h : Inv s) (hpc : s.cancellers k = .abortQueued t j generation) :
    Inv (abortQueued s k t j generation) := by
  have hl : Loaded s t j generation := h.resolver hpc rfl
  simp only [abortQueued]
  split
  · rename_i hq
    -- The task has either published its wait without committing it, after a stop, or it waits for the job.
    have hcases : (∃ error, (s.tasks t).pc = .submit j ∨ (s.tasks t).pc = .rollback j error ∨
          (s.tasks t).pc = .rollbackDrain j error) ∧ s.place j = .task t ∧ s.stopRequested = true ∧
          (s.jobs j).Carries t (s.tasks t) ∧ (s.tasks t).Withdrawable s.stopRequested j (s.jobs j) ∨
        (∀ u, s.place j ≠ .task u) ∧ Offered j (s.jobs j) (s.tasks t) ∧
          (s.place j = .queue ∨ ∃ w, s.place j = .worker w ∧ ∃ i, s.workers w = .claim i) := by
      by_cases hnt : ∃ u, s.place j = .task u
      · obtain ⟨u, hj⟩ := hnt
        obtain ⟨rfl, hp, hcar, hw⟩ := h.withdrawable_of_loaded hl hj
        refine .inl ⟨hp, hj, hl.committed.resolve_right ?_, hcar, hw⟩
        obtain ⟨error, hp | hp | hp⟩ := hp <;> rw [hp] <;> rintro ⟨⟩
      · have hnt : ∀ u, s.place j ≠ .task u := fun u hj => hnt ⟨u, hj⟩
        exact .inr ⟨hnt, h.offered_of_queued hl.task hq hnt⟩
    obtain ⟨hd, he, hun⟩ : (s.tasks t).duty = .offered ∧ (s.tasks t).wakeError = none ∧ (s.tasks t).Unstarted := by
      rcases hcases with ⟨_, _, _, _, hw⟩ | ⟨_, ho, _⟩
      · obtain ⟨hd, _, he, _⟩ := hw.offered.resolve_right fun ha => by cases hq.symm.trans ha.2.1
        exact ⟨hd, he, hw.unstarted⟩
      · exact ⟨ho.duty, ho.calm, ho.blank.1⟩
    have hnc : ∀ l, (s.tasks t).duty ≠ .canceller l := fun l hl' => by cases hd.symm.trans hl'
    generalize hx : ({ s.tasks t with
      duty := .canceller k
      aborted := update (s.tasks t).aborted (s.tasks t).call true } : Task V W K) = x
    generalize hs' : ((s.setJob j { s.jobs j with state := .aborted }).setTask t x).setCanceller k (.store t) = s'
    have hself : s'.tasks t = x := by rw [← hs']; exact setTask_self ..
    have hjob : s'.jobs j = { s.jobs j with state := .aborted } := by rw [← hs']; exact update_self ..
    have hother : ∀ i, i ≠ j → s'.jobs i = s.jobs i := fun i hi => by
      rw [← hs']; exact update_of_ne hi _ _
    have hplace : s'.place = s.place := by rw [← hs']; rfl
    have hworkers : s'.workers = s.workers := by rw [← hs']; rfl
    have hplaces : Places s' := by
      rw [← hs']
      refine h.places.same (((samePlaces_setJob s j _).trans (samePlaces_setTask ?_)).trans
        (samePlaces_setCanceller _ _ _))
      rw [← hx]
      rfl
    suffices hr : Resolves s s' k t x (.store t) from h.resolve hplaces hr
    refine {
      tasks := by rw [← hs']; rfl
      cancellers := by rw [← hs']; rfl
      workers := hworkers
      stop := by rw [← hs']; rfl
      place := hplace
      job := ?_
      target := by rw [hpc]; exact target_eq rfl fun u hu => (Option.some.inj hu).symm
      ok := ?_
      holders := ?_
      registered := by rw [← hx]
      history := by rw [← hx]; exact (h.part t).history.abort hun
      task := ?_
      keeps := ?_
      committed := by rw [← hx]; exact id
      duty := fun l _ hl' => absurd hl' (hnc l)
      generation := by rw [← hx]; exact .inl ⟨rfl, rfl⟩ }
    · intro i
      by_cases hi : i = j
      · subst hi
        refine .inr ⟨hl.task, by rw [hjob]; exact hl.task, ?_, ?_⟩
        · intro u hu hj
          rcases hcases with ⟨_, hj', _⟩ | ⟨hnt, _⟩
          · exact hu (Place.task.inj (hj.symm.trans hj'))
          · exact hnt u hj
        · have hk := h.job i
          simp only [JobOk, hplace, hjob] at hk ⊢
          rcases hcases with ⟨_, hj, _⟩ | ⟨_, _, hj | ⟨w, hj, n, hc⟩⟩ <;> rw [hj] at hk ⊢
          · trivial
          · obtain ⟨u, hu, href, _⟩ := hk
            exact ⟨u, hu, href, .inr trivial⟩
          · obtain ⟨u, hu, href, _⟩ := hk
            refine ⟨u, hu, href, ?_⟩
            rw [hworkers, hc]
            exact .inr rfl
      · exact .inl (hother i hi)
    · refine ⟨by rw [hself, ← hx], ?_⟩
      rw [hself, ← hx]
      rcases hcases with ⟨hp, _, hstop, _⟩ | ⟨_, ho, _⟩
      · refine .inr ⟨by rw [← hs']; exact hstop, ?_⟩
        obtain ⟨error, hp | hp | hp⟩ := hp <;> rw [show (s.tasks t).pc = _ from hp] <;> rfl
      · exact .inl ⟨⟨j, ho.unresolved⟩, he, hun⟩
    · rw [← hx]
      exact h.same_holders hpc rfl
    · rcases hcases with ⟨hp, _, hstop, hcar, hw⟩ | ⟨_, ho, _⟩
      · have hok : (s'.jobs j).Carries t (s'.tasks t) ∧ (s'.tasks t).Withdrawable s'.stopRequested j (s'.jobs j) := by
          rw [hjob, hself, ← hx]
          exact ⟨{ hcar with }, { hw with
            offered := .inr ⟨by rw [← hs']; exact hstop, rfl, .inr ⟨k, rfl⟩⟩ }⟩
        obtain ⟨error, hp | hp | hp⟩ := hp <;> rw [← hx, show (s.tasks t).pc = _ from hp] <;> exact hok
      · refine taskOk_aborting (j := j) hself ?_ (k := k) (by rw [← hx]) ?_
        · rw [← hx]; exact ho.unresolved
        · rw [← hs', setCanceller_self]; rfl
    · intro i hi _ _
      have hij : i ≠ j := by
        rintro rfl
        rw [hjob] at hi
        have hst := congrArg Job.state hi
        cases hst.trans hq
      refine .leftover (fun hw => ?_) (by rw [← hx]; exact id)
      rcases hcases with ⟨hp, _⟩ | ⟨_, ho, _⟩
      · obtain ⟨error, hp | hp | hp⟩ := hp <;> rcases hw.1 with ha | ha <;> cases hp.symm.trans ha
      · exact hij (ho.unresolved.awaits_eq hw.1)
  · exact h.goFrom hpc rfl rfl { hl with } rfl rfl (by simp)

/-! ## The wake-up -/

theorem Inv.conclude {old : CancelPc T} (h : Inv s) (hp : Places ((s.setTask t x).setCanceller k pc))
    (hpc : s.cancellers k = old) (hold : old.target = some t) (htarget : ∀ u, pc.target = some u → u = t)
    (hd : (s.tasks t).duty = .canceller k) (hok : CancelOk ((s.setTask t x).setCanceller k pc) k pc)
    (href : pc.ref = old.ref) (hgate : x.gate.holders = (s.tasks t).gate.holders)
    (hreg : x.registered = (s.tasks t).registered)
    (hact : x.activeJob = (s.tasks t).activeJob ∧ x.generation = (s.tasks t).generation ∨
      x.activeJob = none ∧ (s.tasks t).gate.holders = ∅ ∧ (s.tasks t).generation ≤ x.generation)
    (hcom : (s.tasks t).pc.committed = true → x.pc.committed = true) (hh : x.History)
    (ht : TaskOk ((s.setTask t x).setCanceller k pc) t x.pc) : Inv ((s.setTask t x).setCanceller k pc) :=
  h.resolve hp {
    tasks := rfl
    cancellers := rfl
    workers := rfl
    stop := rfl
    place := rfl
    job := fun i => .inl rfl
    target := by rw [hpc]; exact target_eq hold htarget
    ok := hok
    holders := by rw [hgate]; exact h.same_holders hpc href
    registered := hreg
    history := hh
    task := ht
    keeps := fun i _ _ _ => by
      refine .leftover (fun hw => hw.2 k hd) ?_
      rcases hact with ⟨ha, _⟩ | ⟨ha, _⟩ <;> rw [ha]
      · exact id
      · exact nofun
    committed := hcom
    duty := fun l hl hl' => absurd (Duty.canceller.inj (hl'.symm.trans hd)) hl
    generation := hact.imp (fun ⟨ha, hg⟩ => ⟨hg, ha⟩) And.right }

theorem TaskOk.withdrawn {e : Option Errno} {n : WakeWord} {d : Duty W K}
    (h : TaskOk s t (s.tasks t).pc) (hwd : (s.tasks t).pc.withdrawn = true) (hstop : s.stopRequested = true)
    (hd : (s.tasks t).duty = .canceller k) (hn : (s.tasks t).node ≠ .armed → n ≠ .armed)
    (hd' : d = .nobody ∨ d = .canceller k) (hx : s'.tasks t = { s.tasks t with wakeError := e, node := n, duty := d })
    (hjobs : s'.jobs = s.jobs) (hstop' : s'.stopRequested = s.stopRequested) : TaskOk s' t (s.tasks t).pc := by
  have hcalm : (s.tasks t).Calm s.stopRequested → (s'.tasks t).Calm s'.stopRequested := by
    intro hc
    rw [hx, hstop']
    exact { hc with duty := hd'.imp_right fun hk => ⟨k, hk, hstop⟩ }
  have hwith : ∀ j, (s.tasks t).Withdrawable s.stopRequested j (s.jobs j) →
      (s'.tasks t).Withdrawable s'.stopRequested j (s'.jobs j) := by
    intro j hw
    obtain ⟨_, ha, _⟩ := hw.offered.resolve_left fun ⟨ho, _⟩ => nomatch hd.symm.trans ho
    rw [hx, hjobs, hstop']
    exact { hw with
      node := ⟨hw.node.1, hn hw.node.2⟩
      offered := .inr ⟨hstop, ha, hd'.imp_right fun hk => ⟨k, hk⟩⟩ }
  have hcarries : ∀ j, (s.jobs j).Carries t (s.tasks t) → (s'.jobs j).Carries t (s'.tasks t) := by
    intro j hc
    rw [hx, hjobs]
    exact { hc with }
  cases hpc : (s.tasks t).pc <;> rw [hpc] at h hwd <;> cases hwd
  case idle | returned | enter => exact ⟨hcalm h.1, by rw [hx]; exact h.2⟩
  case submit j | rollback j error | rollbackDrain j error => exact ⟨hcarries j h.1, hwith j h.2⟩
  case release j error phase => exact ⟨hcalm h.1, by rw [hx, hjobs]; exact h.2⟩

theorem store_inv (h : Inv s) (hpc : s.cancellers k = .store t) (hx : x = { s.tasks t with wakeError := some .ECANCELED })
    (hp : Places ((s.setTask t x).setCanceller k (.finish t))) : Inv ((s.setTask t x).setCanceller k (.finish t)) := by
  obtain ⟨hd, hcases⟩ := h.resolver hpc rfl
  have hself : ((s.setTask t x).setCanceller k (.finish t)).tasks t = x := setTask_self ..
  subst hx
  refine h.conclude hp hpc rfl (fun u hu => (Option.some.inj hu).symm) hd ?_ rfl rfl rfl (.inl ⟨rfl, rfl⟩)
    id { (h.part t).history with } ?_
  · simp only [CancelOk]
    rw [hself]
    exact ⟨hd, hcases.imp (fun ⟨hu, _, hun⟩ => ⟨hu, .inl hun⟩) id⟩
  · rcases hcases with ⟨⟨j, hu⟩, _⟩ | ⟨hstop, hwd⟩
    · exact taskOk_aborting (j := j) hself hu hd (by rw [setCanceller_self]; rfl)
    · exact (h.part t).task.withdrawn (k := k) hwd hstop hd id (.inr hd) hself rfl rfl

theorem finish_inv (h : Inv s) (hpc : s.cancellers k = .finish t) (hx : x = { s.tasks t with gate := (s.tasks t).gate.finish k })
    (hp : Places ((s.setTask t x).setCanceller k (.wake t .prepare))) :
    Inv ((s.setTask t x).setCanceller k (.wake t .prepare)) := by
  have hok := h.resolver hpc rfl
  have hself : ((s.setTask t x).setCanceller k (.wake t .prepare)).tasks t = x := setTask_self ..
  subst hx
  refine h.observe (g := (s.tasks t).gate.finish k) hpc hp rfl rfl rfl rfl rfl rfl
    (target_eq rfl fun u hu => (Option.some.inj hu).symm) ?_ (h.finish_holders rfl) (fun _ => rfl) (by simp)
  simp only [CancelOk]
  rw [hself]
  exact hok

theorem done_inv (h : Inv s) (hpc : s.cancellers k = .done t) (hx : x = { s.tasks t with gate := (s.tasks t).gate.finish k })
    (hp : Places ((s.setTask t x).setCanceller k .idle)) : Inv ((s.setTask t x).setCanceller k .idle) := by
  subst hx
  exact h.observe (g := (s.tasks t).gate.finish k) hpc hp rfl rfl rfl rfl rfl rfl
    (target_eq rfl fun u hu => by cases hu) trivial (h.finish_holders rfl) (by rintro ⟨⟩) (by simp)

theorem TaskOk.node_of_withdrawn (h : TaskOk s t (s.tasks t).pc) (hwd : (s.tasks t).pc.withdrawn = true)
    (hlive : (s.tasks t).nodeLive = true) : (s.tasks t).node ≠ .armed := by
  cases hpc : (s.tasks t).pc <;> rw [hpc] at h hwd <;> cases hwd
  case idle | returned | enter | release => exact nomatch h.1.node.symm.trans hlive
  case submit | rollback | rollbackDrain => exact h.2.node.2

theorem wakeStep_withdrawn (hn : (s.tasks t).nodeLive = true → (s.tasks t).node ≠ .armed) :
    ∃ n, ((s.tasks t).node ≠ .armed → n ≠ WakeWord.armed) ∧ wakeStep s t .prepare =
      some (s.setTask t { s.tasks t with node := n, duty := .nobody }, none) := by
  cases hlive : (s.tasks t).nodeLive with
  | false => exact ⟨(s.tasks t).node, id, by simp [wakeStep, hlive]⟩
  | true =>
    refine ⟨(s.tasks t).node.prepareWake.1, fun _ => ?_, ?_⟩
    · cases hw : (s.tasks t).node <;> simp [WakeWord.prepareWake]
    · cases hw : (s.tasks t).node <;> simp_all [wakeStep, WakeWord.prepareWake]

theorem taskOk_reinjected {phase : Waking} (hx : s'.tasks t = x) (hv : x.Waking j) (hd : x.duty = .canceller k)
    (hk : s'.cancellers k = .wake t phase) (hp : phase ≠ .prepare) : TaskOk s' t x.pc := by
  rw [hv.2.1]
  refine .inr ⟨hx ▸ hv, ?_⟩
  simp only [Reinjecting, hx, hd]
  exact ⟨phase, hk, hp⟩

theorem wake_resolver_inv {phase : Waking} {next : Option Waking} {s₁ : State T V W K} (h : Inv s)
    (hpc : s.cancellers k = .wake t phase) (hs : wakeStep s t phase = some (s₁, next)) (hnext : pc = match next with
      | some phase => .wake t phase
      | none => .idle) (hp : Places (s₁.setCanceller k pc)) : Inv (s₁.setCanceller k pc) := by
  have hok := h.resolver hpc rfl
  have hself : ∀ x pc, ((s.setTask t x).setCanceller k pc).tasks t = x := fun x _ => setTask_self s t x
  have hwake : ∀ phase u, (CancelPc.wake t phase).target = some u → u = t := fun _ u hu => (Option.some.inj hu).symm
  have hidle : ∀ u, (CancelPc.idle : CancelPc T).target = some u → u = t := fun u hu => by cases hu
  have hh := (h.part t).history
  have hk := (h.part t).task
  cases phase with
  | prepare =>
    obtain ⟨hd, ⟨⟨j, hun⟩, hset⟩ | ⟨hstop, hwd⟩⟩ := hok
    · rcases hun.2 with ⟨hp', _⟩ | ⟨hp', _⟩
      · cases (wakeStep_unarmed hun hp').symm.trans hs
        subst hnext
        refine h.conclude hp hpc rfl hidle hd trivial rfl rfl rfl (.inl ⟨rfl, rfl⟩) id { hh with } ?_
        rw [show (s.tasks t).pc = _ from hp']
        refine .inr ?_
        rw [hself]
        exact ⟨hun.1, rfl, rfl, hset⟩
      · cases (wakeStep_armed hun hp').symm.trans hs
        subst hnext
        have hv : Task.Waking { s.tasks t with node := .completedQueued } j := ⟨hun.1, hp', rfl⟩
        refine h.conclude hp hpc rfl (hwake _) hd ?_ rfl rfl rfl (.inl ⟨rfl, rfl⟩) id
          { hh with } (taskOk_reinjected (hself _ _) hv hd (setCanceller_self ..) (by simp))
        simp only [CancelOk]
        rw [hself]
        exact ⟨hd, ⟨j, hv⟩, hset⟩
    · obtain ⟨n, hn, heq⟩ := wakeStep_withdrawn (hk.node_of_withdrawn hwd)
      cases heq.symm.trans hs
      subst hnext
      refine h.conclude hp hpc rfl hidle hd trivial rfl rfl rfl (.inl ⟨rfl, rfl⟩) id { hh with } ?_
      exact hk.withdrawn (k := k) (e := (s.tasks t).wakeError) hwd hstop hd hn (.inl rfl) (hself _ _) rfl rfl
  | close =>
    obtain ⟨hd, ⟨j, hv⟩, hset⟩ := hok
    cases hs
    subst hnext
    refine h.conclude hp hpc rfl (hwake _) hd ?_ rfl rfl rfl (.inl ⟨rfl, rfl⟩) id { hh with }
      (taskOk_reinjected (j := j) (hself _ _) hv hd (setCanceller_self ..) (by simp))
    simp only [CancelOk]
    rw [hself]
    exact ⟨hd, ⟨j, hv⟩, hset⟩
  | drain =>
    obtain ⟨hd, ⟨j, hv⟩, hset⟩ := hok
    simp only [wakeStep] at hs
    split at hs
    · rename_i hdr
      cases hs
      subst hnext
      refine h.conclude hp hpc rfl (hwake _) hd ?_ rfl rfl rfl
        (.inr ⟨rfl, (Gate.drained_iff _).mp hdr, Nat.le_succ _⟩) id { hh with }
        (taskOk_reinjected (j := j) (hself _ _) hv hd (setCanceller_self ..) (by simp))
      simp only [CancelOk]
      rw [hself]
      exact ⟨hd, ⟨j, hv⟩, hset⟩
    · cases hs
  | run =>
    obtain ⟨hd, ⟨j, hv⟩, hset⟩ := hok
    cases (wakeStep_run hv).symm.trans hs
    subst hnext
    refine h.conclude hp hpc rfl hidle hd trivial rfl rfl rfl (.inl ⟨rfl, rfl⟩) (fun _ => rfl)
      (hh.resumed hv.2.1) ?_
    show TaskOk _ t .unregister
    rw [TaskOk, hself]
    exact ⟨hv.1, rfl, hset⟩

theorem cancelStep_inv (h : Inv s) (hs : cancelStep s k = some s') : Inv s' := by
  have hpl := h.places.same (cancelStep_same hs)
  simp only [cancelStep] at hs
  cases hp : s.cancellers k <;> rw [hp] at hs
  case idle => cases hs
  case enter t expected => cases hs; exact enter_resolver_inv h hp
  case check t expected => cases hs; exact cancelCheck_inv h hp
  case abortQueued t j generation => cases hs; exact abortQueued_inv h hp
  case recheck t j generation => cases hs; exact recheck_inv h hp
  case abortRunning t j generation => cases hs; exact abortRunning_inv h hp
  case store t => cases hs; exact store_inv h hp rfl hpl
  case finish t => cases hs; exact finish_inv h hp rfl hpl
  case done t => cases hs; exact done_inv h hp rfl hpl
  case wake t phase =>
    obtain ⟨⟨s₁, next⟩, hr, heq⟩ := Option.map_eq_some_iff.mp hs
    cases next with
    | none | some phase' => subst heq; exact wake_resolver_inv h hp hr rfl hpl

/-! ## The whole system -/

theorem requestStop_inv (h : Inv s) : Inv { s with stopRequested := true } := by
  refine h.act { h.places with } (fun t => .inl ⟨rfl, fun _ => rfl, fun _ _ => ⟨rfl, rfl⟩, fun _ _ _ _ => rfl,
    fun _ _ => rfl⟩) ?_
  intro j hj
  exact (h.orphan j hj).keep rfl rfl (fun _ _ => rfl) (fun t _ _ => .refl j _)

theorem step_inv {a : Action T V W K} (h : Inv s) (hs : step s a = some s') : Inv s' := by
  cases a with
  | call t valid => exact start_inv h hs
  | task t env => exact taskStep_inv h hs
  | worker w env => exact workerStep_inv h hs
  | requestStop => cases hs; exact requestStop_inv h
  | cancelToken k t =>
    simp only [step] at hs
    split at hs
    · rename_i generation hk hr
      cases hs
      refine send_inv h hk ⟨nofun, fun g hg => ?_⟩
      cases hg
      obtain ⟨hle, hc⟩ := (h.part t).registered _ hr
      exact ⟨hle, fun _ => hc⟩
    · cases hs
  | cancelStop k t =>
    simp only [step] at hs
    split at hs
    · rename_i hc
      simp only [Bool.and_eq_true, decide_eq_true_eq] at hc
      cases hs
      exact send_inv h hc.1.1 ⟨fun _ => hc.1.2, fun g hg => nomatch hg⟩
    · cases hs
  | canceller k => exact cancelStep_inv h hs

theorem init_places (maxBlockingJobs : Nat) : Places (State.init maxBlockingJobs : State T V W K) where
  pool _ := ⟨nofun, nofun⟩
  queue _ := ⟨nofun, nofun⟩
  task _ _ := ⟨nofun, nofun⟩
  worker _ _ := ⟨nofun, nofun⟩
  fresh j := ⟨fun _ => rfl, fun _ => Nat.zero_le j⟩
  poolNodup := List.nodup_nil
  queueNodup := List.nodup_nil
  balance _ := rfl
  outstanding j := by
    refine ⟨fun hj => absurd hj (Finset.notMem_empty j), ?_⟩
    rintro (hj | ⟨_, hj⟩) <;> cases hj
  pending := rfl
  bounded _ := Nat.zero_le _

theorem init_inv (maxBlockingJobs : Nat) : Inv (State.init maxBlockingJobs : State T V W K) where
  places := init_places maxBlockingJobs
  part _ :=
    { holders := fun k => ⟨fun hk => absurd hk (Finset.notMem_empty k), nofun⟩
      registered := fun _ => nofun
      history := ⟨fun _ => Nat.zero_le _, fun _ => nofun, fun _ => Nat.zero_le _, fun _ _ => ⟨rfl, rfl, rfl, rfl, rfl⟩,
        fun _ hn => absurd hn (Nat.not_lt_zero _), rfl⟩
      task := ⟨⟨rfl, rfl, rfl, .inl rfl⟩, .inl ⟨rfl, rfl⟩⟩
      job := fun _ => nofun
      cancel := fun _ => nofun }
  orphan _ _ := rfl

theorem reachable_inv {maxBlockingJobs : Nat} (h : Lib.Reachable step (State.init maxBlockingJobs) s) : Inv s :=
  h.induction (init_inv maxBlockingJobs) fun _ _ _ => step_inv

end Llam.Blocking
