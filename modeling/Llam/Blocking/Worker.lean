import Llam.Blocking.Caller

/-!
# The steps of a worker

A worker writes the job it holds and the task of that job. `Works` lists what such a step has to show, `Inv.work` puts the
invariant together from it. The steps after the wake-up, or after the job turned out to be aborted, are beside the wait of
the task (`Inv.beside`); the others serve it (`Inv.serve`). `workerStep_inv` goes through the program counters.
-/

namespace Llam.Blocking

open Llam.Wait Function

variable {T V W K : Type} [DecidableEq T] [DecidableEq W] [DecidableEq K] [Inhabited V] {s s' : State T V W K} {t : T}
  {w : W} {j : Nat} {x : Task V W K} {y : Job T V} {pc : WorkerPc} {x : Task V W K} {old : WorkerPc}

/-- A step of `w` on its job `j` of task `t` leaves the records `x` and `y` and goes on at `pc`. -/
structure Writes (s s' : State T V W K) (w : W) (j : Nat) (t : T) (x : Task V W K) (y : Job T V) (pc : WorkerPc) :
    Prop where
  tasks : s'.tasks = update s.tasks t x
  jobs : s'.jobs = update s.jobs j y
  workers : s'.workers = update s.workers w pc
  cancellers : s'.cancellers = s.cancellers
  stop : s'.stopRequested = s.stopRequested
  place : ∀ i, i ≠ j → s'.place i = s.place i
  taken : s'.place j = .worker w ∧ ∀ u, s.place j ≠ .task u
  free : ∀ i, (s.workers w).holds = some i → i = j
  owned : (s.jobs j).task = some t ∧ y.task = some t ∧ y.holdsTaskRef = true

/-- What such a step has to show. -/
structure Works (s s' : State T V W K) (w : W) (j : Nat) (t : T) (x : Task V W K) (y : Job T V) (pc : WorkerPc) :
    Prop extends Writes s s' w j t x y pc where
  ok : WorkerOk w j y x pc
  holders : x.gate.holders = (s.tasks t).gate.holders
  registered : x.registered = (s.tasks t).registered
  history : x.History
  task : TaskOk s' t x.pc
  keeps : ∀ i, i ≠ j → Keeps i (s.tasks t) x
  committed : (s.tasks t).pc.committed = true → x.pc.committed = true
  duty : ∀ k, (s.tasks t).duty = .canceller k → x.duty = .canceller k ∧ x.pc = (s.tasks t).pc ∧
    ∀ i, (s.tasks t).Awaits i → SameWait i (s.tasks t) x
  generation : x.generation = (s.tasks t).generation ∧
      (∀ i, (s.tasks t).activeJob = some i ∨
          (∃ u, s.workers u = .release i .close ∨ s.workers u = .release i .drain) →
        x.activeJob = some i ∨ ∃ u, s'.workers u = .release i .close ∨ s'.workers u = .release i .drain) ∨
    ((s.tasks t).gate.holders = ∅ ∧ (s.tasks t).generation ≤ x.generation)

theorem Works.away {u : T} (h : Works s s' w j t x y pc) (hu : u ≠ t) : Away s s' u where
  task := by rw [h.tasks, update_of_ne hu]
  stop := by rw [h.stop]; exact id
  job := by
    intro i hi
    by_cases hij : i = j
    · subst hij
      rw [h.jobs, update_self] at hi
      rcases hi with hp | ht | ht
      · exact absurd hp (h.taken.2 u)
      · exact absurd (Option.some.inj (ht.symm.trans h.owned.1)) hu
      · exact absurd (Option.some.inj (ht.symm.trans h.owned.2.1)) hu
    · exact ⟨by rw [h.jobs, update_of_ne hij], h.place i hij⟩
  worker := by
    intro v i hv ht
    rw [h.workers, update_of_ne]
    rintro rfl
    cases h.free i hv
    exact hu (Option.some.inj (ht.symm.trans h.owned.1))
  canceller := fun k _ => by rw [h.cancellers]

theorem Works.job_ok {i : Nat} (hi : Inv s) (h : Works s s' w j t x y pc) (hij : i ≠ j)
    (ht : ∀ u, (s.jobs i).task = some u → u = t) : JobOk s' i := by
  refine (hi.job i).keep (by rw [h.jobs, update_of_ne hij]) (h.place i hij) ?_ ?_
  · intro v hv
    rw [h.workers, update_of_ne]
    rintro rfl
    exact hij (h.free i ((hi.places.worker v i).mpr hv))
  · intro u hu _
    cases ht u hu
    rw [h.tasks, update_self]
    exact h.keeps i hij

theorem Works.part (hi : Inv s) (h : Works s s' w j t x y pc) : Part s' t := by
  have hself : s'.tasks t = x := by rw [h.tasks, update_self]
  have hjob : s'.jobs j = y := by rw [h.jobs, update_self]
  have hp := hi.part t
  have hnext : (s.tasks t).generation ≤ x.generation := h.generation.elim (fun hg => Nat.le_of_eq hg.1.symm) And.right
  exact {
    holders := by
      intro k
      rw [hself, h.holders, h.cancellers]
      exact hp.holders k
    registered := by
      intro generation hr
      rw [hself] at hr ⊢
      obtain ⟨hle, hc⟩ := hp.registered generation (h.registered ▸ hr)
      exact ⟨Nat.le_trans hle hnext, h.committed hc⟩
    history := by rw [hself]; exact h.history
    task := by rw [hself]; exact h.task
    job := by
      intro i hti
      by_cases hij : i = j
      · subst hij
        simp only [JobOk, h.taken.1, hjob]
        refine ⟨t, h.owned.2.1, h.owned.2.2, ?_⟩
        rw [hself, h.workers, update_self]
        exact h.ok
      · refine h.job_ok hi hij ?_
        intro u hu
        rw [h.jobs, update_of_ne hij] at hti
        exact Option.some.inj (hu.symm.trans hti)
    cancel := by
      intro k hk
      rw [h.cancellers] at hk ⊢
      refine (hp.cancel k hk).keep hk (by rw [h.stop]; exact id) ?_ ?_ ?_
      · rw [hself]
        exact (Nat.eq_or_lt_of_le hnext).imp_left fun heq => ⟨heq.symm, h.committed⟩
      · intro href i generation hl
        rcases h.generation with ⟨hg, hact⟩ | ⟨hempty, _⟩
        · refine hl.keep (by rw [h.stop]; exact id) ?_ (by rw [hself]; exact hg) (by rw [hself]; exact h.committed)
            (by rw [hself]; exact hact i)
          by_cases hij : i = j
          · subst hij; rw [hjob]; exact h.owned.2.1
          · rw [h.jobs, update_of_ne hij]; exact hl.task
        · have hmem := (hp.holders k).mpr href
          rw [hempty] at hmem
          exact absurd hmem (Finset.notMem_empty k)
      · intro hd
        rw [hself]
        obtain ⟨hd', hpc, hw⟩ := h.duty k hd
        exact ⟨hd', hw, fun _ => by rw [hpc]; exact id⟩ }

theorem Inv.work (h : Inv s) (hp : Places s') (hw : Works s s' w j t x y pc) : Inv s' := by
  refine h.act hp ?_ ?_
  · intro u
    by_cases hu : u = t
    · subst hu; exact .inr (hw.part h)
    · exact .inl (hw.away hu)
  · intro i hi
    have hij : i ≠ j := by
      rintro rfl
      rw [hw.jobs, update_self, hw.owned.2.1] at hi
      cases hi
    refine hw.job_ok h hij ?_
    intro u hu
    rw [hw.jobs, update_of_ne hij] at hi
    exact nomatch hi.symm.trans hu

theorem Inv.writes (h : Inv s) (hpc : s.workers w = old) (hh : old.holds = some j) (ht : (s.jobs j).task = some t)
    (hy : y.task = some t ∧ y.holdsTaskRef = true) (htasks : s'.tasks = update s.tasks t x)
    (hjobs : s'.jobs = update s.jobs j y) (hworkers : s'.workers = update s.workers w pc)
    (hcancellers : s'.cancellers = s.cancellers) (hstop : s'.stopRequested = s.stopRequested)
    (hplace : s'.place = s.place) : Writes s s' w j t x y pc where
  tasks := htasks
  jobs := hjobs
  workers := hworkers
  cancellers := hcancellers
  stop := hstop
  place i _ := by rw [hplace]
  taken := by
    have hj := (h.places.worker w j).mp (hpc ▸ hh)
    exact ⟨by rw [hplace, hj], fun u => by rw [hj]; exact nofun⟩
  free i hi := Option.some.inj (hi.symm.trans (hpc ▸ hh))
  owned := ⟨ht, hy⟩

theorem Task.Unresolved.awaits_eq {i : Nat} (h : x.Unresolved j) (hi : x.Awaits i) : i = j := by
  rcases h.2 with ⟨hp, _⟩ | ⟨hp, _⟩ <;> rcases hi with hi | hi
  · exact (Pc.shouldPark.inj (hp.symm.trans hi)).symm
  · exact nomatch hp.symm.trans hi
  · exact nomatch hp.symm.trans hi
  · exact (Pc.parked.inj (hp.symm.trans hi)).symm

theorem Task.Unresolved.committed (h : x.Unresolved j) : x.pc.committed = true := by
  rcases h.2 with ⟨hp, _⟩ | ⟨hp, _⟩ <;> rw [hp] <;> rfl

theorem taskOk_serving (hx : s'.tasks t = x) (hu : x.Unresolved j) (hd : x.duty = .worker w)
    (ht : (s'.jobs j).task = some t) (hs : (s'.workers w).serves = some j) : TaskOk s' t x.pc := by
  have hr : Responsible s' t j := by
    simp only [Responsible, hx, hd]
    exact ⟨ht, hs⟩
  rcases hu.2 with ⟨hp, _⟩ | ⟨hp, _⟩ <;> rw [hp]
  · exact .inl ⟨hx ▸ hu, hr⟩
  · exact .inl ⟨hx ▸ hu, hr⟩

theorem Inv.respond (h : Inv s) (hp : Places s') (hw : Writes s s' w j t x y pc)
    (haw : ∀ i, (s.tasks t).Awaits i → i = j) (hd : ∀ k, (s.tasks t).duty ≠ .canceller k)
    (hold : ∀ i phase, s.workers w ≠ .release i phase) (hok : WorkerOk w j y x pc)
    (hgate : x.gate.holders = (s.tasks t).gate.holders) (hreg : x.registered = (s.tasks t).registered)
    (hact : x.activeJob = (s.tasks t).activeJob ∧ x.generation = (s.tasks t).generation ∨
      x.activeJob = none ∧ (s.tasks t).gate.holders = ∅ ∧ (s.tasks t).generation ≤ x.generation)
    (hcom : x.pc.committed = true) (hh : x.History) (ht : TaskOk s' t x.pc) : Inv s' :=
  h.work hp { hw with
    ok := hok
    holders := hgate
    registered := hreg
    history := hh
    task := ht
    keeps := fun i hi => by
      refine .leftover (fun ha => hi (haw i ha.1)) ?_
      rcases hact with ⟨ha, _⟩ | ⟨ha, _⟩ <;> rw [ha]
      · exact id
      · exact nofun
    committed := fun _ => hcom
    duty := fun k hk => absurd hk (hd k)
    generation := by
      refine hact.imp (fun ⟨ha, hg⟩ => ⟨hg, fun i => ?_⟩) And.right
      rw [ha, hw.workers]
      refine Or.imp_right ?_
      rintro ⟨u, hu⟩
      refine ⟨u, ?_⟩
      rw [update_of_ne]
      · exact hu
      · rintro rfl
        exact hu.elim (hold i _) (hold i _) }

theorem Inv.serve (h : Inv s) (hp : Places s') (hw : Writes s s' w j t x y pc)
    (hpc : s.workers w = old) (hold : ∀ i phase, old ≠ .release i phase) (hu : (s.tasks t).Unresolved j)
    (hd : ∀ k, (s.tasks t).duty ≠ .canceller k)
    (hu' : x.Unresolved j) (hd' : x.duty = .worker w) (hs : pc.serves = some j) (hok : WorkerOk w j y x pc)
    (hgate : x.gate.holders = (s.tasks t).gate.holders) (hreg : x.registered = (s.tasks t).registered)
    (hact : x.activeJob = (s.tasks t).activeJob) (hgen : x.generation = (s.tasks t).generation)
    (hh : x.History) : Inv s' := by
  refine h.respond hp hw (fun i => hu.awaits_eq) hd (hpc ▸ hold) hok hgate hreg (.inl ⟨hact, hgen⟩) hu'.committed hh ?_
  refine taskOk_serving (by rw [hw.tasks, update_self]) hu' hd' ?_ ?_
  · rw [hw.jobs, update_self]; exact hw.owned.2.1
  · rw [hw.workers, update_self]; exact hs

theorem Inv.beside {g : Gate K} {a : Option Nat} (h : Inv s) (hp : Places s') (hpc : s.workers w = old)
    (hw : Writes s s' w j t { s.tasks t with gate := g, activeJob := a } (s.jobs j) pc)
    (hplace : s'.place = s.place) (hq : (s.jobs j).state ≠ .queued) (hserves : old.serves = none)
    (hwake : ∀ i phase, old ≠ .wake i phase) (hok : WorkerOk w j (s.jobs j)
      { s.tasks t with gate := g, activeJob := a } pc) (hgate : g.holders = (s.tasks t).gate.holders)
    (hact : a = (s.tasks t).activeJob ∨ (s.tasks t).activeJob = some j ∧ a = none ∧ pc = .release j .close)
    (hload : (∀ i, old = .release i .close ∨ old = .release i .drain →
      pc = .release i .close ∨ pc = .release i .drain) ∨ (s.tasks t).gate.holders = ∅) : Inv s' := by
  subst hpc
  have hself : s'.tasks t = { s.tasks t with gate := g, activeJob := a } := by rw [hw.tasks, update_self]
  have hjobs : s'.jobs = s.jobs := by rw [hw.jobs, update_eq_self]
  have hother : ∀ u, u ≠ w → s'.workers u = s.workers u := fun u hu => by rw [hw.workers, update_of_ne hu]
  have hsome : ∀ i, i ≠ j → (a = some i ↔ (s.tasks t).activeJob = some i) := by
    intro i hi
    rcases hact with rfl | ⟨hj, rfl, _⟩
    · exact Iff.rfl
    · rw [hj]
      exact ⟨nofun, fun he => absurd (Option.some.inj he).symm hi⟩
  have hwait : ∀ i, SameWait i (s.tasks t) { s.tasks t with gate := g, activeJob := a } := fun i =>
    ⟨id, id, rfl, rfl, rfl, rfl, rfl, rfl, rfl, rfl⟩
  refine h.work hp { hw with
    ok := hok
    holders := hgate
    registered := rfl
    history := { (h.part t).history with }
    task := ?_
    keeps := fun i hi => ⟨(hsome i hi).mp, fun _ => (hsome i hi).mpr, fun _ => hwait i⟩
    committed := id
    duty := fun k hk => ⟨hk, rfl, fun i _ => hwait i⟩
    generation := ?_ }
  · refine (h.part t).task.keep hself (by rw [hw.stop]; exact id) ?_ ?_ ?_ ?_
    · intro hnone
      rcases hact with rfl | ⟨_, rfl, _⟩
      · exact hnone
      · rfl
    · intro i hi
      refine ⟨by rw [hjobs], (hsome i ?_).mpr⟩
      rintro rfl
      exact hw.taken.2 t ((h.places.task t i).mp hi)
    · intro i hr
      refine hr.keep (by rw [hself]) (fun ht => by rw [hjobs, hplace]; exact ⟨ht, id, rfl⟩) ?_
        (fun k => by rw [hw.cancellers]; exact id)
      intro u hu _
      refine hother u ?_
      rintro rfl
      rcases hu with ⟨hc, hst⟩ | hc
      · cases hw.free i (by rw [hc]; rfl)
        exact hq hst
      · exact nomatch hserves.symm.trans hc
    · intro i hr
      refine hr.keep (by rw [hself]) (fun ht => by rw [hjobs]; exact ht) ?_ (fun k _ _ => by rw [hw.cancellers])
      intro u phase hu _
      refine hother u ?_
      rintro rfl
      exact hwake i phase hu
  · rcases hload with hload | hempty
    · refine .inl ⟨rfl, ?_⟩
      rintro i (ha | ⟨u, hu⟩)
      · rcases hact with rfl | ⟨hj, _, hpc⟩
        · exact .inl ha
        · cases hj.symm.trans ha
          exact .inr ⟨w, .inl (by rw [hw.workers, update_self, hpc])⟩
      · refine .inr ⟨u, ?_⟩
        by_cases huw : u = w
        · subst huw
          rw [hw.workers, update_self]
          exact hload i hu
        · rw [hother u huw]; exact hu
    · exact .inr ⟨hempty, Nat.le_refl _⟩

/-! ## Program counters -/

theorem dequeue_inv {rest : List Nat} (h : Inv s) (hpc : s.workers w = .idle) (hq : s.queue = j :: rest) :
    Inv (({ s.move j (.worker w) with queue := rest } : State T V W K).setWorker w (.claim j)) := by
  have hj : s.place j = .queue := (h.places.queue j).mp (by rw [hq]; exact List.mem_cons_self)
  have hk := h.job j
  simp only [JobOk, hj] at hk
  obtain ⟨t, ht, href, hok⟩ := hk
  have hother : ∀ u, u ≠ w → update s.workers w (.claim j) u = s.workers u := fun u hu =>
    update_of_ne hu _ _
  have hbusy : ∀ u, s.workers u ≠ .idle → update s.workers w (.claim j) u = s.workers u := fun u hu =>
    hother u fun he => hu (he ▸ hpc)
  refine h.work (t := t) (x := s.tasks t) (y := s.jobs j) (dequeue_places h.places hpc hq) {
    tasks := (update_eq_self ..).symm
    jobs := (update_eq_self ..).symm
    workers := rfl
    cancellers := rfl
    stop := rfl
    place := fun i hi => update_of_ne hi _ _
    taken := ⟨update_self .., fun u => by rw [hj]; simp⟩
    free := by rw [hpc]; exact fun i => (by intros; contradiction)
    owned := ⟨ht, ht, href⟩
    ok := hok
    holders := rfl
    registered := rfl
    history := (h.part t).history
    task := ?_
    keeps := fun i _ => .refl i _
    committed := id
    duty := fun k hd => ⟨hd, rfl, fun i _ => .refl i _⟩
    generation := ?_ }
  · refine (h.part t).task.keep (g := (s.tasks t).gate) (a := (s.tasks t).activeJob) rfl id id
      (fun i _ => ⟨rfl, id⟩) ?_ ?_
    · intro i hr
      by_cases hij : i = j
      · -- The job that was in the queue is now at the compare-and-swap of `w`.
        subst hij
        have htasks : ((({ s.move i (.worker w) with queue := rest } : State T V W K).setWorker w (.claim i)).tasks t) =
            s.tasks t := rfl
        cases hd : (s.tasks t).duty <;> simp only [Responsible, htasks, hd] at hr ⊢
        case offered => exact ⟨hr.1, hr.2.1, .inr ⟨w, update_self ..⟩⟩
        case worker u =>
          obtain ⟨hti, hserves⟩ := hr
          refine ⟨hti, ?_⟩
          have hsame := hbusy u (fun hi => by rw [hi] at hserves; cases hserves)
          exact (congrArg WorkerPc.serves hsame).trans hserves
        case canceller k => exact hr
      · refine hr.keep rfl (fun hti => ⟨hti, id, update_of_ne hij _ _⟩) ?_ (fun _ => id)
        intro u hu _
        refine hbusy u fun hi => ?_
        rw [hi] at hu
        rcases hu with ⟨hu, _⟩ | hu <;> cases hu
    · intro i hr
      refine hr.keep rfl id ?_ (fun _ _ _ => rfl)
      intro u phase hu _
      exact hbusy u fun hi => by cases hi.symm.trans hu
  · refine .inl ⟨rfl, fun i => Or.imp_right ?_⟩
    rintro ⟨u, hu⟩
    refine ⟨u, ?_⟩
    show update s.workers w (.claim j) u = _ ∨ update s.workers w (.claim j) u = _
    rw [hbusy u fun hi => by rw [hi] at hu; rcases hu with hu | hu <;> cases hu]
    exact hu

theorem claim_inv (h : Inv s) (hp : Places (claim s w j t)) (hpc : s.workers w = .claim j)
    (ht : (s.jobs j).task = some t) : Inv (claim s w j t) := by
  obtain ⟨href, hok⟩ := h.worker_of hpc rfl ht
  unfold claim at hp ⊢
  split
  · rename_i hst
    rw [if_pos hst] at hp
    have ho : Offered j (s.jobs j) (s.tasks t) := hok.resolve_right fun ha => nomatch hst.symm.trans ha
    refine h.serve (x := { s.tasks t with duty := .worker w }) (y := { s.jobs j with state := .running }) hp
      (h.writes hpc rfl ht ⟨ht, href⟩ rfl rfl rfl rfl rfl rfl) hpc (fun _ _ => nofun) ho.unresolved
      (fun k hk => nomatch ho.duty.symm.trans hk) ho.unresolved rfl rfl ?_ rfl rfl rfl rfl { (h.part t).history with }
    exact ⟨⟨nofun, ho.call, rfl, ho.unresolved, ho.activeJob, ho.calm⟩, ho.blank, .inl rfl⟩
  · rename_i hst
    rw [if_neg hst] at hp
    have ha : (s.jobs j).state = .aborted := hok.resolve_left fun ho => hst ho.state
    exact h.beside (t := t) (g := (s.tasks t).gate) (a := (s.tasks t).activeJob) hp hpc
      (h.writes hpc rfl ht ⟨ht, href⟩ (update_eq_self ..).symm (update_eq_self ..).symm rfl rfl rfl rfl)
      rfl hst rfl (fun _ _ => nofun) ha rfl (.inl rfl)
      (.inl fun _ => by rintro (h | h) <;> cases h)

theorem discard_inv (h : Inv s) (hp : Places ((s.completePending j).setWorker w (.release j .cas)))
    (hpc : s.workers w = .discard j) : Inv ((s.completePending j).setWorker w (.release j .cas)) := by
  obtain ⟨t, ht, href, hok⟩ := h.worker hpc rfl
  have hst : (s.jobs j).state ≠ .queued := fun hq => nomatch hq.symm.trans hok
  exact h.beside (t := t) (g := (s.tasks t).gate) (a := (s.tasks t).activeJob) hp hpc
    (h.writes hpc rfl ht ⟨ht, href⟩ (update_eq_self ..).symm (update_eq_self ..).symm rfl rfl rfl rfl)
    rfl hst rfl (fun _ _ => nofun) hst rfl (.inl rfl)
    (.inl fun _ => by rintro (h | h) <;> cases h)

theorem Serving.not_canceller (h : Serving w j y x) (k : K) : x.duty ≠ .canceller k := fun hk =>
  nomatch h.duty.symm.trans hk

theorem Task.History.start (h : x.History) (hb : x.Blank) :
    Task.History { x with started := update x.started x.call (x.started x.call + 1) } := by
  refine { h with started := ?_, aborted := ?_, future := ?_, past := ?_ }
  · intro n
    by_cases hn : n = x.call
    · subst hn; simp [hb.1.1]
    · simpa [update_of_ne hn] using h.started n
  · intro n ha
    have hn : n ≠ x.call := by
      rintro rfl
      exact nomatch hb.2.symm.trans ha
    simpa [update_of_ne hn] using h.aborted n ha
  · intro n hn
    simpa [update_of_ne (Nat.ne_of_gt hn)] using h.future n hn
  · intro n hn
    simpa [update_of_ne (Nat.ne_of_lt hn)] using h.past n hn

theorem Task.History.answer (h : x.History) (r : V × Option Errno) :
    Task.History { x with callback := update x.callback x.call (some r) } := by
  refine { h with future := ?_, past := ?_ }
  · intro n hn
    simpa [update_of_ne (Nat.ne_of_gt hn)] using h.future n hn
  · intro n hn
    simpa [update_of_ne (Nat.ne_of_lt hn)] using h.past n hn

section

variable (h : Inv s)

include h

theorem noteActive_inv {env : Env V} (hp : Places (noteActive s w j t env))
    (hpc : s.workers w = .noteActive j) (ht : (s.jobs j).task = some t) : Inv (noteActive s w j t env) := by
  obtain ⟨href, hok⟩ := h.worker_of hpc rfl ht
  obtain ⟨hs, hb, hst⟩ := hok
  simp only [noteActive] at hp ⊢
  split
  · rename_i error he
    rw [he] at hp
    refine h.serve (x := { s.tasks t with result := default, errno := some error, wakeError := some error })
      (y := { s.jobs j with state := .aborted, result := default, errno := some error }) hp
      (h.writes hpc rfl ht ⟨ht, href⟩ rfl rfl rfl rfl rfl rfl) hpc (by simp) hs.unresolved hs.not_canceller hs.unresolved
      hs.duty rfl ?_ rfl rfl rfl rfl { (h.part t).history with }
    exact ⟨by simp, hs.duty, hs.unresolved, .inl hb.1⟩
  · rename_i he
    rw [he] at hp
    refine h.serve (x := { s.tasks t with
        started := update (s.tasks t).started (s.tasks t).call ((s.tasks t).started (s.tasks t).call + 1) })
      (y := s.jobs j) hp (h.writes hpc rfl ht ⟨ht, href⟩ rfl (update_eq_self ..).symm rfl rfl rfl rfl) hpc
      (by simp) hs.unresolved hs.not_canceller hs.unresolved hs.duty rfl ?_ rfl rfl rfl rfl ((h.part t).history.start hb)
    refine ⟨{ hs with }, ?_, hb.1.2, hst⟩
    simp [hb.1.1]

theorem callbackReturns_inv {env : Env V} (hp : Places (callbackReturns s w j t env))
    (hpc : s.workers w = .calling j) (ht : (s.jobs j).task = some t) : Inv (callbackReturns s w j t env) := by
  obtain ⟨href, hok⟩ := h.worker_of hpc rfl ht
  obtain ⟨hs, h1, _, hst⟩ := hok
  refine h.serve (x := { s.tasks t with
      callback := update (s.tasks t).callback (s.tasks t).call (some (env.result, env.errno)) })
    (y := { s.jobs j with result := env.result, errno := env.errno }) hp
    (h.writes hpc rfl ht ⟨ht, href⟩ rfl rfl rfl rfl rfl rfl) hpc (fun _ _ => nofun) hs.unresolved hs.not_canceller
    hs.unresolved hs.duty rfl ?_ rfl rfl rfl rfl ((h.part t).history.answer _)
  refine ⟨{ hs with }, ⟨h1, ?_⟩, hst⟩
  simp

theorem complete_inv (hp : Places ((s.completePending j).setWorker w (.finish j)))
    (hpc : s.workers w = .complete j) : Inv ((s.completePending j).setWorker w (.finish j)) := by
  obtain ⟨t, ht, href, hok⟩ := h.worker hpc rfl
  have hs := hok.1
  exact h.serve (t := t) (x := s.tasks t) (y := s.jobs j) hp
    (h.writes hpc rfl ht ⟨ht, href⟩ (update_eq_self ..).symm (update_eq_self ..).symm rfl rfl rfl rfl) hpc
    (fun _ _ => nofun) hs.unresolved hs.not_canceller hs.unresolved hs.duty rfl hok rfl rfl rfl rfl (h.part t).history

theorem finishJob_inv (hp : Places (finishJob s w j)) (hpc : s.workers w = .finish j) : Inv (finishJob s w j) := by
  obtain ⟨t, ht, href, hok⟩ := h.worker hpc rfl
  obtain ⟨hs, hran, hst⟩ := hok
  unfold finishJob at hp ⊢
  rcases hst with hst | hst <;> simp only [hst] at hp ⊢
  · refine h.serve (t := t) (x := s.tasks t) (y := { s.jobs j with state := .finished }) hp
      (h.writes hpc rfl ht ⟨ht, href⟩ (update_eq_self ..).symm ?_ rfl rfl rfl rfl) hpc (fun _ _ => nofun)
      hs.unresolved hs.not_canceller hs.unresolved hs.duty rfl ⟨{ hs with state := nofun }, hran⟩ rfl rfl rfl rfl (h.part t).history
    rfl
  · exact h.serve (t := t) (x := s.tasks t) (y := s.jobs j) hp
      (h.writes hpc rfl ht ⟨ht, href⟩ (update_eq_self ..).symm (update_eq_self ..).symm rfl rfl rfl rfl) hpc
      (fun _ _ => nofun) hs.unresolved hs.not_canceller hs.unresolved hs.duty rfl ⟨hs, hran⟩ rfl rfl rfl rfl (h.part t).history

theorem storeResult_inv (hpc : s.workers w = .storeResult j) (ht : (s.jobs j).task = some t)
    (hx : x = { s.tasks t with result := (s.jobs j).result, errno := (s.jobs j).errno })
    (hp : Places ((s.setTask t x).setWorker w (.wake j .prepare))) :
    Inv ((s.setTask t x).setWorker w (.wake j .prepare)) := by
  obtain ⟨href, hok⟩ := h.worker_of hpc rfl ht
  obtain ⟨hs, hran⟩ := hok
  subst hx
  refine h.serve (y := s.jobs j) hp (h.writes hpc rfl ht ⟨ht, href⟩ rfl (update_eq_self ..).symm rfl rfl rfl rfl)
    hpc (fun _ _ => nofun) hs.unresolved hs.not_canceller hs.unresolved hs.duty rfl ?_ rfl rfl rfl rfl
    { (h.part t).history with }
  refine ⟨hs.state, hs.duty, hs.unresolved, ?_⟩
  simp only [Task.Settled, hs.calm]
  exact hran

theorem storeCancelled_inv (hpc : s.workers w = .storeCancelled j) (ht : (s.jobs j).task = some t)
    (hx : x = { s.tasks t with wakeError := some .ECANCELED })
    (hp : Places ((s.setTask t x).setWorker w (.wake j .prepare))) :
    Inv ((s.setTask t x).setWorker w (.wake j .prepare)) := by
  obtain ⟨href, hok⟩ := h.worker_of hpc rfl ht
  obtain ⟨hs, hran⟩ := hok
  subst hx
  exact h.serve (y := s.jobs j) hp (h.writes hpc rfl ht ⟨ht, href⟩ rfl (update_eq_self ..).symm rfl rfl rfl rfl)
    hpc (fun _ _ => nofun) hs.unresolved hs.not_canceller hs.unresolved hs.duty rfl
    ⟨hs.state, hs.duty, hs.unresolved, .inr ⟨_, _, hran⟩⟩ rfl rfl rfl rfl { (h.part t).history with }

end

/-! ## The wake-up -/

theorem wakeStep_unarmed (hu : (s.tasks t).Unresolved j) (hpc : (s.tasks t).pc = .shouldPark j) :
    wakeStep s t .prepare =
      some (s.setTask t { s.tasks t with node := .completedInline, duty := .nobody }, none) := by
  have hnode : (s.tasks t).node = .unarmed := by
    rcases hu.2 with ⟨_, hn⟩ | ⟨hp, _⟩
    · exact hn
    · exact nomatch hpc.symm.trans hp
  simp [wakeStep, hu.1, hnode, WakeWord.prepareWake]

theorem wakeStep_armed (hu : (s.tasks t).Unresolved j) (hpc : (s.tasks t).pc = .parked j) :
    wakeStep s t .prepare = some (s.setTask t { s.tasks t with node := .completedQueued }, some .close) := by
  have hnode : (s.tasks t).node = .armed := by
    rcases hu.2 with ⟨hp, _⟩ | ⟨_, hn⟩
    · exact nomatch hpc.symm.trans hp
    · exact hn
  simp [wakeStep, hu.1, hnode, WakeWord.prepareWake]

/-- The record of a task that was parked and is put on a run queue. -/
def Task.resumed (x : Task V W K) : Task V W K :=
  { x with
    pc := .unregister
    parked := false
    duty := .nobody
    wakes := update x.wakes x.call (x.wakes x.call + 1) }

theorem wakeStep_run (hw : (s.tasks t).Waking j) : wakeStep s t .run = some (s.setTask t (s.tasks t).resumed, none) := by
  simp [wakeStep, hw.2.1, Task.resumed]

theorem Task.History.resumed (h : x.History) (hpc : x.pc = .parked j) : x.resumed.History := by
  have hc := h.current
  rw [hpc] at hc
  refine { h with future := ?_, past := ?_, current := ?_ }
  · intro n (hn : x.call < n)
    simpa [Task.resumed, update_of_ne (Nat.ne_of_gt hn)] using h.future n hn
  · intro n (hn : n < x.call)
    simpa [Task.resumed, update_of_ne (Nat.ne_of_lt hn)] using h.past n hn
  · simp [Task.resumed, hc.1, hc.2]

theorem Task.Waking.awaits_eq {i : Nat} (h : x.Waking j) (hi : x.Awaits i) : i = j := by
  rcases hi with hi | hi
  · exact nomatch h.2.1.symm.trans hi
  · exact (Pc.parked.inj (h.2.1.symm.trans hi)).symm

theorem taskOk_reinjecting {phase : Waking} (hx : s'.tasks t = x) (hv : x.Waking j) (hd : x.duty = .worker w)
    (ht : (s'.jobs j).task = some t) (hw : s'.workers w = .wake j phase) (hp : phase ≠ .prepare) :
    TaskOk s' t x.pc := by
  rw [hv.2.1]
  refine .inr ⟨hx ▸ hv, ?_⟩
  simp only [Reinjecting, hx, hd]
  exact ⟨ht, phase, hw, hp⟩

theorem wake_inv {phase : Waking} {next : Option Waking} {s₁ : State T V W K} {pc : WorkerPc} (h : Inv s)
    (hpc : s.workers w = .wake j phase) (ht : (s.jobs j).task = some t) (hs : wakeStep s t phase = some (s₁, next))
    (hnext : pc = match next with | some phase => .wake j phase | none => .release j .cas)
    (hp : Places (s₁.setWorker w pc)) : Inv (s₁.setWorker w pc) := by
  obtain ⟨href, hok⟩ := h.worker_of hpc rfl ht
  have hold : ∀ i phase, s.workers w ≠ .release i phase := by rw [hpc]; exact fun _ _ => (by simp)
  have hself : ∀ x pc, ((s.setTask t x).setWorker w pc).tasks t = x := fun x _ => setTask_self s t x
  have hwself : ∀ (s₂ : State T V W K) pc, (s₂.setWorker w pc).workers w = pc := fun _ _ => update_self ..
  have hwrites : ∀ (x : Task V W K) (pc : WorkerPc),
      Writes s ((s.setTask t x).setWorker w pc) w j t x (s.jobs j) pc := fun x pc =>
    h.writes hpc rfl ht ⟨ht, href⟩ rfl (update_eq_self ..).symm rfl rfl rfl rfl
  have hh' := (h.part t).history
  cases phase with
  | prepare =>
    obtain ⟨hq, hd, hun, hset⟩ := hok
    have hnc : ∀ k, (s.tasks t).duty ≠ .canceller k := fun k hk => by cases hd.symm.trans hk
    rcases hun.2 with ⟨hp', hn⟩ | ⟨hp', hn⟩
    · cases (wakeStep_unarmed hun hp').symm.trans hs
      subst hnext
      refine h.respond hp (hwrites _ _) (fun i => hun.awaits_eq) hnc hold hq rfl rfl (.inl ⟨rfl, rfl⟩) hun.committed
        { hh' with } ?_
      rw [show (s.tasks t).pc = _ from hp']
      refine .inr ?_
      rw [hself]
      exact ⟨hun.1, rfl, rfl, hset⟩
    · cases (wakeStep_armed hun hp').symm.trans hs
      subst hnext
      have hv : Task.Waking { s.tasks t with node := .completedQueued } j := ⟨hun.1, hp', rfl⟩
      exact h.respond hp (hwrites _ _) (fun i => hun.awaits_eq) hnc hold ⟨hq, hd, hv, hset⟩ rfl rfl (.inl ⟨rfl, rfl⟩)
        hun.committed { hh' with } (taskOk_reinjecting (hself _ _) hv hd ht (hwself _ _) (by simp))
  | close =>
    obtain ⟨hq, hd, hv, hset⟩ := hok
    cases hs
    subst hnext
    exact h.respond hp (hwrites _ _) (fun i => hv.awaits_eq) (fun k hk => by cases hd.symm.trans hk) hold
      ⟨hq, hd, hv, hset⟩ rfl rfl (.inl ⟨rfl, rfl⟩) (by rw [show (s.tasks t).pc = _ from hv.2.1]; rfl) { hh' with }
      (taskOk_reinjecting (hself _ _) hv hd ht (hwself _ _) (by simp))
  | drain =>
    obtain ⟨hq, hd, hv, hset⟩ := hok
    simp only [wakeStep] at hs
    split at hs
    · rename_i hdr
      cases hs
      subst hnext
      exact h.respond hp (hwrites _ _) (fun i => hv.awaits_eq) (fun k hk => by cases hd.symm.trans hk) hold
        ⟨hq, hd, hv, hset⟩ rfl rfl (.inr ⟨rfl, (Gate.drained_iff _).mp hdr, Nat.le_succ _⟩)
        (by rw [show (s.tasks t).clearTracking.pc = _ from hv.2.1]; rfl) { hh' with }
        (taskOk_reinjecting (hself _ _) hv hd ht (hwself _ _) (by simp))
    · cases hs
  | run =>
    obtain ⟨hq, hd, hv, hset⟩ := hok
    cases (wakeStep_run hv).symm.trans hs
    subst hnext
    refine h.respond hp (hwrites _ _) (fun i => hv.awaits_eq) (fun k hk => by cases hd.symm.trans hk) hold hq rfl rfl
      (.inl ⟨rfl, rfl⟩) rfl (hh'.resumed hv.2.1) ?_
    show TaskOk _ t .unregister
    rw [TaskOk, hself]
    exact ⟨hv.1, rfl, hset⟩

/-! ## Giving the job back -/

theorem releaseBeside_inv {phase next : Releasing} {s₁ : State T V W K} (h : Inv s)
    (hpc : s.workers w = .release j phase) (hs : releaseStep s j phase = some (s₁, some next))
    (hp : Places (s₁.setWorker w (.release j next))) : Inv (s₁.setWorker w (.release j next)) := by
  obtain ⟨t, ht, href, hok⟩ := h.worker hpc rfl
  have hsame : ∀ pc : WorkerPc, Writes s (s.setWorker w pc) w j t (s.tasks t) (s.jobs j) pc := fun pc =>
    h.writes hpc rfl ht ⟨ht, href⟩ (update_eq_self ..).symm (update_eq_self ..).symm rfl rfl rfl rfl
  have hset : ∀ (x : Task V W K) (pc : WorkerPc),
      Writes s ((s.setTask t x).setWorker w pc) w j t x (s.jobs j) pc := fun x pc =>
    h.writes hpc rfl ht ⟨ht, href⟩ rfl (update_eq_self ..).symm rfl rfl rfl rfl
  cases phase with
  | cas =>
    have hnot : ∀ i, WorkerPc.release j .cas = .release i .close ∨ WorkerPc.release j .cas = .release i .drain →
        WorkerPc.release j next = .release i .close ∨ WorkerPc.release j next = .release i .drain := by
      rintro i (hi | hi) <;> cases hi
    simp only [releaseStep, ht, href, Bool.true_and, decide_eq_true_eq] at hs
    split at hs
    · rename_i ha
      cases hs
      exact h.beside (g := (s.tasks t).gate) (a := none) hp hpc (hset _ _) rfl hok rfl (by simp) ⟨hok, by simp⟩ rfl
        (.inr ⟨ha, rfl, rfl⟩) (.inl hnot)
    · rename_i ha
      cases hs
      exact h.beside (g := (s.tasks t).gate) (a := (s.tasks t).activeJob) hp hpc (hsame _) rfl hok rfl (by simp) ⟨hok, ha⟩
        rfl (.inl rfl) (.inl hnot)
  | close =>
    simp only [releaseStep, ht, Option.map_some] at hs
    cases hs
    refine h.beside (g := (s.tasks t).gate.close) (a := (s.tasks t).activeJob) hp hpc (hset _ _) rfl hok.1 rfl (by simp) hok
      rfl (.inl rfl) (.inl ?_)
    rintro i (hi | hi) <;> cases hi
    exact .inr rfl
  | drain =>
    simp only [releaseStep, ht, Option.bind_some] at hs
    split at hs
    · rename_i hdr
      cases hs
      exact h.beside (g := (s.tasks t).gate) (a := (s.tasks t).activeJob) hp hpc (hsame _) rfl hok.1 rfl (by simp) hok rfl
        (.inl rfl) (.inr ((Gate.drained_iff _).mp hdr))
    · cases hs
  | push => cases hs

theorem Inv.not_loaded_of_push {generation : Nat} (h : Inv s) (hpc : s.workers w = .release j .push)
    (ht : (s.jobs j).task = some t) : ¬ Loaded s t j generation := by
  intro hl
  have hh : (s.workers w).holds = some j := by rw [hpc]; rfl
  obtain ⟨-, hok⟩ := h.worker_of hpc rfl ht
  rcases hl.active with ha | ⟨v, hv⟩
  · exact hok.2 ha
  have hvj : (s.workers v).holds = some j := by rcases hv with hv | hv <;> rw [hv] <;> rfl
  cases ((h.places.worker w j).mp hh).symm.trans ((h.places.worker v j).mp hvj)
  rcases hv with hv | hv <;> exact nomatch hpc.symm.trans hv

theorem push_inv (h : Inv s) (hpc : s.workers w = .release j .push) : Inv ((s.recycle j).setWorker w .idle) := by
  have hh : (s.workers w).holds = some j := by rw [hpc]; rfl
  have hj : s.place j = .worker w := (h.places.worker w j).mp hh
  obtain ⟨t, ht, _, hok⟩ := h.worker hpc rfl
  have hjobs : ∀ i, i ≠ j → ((s.recycle j).setWorker w .idle).jobs i = s.jobs i := fun i hi =>
    update_of_ne hi _ _
  have hplace : ∀ i, i ≠ j → ((s.recycle j).setWorker w .idle).place i = s.place i := fun i hi =>
    update_of_ne hi _ _
  have hnone : (((s.recycle j).setWorker w .idle).jobs j).task = none := by
    simp [State.setWorker, State.recycle, State.move, State.setJob]
  have hworkers : ∀ u i, i ≠ j → (s.workers u).holds = some i →
      ((s.recycle j).setWorker w .idle).workers u = s.workers u := by
    intro u i hi hu
    refine update_of_ne ?_ _ _
    rintro rfl
    exact hi (Option.some.inj (hu.symm.trans hh))
  have hkeep : ∀ i, i ≠ j → JobOk ((s.recycle j).setWorker w .idle) i := fun i hi =>
    (h.job i).keep (hjobs i hi) (hplace i hi) (fun u hu => hworkers u i hi ((h.places.worker u i).mpr hu))
      (fun u _ _ => .refl i _)
  refine h.act (push_worker_places h.places hpc) ?_ ?_
  · intro u
    by_cases hu : u = t
    · subst hu
      have hp := h.part u
      refine .inr { hp with
        task := ?_
        job := ?_
        cancel := ?_ }
      · refine hp.task.keep (g := (s.tasks u).gate) (a := (s.tasks u).activeJob) rfl id id ?_ ?_ ?_
        · intro i hi
          refine ⟨hjobs i ?_, id⟩
          rintro rfl
          cases hj.symm.trans ((h.places.task u i).mp hi)
        · intro i hr
          by_cases hi : i = j
          · -- The job is not queued, and its worker does not serve it.
            subst hi
            have htasks : ((s.recycle i).setWorker w .idle).tasks u = s.tasks u := rfl
            cases hd : (s.tasks u).duty <;> simp only [Responsible, htasks, hd] at hr ⊢
            case offered => exact absurd hr.2.1 hok.1
            case worker v =>
              obtain ⟨_, hserves⟩ := hr
              cases hj.symm.trans ((h.places.worker v i).mp (WorkerPc.holds_of_serves hserves))
              rw [hpc] at hserves
              cases hserves
            case canceller k => exact hr
          · exact hr.keep rfl (fun hti => by rw [hjobs i hi, hplace i hi]; exact ⟨hti, id, rfl⟩)
              (fun v hv _ => hworkers v i hi (hv.elim (fun hc => by rw [hc.1]; rfl) WorkerPc.holds_of_serves))
              (fun _ => id)
        · intro i hr
          by_cases hi : i = j
          · subst hi
            have htasks : ((s.recycle i).setWorker w .idle).tasks u = s.tasks u := rfl
            cases hd : (s.tasks u).duty <;> simp only [Reinjecting, htasks, hd] at hr ⊢
            case worker v =>
              obtain ⟨_, phase, hv, _⟩ := hr
              cases hj.symm.trans ((h.places.worker v i).mp (by rw [hv]; rfl))
              cases hpc.symm.trans hv
            case canceller k => exact hr
          · exact hr.keep rfl (fun hti => by rw [hjobs i hi]; exact hti)
              (fun v phase hv _ => hworkers v i hi (by rw [hv]; rfl)) (fun _ _ _ => rfl)
      · intro i hi
        refine hkeep i ?_
        rintro rfl
        cases hnone.symm.trans hi
      · intro k hk
        refine (hp.cancel k hk).keep hk id (.inl ⟨rfl, id⟩) ?_ (fun hd => ⟨hd, fun i _ => .refl i _, fun _ => id⟩)
        intro _ i generation hl
        have hi : i ≠ j := by
          rintro rfl
          exact h.not_loaded_of_push hpc ht hl
        refine hl.keep id (by rw [hjobs i hi]; exact hl.task) rfl id (Or.imp_right ?_)
        rintro ⟨v, hv⟩
        refine ⟨v, ?_⟩
        rw [hworkers v i hi (by rcases hv with hv | hv <;> rw [hv] <;> rfl)]
        exact hv
    · refine .inl ⟨rfl, id, ?_, ?_, fun _ _ => rfl⟩
      · intro i hi
        have hij : i ≠ j := by
          rintro rfl
          rcases hi with hi | hi | hi
          · cases hj.symm.trans hi
          · exact hu (Option.some.inj (hi.symm.trans ht))
          · cases hnone.symm.trans hi
        exact ⟨hjobs i hij, hplace i hij⟩
      · intro v i hv hti
        refine hworkers v i ?_ hv
        rintro rfl
        exact hu (Option.some.inj (hti.symm.trans ht))
  · intro i _
    by_cases hi : i = j
    · subst hi
      simp [JobOk, State.setWorker, State.recycle, State.move, State.setJob]
    · exact hkeep i hi

theorem workerStep_inv {env : Env V} (h : Inv s) (hs : workerStep s w env = some s') : Inv s' := by
  have hpl := workerStep_places h.places hs
  simp only [workerStep] at hs
  cases hp : s.workers w <;> rw [hp] at hs
  case idle =>
    simp only at hs
    split at hs
    · cases hs
    rename_i hq
    cases hs
    exact dequeue_inv h hp hq
  case claim j =>
    obtain ⟨t, ht, rfl⟩ := Option.map_eq_some_iff.mp hs
    exact claim_inv h hpl hp ht
  case discard j => cases hs; exact discard_inv h hpl hp
  case noteActive j =>
    obtain ⟨t, ht, rfl⟩ := Option.map_eq_some_iff.mp hs
    exact noteActive_inv h hpl hp ht
  case calling j =>
    obtain ⟨t, ht, rfl⟩ := Option.map_eq_some_iff.mp hs
    exact callbackReturns_inv h hpl hp ht
  case complete j => cases hs; exact complete_inv h hpl hp
  case finish j => cases hs; exact finishJob_inv h hpl hp
  case storeResult j =>
    obtain ⟨t, ht, rfl⟩ := Option.map_eq_some_iff.mp hs
    exact storeResult_inv h hp ht rfl hpl
  case storeCancelled j =>
    obtain ⟨t, ht, rfl⟩ := Option.map_eq_some_iff.mp hs
    exact storeCancelled_inv h hp ht rfl hpl
  case wake j phase =>
    obtain ⟨t, ht, hs⟩ := Option.bind_eq_some_iff.mp hs
    obtain ⟨⟨s₁, next⟩, hr, heq⟩ := Option.map_eq_some_iff.mp hs
    cases next with
    | none | some phase' => subst heq; exact wake_inv h hp ht hr rfl hpl
  case release j phase =>
    obtain ⟨⟨s₁, next⟩, hr, heq⟩ := Option.map_eq_some_iff.mp hs
    cases next with
    | some phase' => subst heq; exact releaseBeside_inv h hp hr hpl
    | none =>
      subst heq
      by_cases hpush : phase = .push
      · subst hpush
        cases hr
        exact push_inv h hp
      · exact absurd rfl (releaseStep_same hpush hr).2.2.2

end Llam.Blocking
