import Llam.Blocking.Model

/-!
# Where the jobs are

Every job object is in one place: in the pool, with a task that prepares or withdraws it, in the queue, or with a
worker. `Places` says that the history fields `place`, `allocs`, `frees` and `outstanding` agree with the lists and the
program counters; from it follow the accounting of `block_pending` and that an object goes back to the pool once for
each time it was taken out.
-/

namespace Llam.Blocking

open Llam.Wait Function

variable {T V W K : Type} [DecidableEq T] [DecidableEq W] [DecidableEq K] [Inhabited V] {s s' s'' : State T V W K}

/-- The job a task still has to submit or to give back. -/
def Pc.holds : Pc V → Option Nat
  | .prepare j | .close j | .publish j | .submit j | .rollback j _ | .rollbackDrain j _ | .release j _ _ => some j
  | _ => none

/-- The job a worker has taken from the queue and not given back. -/
def WorkerPc.holds : WorkerPc → Option Nat
  | .idle => none
  | .claim j | .discard j | .noteActive j | .calling j | .complete j | .finish j | .storeResult j | .storeCancelled j
  | .wake j _ | .release j _ => some j

/-- The job a worker has taken from the queue and not accounted for. -/
def WorkerPc.owes : WorkerPc → Option Nat
  | .claim j | .discard j | .noteActive j | .calling j | .complete j => some j
  | _ => none

variable {pc : WorkerPc} {j : Nat} {t : T} {w : W} {env : Env V}

theorem WorkerPc.holds_of_owes (h : pc.owes = some j) : pc.holds = some j := by
  cases pc <;> simp_all [owes, holds]

/-- Taken and not given back. -/
def Place.out : Place T W → Nat
  | .fresh | .pool => 0
  | _ => 1

/-- Places, lists, program counters and counters agree. -/
structure Places (s : State T V W K) : Prop where
  pool : ∀ j, j ∈ s.pool ↔ s.place j = .pool
  queue : ∀ j, j ∈ s.queue ↔ s.place j = .queue
  task : ∀ t j, (s.tasks t).pc.holds = some j ↔ s.place j = .task t
  worker : ∀ w j, (s.workers w).holds = some j ↔ s.place j = .worker w
  fresh : ∀ j, s.fresh ≤ j ↔ s.place j = .fresh
  poolNodup : s.pool.Nodup
  queueNodup : s.queue.Nodup
  balance : ∀ j, s.allocs j = s.frees j + (s.place j).out
  outstanding : ∀ j, j ∈ s.outstanding ↔ j ∈ s.queue ∨ ∃ w, (s.workers w).owes = some j
  pending : s.pending = s.outstanding.card
  bounded : s.maxBlockingJobs ≠ 0 → s.pending ≤ s.maxBlockingJobs

/-! ## Actions that move no job -/

/-- Nothing that `Places` reads changes. -/
structure SamePlaces (s s' : State T V W K) : Prop where
  maxBlockingJobs : s'.maxBlockingJobs = s.maxBlockingJobs
  pool : s'.pool = s.pool
  fresh : s'.fresh = s.fresh
  queue : s'.queue = s.queue
  pending : s'.pending = s.pending
  place : s'.place = s.place
  allocs : s'.allocs = s.allocs
  frees : s'.frees = s.frees
  outstanding : s'.outstanding = s.outstanding
  task : ∀ t, (s'.tasks t).pc.holds = (s.tasks t).pc.holds
  worker : ∀ w, (s'.workers w).holds = (s.workers w).holds
  owes : ∀ w, (s'.workers w).owes = (s.workers w).owes

theorem SamePlaces.refl (s : State T V W K) : SamePlaces s s :=
  ⟨rfl, rfl, rfl, rfl, rfl, rfl, rfl, rfl, rfl, fun _ => rfl, fun _ => rfl, fun _ => rfl⟩

theorem SamePlaces.trans (h : SamePlaces s s') (h' : SamePlaces s' s'') : SamePlaces s s'' where
  maxBlockingJobs := h'.maxBlockingJobs.trans h.maxBlockingJobs
  pool := h'.pool.trans h.pool
  fresh := h'.fresh.trans h.fresh
  queue := h'.queue.trans h.queue
  pending := h'.pending.trans h.pending
  place := h'.place.trans h.place
  allocs := h'.allocs.trans h.allocs
  frees := h'.frees.trans h.frees
  outstanding := h'.outstanding.trans h.outstanding
  task t := (h'.task t).trans (h.task t)
  worker w := (h'.worker w).trans (h.worker w)
  owes w := (h'.owes w).trans (h.owes w)

theorem samePlaces_setTask {x : Task V W K} (h : x.pc.holds = (s.tasks t).pc.holds) : SamePlaces s (s.setTask t x) :=
  { SamePlaces.refl s with
    task := fun u => by
      by_cases hu : u = t
      · subst hu; simpa [State.setTask] using h
      · simp [State.setTask, hu] }

theorem samePlaces_setJob (s : State T V W K) (j : Nat) (y : Job T V) : SamePlaces s (s.setJob j y) :=
  { SamePlaces.refl s with }

theorem samePlaces_setCanceller (s : State T V W K) (k : K) (pc : CancelPc T) : SamePlaces s (s.setCanceller k pc) :=
  { SamePlaces.refl s with }

theorem samePlaces_setWorker (hh : pc.holds = (s.workers w).holds)
    (ho : pc.owes = (s.workers w).owes) : SamePlaces s (s.setWorker w pc) :=
  { SamePlaces.refl s with
    worker := fun u => by
      by_cases hu : u = w
      · subst hu; simpa [State.setWorker] using hh
      · simp [State.setWorker, hu]
    owes := fun u => by
      by_cases hu : u = w
      · subst hu; simpa [State.setWorker] using ho
      · simp [State.setWorker, hu] }

theorem Places.same (h : Places s) (hs : SamePlaces s s') : Places s' where
  pool j := by rw [hs.pool, hs.place]; exact h.pool j
  queue j := by rw [hs.queue, hs.place]; exact h.queue j
  task t j := by rw [hs.task, hs.place]; exact h.task t j
  worker w j := by rw [hs.worker, hs.place]; exact h.worker w j
  fresh j := by rw [hs.fresh, hs.place]; exact h.fresh j
  poolNodup := by rw [hs.pool]; exact h.poolNodup
  queueNodup := by rw [hs.queue]; exact h.queueNodup
  balance j := by rw [hs.allocs, hs.frees, hs.place]; exact h.balance j
  outstanding j := by simp only [hs.outstanding, hs.queue, hs.owes]; exact h.outstanding j
  pending := by rw [hs.pending, hs.outstanding]; exact h.pending
  bounded := by rw [hs.maxBlockingJobs, hs.pending]; exact h.bounded

/-! ## Actions that move a job -/

/-- One job goes to another place, and everything that names it follows. -/
structure Moves (s s' : State T V W K) (j : Nat) (q : Place T W) : Prop where
  place : s'.place = update s.place j q
  pool : ∀ i, i ∈ s'.pool ↔ (i ∈ s.pool ∧ i ≠ j) ∨ (i = j ∧ q = .pool)
  queue : ∀ i, i ∈ s'.queue ↔ (i ∈ s.queue ∧ i ≠ j) ∨ (i = j ∧ q = .queue)
  task : ∀ t i, (s'.tasks t).pc.holds = some i ↔ ((s.tasks t).pc.holds = some i ∧ i ≠ j) ∨ (i = j ∧ q = .task t)
  worker : ∀ w i, (s'.workers w).holds = some i ↔ ((s.workers w).holds = some i ∧ i ≠ j) ∨ (i = j ∧ q = .worker w)
  fresh : s'.fresh = s.fresh
  known : s.place j ≠ .fresh ∧ q ≠ .fresh
  poolNodup : s'.pool.Nodup
  queueNodup : s'.queue.Nodup
  others : ∀ i, i ≠ j → s'.allocs i = s.allocs i ∧ s'.frees i = s.frees i
  balance : s'.allocs j = s'.frees j + q.out

theorem Places.move (h : Places s) {q : Place T W} (hm : Moves s s' j q)
    (ho : ∀ i, i ∈ s'.outstanding ↔ i ∈ s'.queue ∨ ∃ w, (s'.workers w).owes = some i)
    (hp : s'.pending = s'.outstanding.card)
    (hb : s'.maxBlockingJobs ≠ 0 → s'.pending ≤ s'.maxBlockingJobs) : Places s' := by
  have hself : s'.place j = q := by rw [hm.place, update_self]
  have hother : ∀ i, i ≠ j → s'.place i = s.place i := fun i hi => by rw [hm.place, update_of_ne hi]
  -- Everything about the other jobs is as before; `j` is where it went.
  have hlift : ∀ {P P' : Nat → Prop} {r : Place T W}, (∀ i, P i ↔ s.place i = r) →
      (∀ i, P' i ↔ (P i ∧ i ≠ j) ∨ (i = j ∧ q = r)) → ∀ i, P' i ↔ s'.place i = r := by
    intro P P' r hP hP' i
    rw [hP' i]
    by_cases hi : i = j
    · subst hi; simp [hself]
    · simp [hi, hP i, hother i hi]
  exact {
    pool := hlift h.pool hm.pool
    queue := hlift h.queue hm.queue
    task := fun t => hlift (h.task t) (hm.task t)
    worker := fun w => hlift (h.worker w) (hm.worker w)
    fresh := by
      intro i
      rw [hm.fresh, h.fresh i]
      by_cases hi : i = j
      · subst hi; simp [hself, hm.known]
      · rw [hother i hi]
    poolNodup := hm.poolNodup
    queueNodup := hm.queueNodup
    balance := by
      intro i
      by_cases hi : i = j
      · subst hi; rw [hself]; exact hm.balance
      · rw [hother i hi, (hm.others i hi).1, (hm.others i hi).2]; exact h.balance i
    outstanding := ho
    pending := hp
    bounded := hb }

theorem goto_holds (s : State T V W K) (t u : T) (pc : Pc V) :
    ((s.goto t pc).tasks u).pc.holds = if u = t then pc.holds else (s.tasks u).pc.holds := by
  by_cases hu : u = t
  · subst hu; simp [State.goto, State.setTask]
  · simp [State.goto, State.setTask, hu]

theorem setTask_holds (s : State T V W K) (t u : T) (x : Task V W K) :
    ((s.setTask t x).tasks u).pc.holds = if u = t then x.pc.holds else (s.tasks u).pc.holds := by
  by_cases hu : u = t
  · subst hu; simp [State.setTask]
  · simp [State.setTask, hu]

theorem setWorker_holds (s : State T V W K) (w u : W) (pc : WorkerPc) :
    ((s.setWorker w pc).workers u).holds = if u = w then pc.holds else (s.workers u).holds := by
  by_cases hu : u = w
  · subst hu; simp [State.setWorker]
  · simp [State.setWorker, hu]

theorem setWorker_owes (s : State T V W K) (w u : W) (pc : WorkerPc) :
    ((s.setWorker w pc).workers u).owes = if u = w then pc.owes else (s.workers u).owes := by
  by_cases hu : u = w
  · subst hu; simp [State.setWorker]
  · simp [State.setWorker, hu]

theorem unmoved {P : Nat → Prop} {r q : Place T W} (hP : ∀ i, P i ↔ s.place i = r) (hj : s.place j ≠ r)
    (hq : q ≠ r) (i : Nat) : P i ↔ (P i ∧ i ≠ j) ∨ (i = j ∧ q = r) := by
  constructor
  · intro hi
    refine .inl ⟨hi, ?_⟩
    rintro rfl
    exact hj ((hP i).mp hi)
  · rintro (⟨hi, _⟩ | ⟨_, he⟩)
    · exact hi
    · exact absurd he hq

section Holders

variable {A : Type} [DecidableEq A] {holds : A → Option Nat} {mk : A → Place T W} {j : Nat}

theorem takes (hold : ∀ a i, holds a = some i ↔ s.place i = mk a) {a : A} (ha : holds a = none)
    (hj : ∀ b, s.place j ≠ mk b) (hinj : ∀ b, mk a = mk b → b = a) (b : A) (i : Nat) :
    (if b = a then some j else holds b) = some i ↔ (holds b = some i ∧ i ≠ j) ∨ (i = j ∧ mk a = mk b) := by
  by_cases hb : b = a
  · subst hb
    simp [ha, eq_comm]
  · rw [if_neg hb]
    exact unmoved (hold b) (hj b) (fun he => hb (hinj b he)) i

theorem gives (hold : ∀ a i, holds a = some i ↔ s.place i = mk a) {a : A} (ha : holds a = some j) {q : Place T W}
    (hq : ∀ b, q ≠ mk b) (hinj : ∀ b, mk a = mk b → b = a) (b : A) (i : Nat) :
    (if b = a then none else holds b) = some i ↔ (holds b = some i ∧ i ≠ j) ∨ (i = j ∧ q = mk b) := by
  by_cases hb : b = a
  · subst hb
    simp only [if_true, ha, hq, and_false, or_false, Option.some.injEq]
    constructor
    · intro hi
      cases hi
    · rintro ⟨rfl, hi⟩
      exact absurd rfl hi
  · rw [if_neg hb]
    refine unmoved (hold b) (fun he => hb (hinj b ?_)) (hq b) i
    rw [← (hold a j).mp ha, he]

end Holders

section

variable (h : Places s)

include h

theorem Places.owes_unique {u : W} (hw : (s.workers w).owes = some j) (hu : (s.workers u).owes = some j) : u = w := by
  have heq := ((h.worker w j).mp (WorkerPc.holds_of_owes hw)).symm.trans
    ((h.worker u j).mp (WorkerPc.holds_of_owes hu))
  cases heq
  rfl

theorem Places.not_owes (hj : ∀ w, s.place j ≠ .worker w) (w : W) : (s.workers w).owes ≠ some j := fun hw => hj w ((h.worker w j).mp (WorkerPc.holds_of_owes hw))

theorem growPool_places : Places (growPool s) := by
  have hslab : ∀ j, j ∈ (growPool s).pool ↔ (s.fresh ≤ j ∧ j < s.fresh + slabCount) ∨ j ∈ s.pool := by
    intro j
    simp only [growPool, List.mem_append, List.mem_reverse, List.mem_map, List.mem_range]
    refine or_congr ⟨?_, ?_⟩ Iff.rfl
    · omega
    · intro hj
      exact ⟨j - s.fresh, by omega, by omega⟩
  have hplace : ∀ j, (growPool s).place j =
      if s.fresh ≤ j ∧ j < s.fresh + slabCount then .pool else s.place j := fun _ => rfl
  -- An object of the new slab was nowhere before.
  have hold : ∀ {P : Nat → Prop} {r : Place T W}, (∀ j, P j ↔ s.place j = r) → r ≠ .pool → r ≠ .fresh →
      ∀ j, P j ↔ (growPool s).place j = r := by
    intro P r hP hrp hrf j
    rw [hP j, hplace]
    split
    · rename_i hj
      rw [(h.fresh j).mp hj.1]
      exact ⟨fun he => absurd he.symm hrf, fun he => absurd he.symm hrp⟩
    · exact Iff.rfl
  exact { h with
    pool := by
      intro j
      rw [hslab, hplace, h.pool j]
      split <;> simp_all
    queue := hold h.queue (by simp) (by simp)
    task := fun t => hold (h.task t) (by simp) (by simp)
    worker := fun w => hold (h.worker w) (by simp) (by simp)
    fresh := by
      intro j
      rw [hplace]
      show s.fresh + slabCount ≤ j ↔ _
      split
      · exact ⟨fun hle => absurd hle (by omega), by simp⟩
      · rw [← h.fresh j]
        omega
    poolNodup := by
      refine List.Nodup.append (List.nodup_reverse.mpr (List.nodup_range.map (by intro a b hab; simpa using hab)))
        h.poolNodup ?_
      intro j hj hp
      simp only [List.mem_reverse, List.mem_map, List.mem_range] at hj
      obtain ⟨i, _, rfl⟩ := hj
      have hf := (h.fresh (s.fresh + i)).mp (by omega)
      cases hf.symm.trans ((h.pool _).mp hp)
    balance := by
      intro j
      rw [hplace]
      split
      · rename_i hj
        have hb := h.balance j
        rw [(h.fresh j).mp hj.1] at hb
        exact hb
      · exact h.balance j }

theorem alloc_places (hp : (s.tasks t).pc = .alloc) : Places (alloc s t env) := by
  have hnone : (s.tasks t).pc.holds = none := by rw [hp]; rfl
  unfold alloc
  split
  · rename_i j rest hpool
    have hj : s.place j = .pool := (h.pool j).mp (by rw [hpool]; exact List.mem_cons_self)
    have hnd := List.nodup_cons.mp (hpool ▸ h.poolNodup)
    refine h.move (j := j) (q := .task t) ⟨rfl, ?_, ?_, ?_, ?_, rfl, ⟨by rw [hj]; exact nofun, nofun⟩, hnd.2,
      h.queueNodup, fun i hi => ⟨update_of_ne hi _ _, rfl⟩, ?_⟩ h.outstanding h.pending h.bounded
    · intro i
      rw [hpool]
      constructor
      · intro hi
        exact .inl ⟨List.mem_cons_of_mem _ hi, fun he => hnd.1 (he ▸ hi)⟩
      · rintro (⟨hi, hne⟩ | ⟨_, hq⟩)
        · exact (List.mem_cons.mp hi).resolve_left hne
        · cases hq
    · exact unmoved h.queue (by rw [hj]; exact nofun) nofun
    · intro u i
      rw [goto_holds]
      exact takes h.task hnone (fun b => by rw [hj]; exact nofun) (fun b hb => (Place.task.inj hb).symm) u i
    · exact fun w => unmoved (h.worker w) (by rw [hj]; exact nofun) nofun
    · show update s.allocs j (s.allocs j + 1) j = s.frees j + 1
      have hb := h.balance j
      rw [hj] at hb
      rw [update_self, hb]
      rfl
  · split
    · exact h.same (samePlaces_setTask (by rw [hnone]; rfl))
    · exact growPool_places h

theorem submit_places (hp : (s.tasks t).pc = .submit j) : Places (submit s t j env) := by
  have hholds : (s.tasks t).pc.holds = some j := by rw [hp]; rfl
  have hj : s.place j = .task t := (h.task t j).mp hholds
  have hback : ∀ error, Places (s.goto t (.rollback j error)) := fun error =>
    h.same (samePlaces_setTask (by rw [hholds]; rfl))
  unfold submit
  split
  · exact hback _
  split
  · exact hback _
  split
  · exact hback _
  rename_i hcap
  split
  · exact hback _
  have hnq : j ∉ s.queue := fun hq => nomatch ((h.queue j).mp hq).symm.trans hj
  have hno : j ∉ s.outstanding := by
    rw [h.outstanding]
    rintro (hq | ⟨w, hw⟩)
    · exact hnq hq
    · exact h.not_owes (fun w => by rw [hj]; exact nofun) w hw
  refine h.move (j := j) (q := .queue) ⟨rfl, unmoved h.pool (by rw [hj]; exact nofun) nofun, ?_, ?_,
    fun w => unmoved (h.worker w) (by rw [hj]; exact nofun) nofun, rfl, ⟨by rw [hj]; exact nofun, nofun⟩, h.poolNodup,
    ?_, fun _ _ => ⟨rfl, rfl⟩, ?_⟩ ?_ ?_ ?_
  · intro i
    show i ∈ s.queue ++ [j] ↔ _
    rw [List.mem_append, List.mem_singleton]
    constructor
    · rintro (hi | rfl)
      · exact .inl ⟨hi, fun he => hnq (he ▸ hi)⟩
      · exact .inr ⟨rfl, rfl⟩
    · rintro (⟨hi, _⟩ | ⟨rfl, _⟩)
      · exact .inl hi
      · exact .inr rfl
  · intro u i
    rw [setTask_holds]
    exact gives h.task hholds (by rintro b ⟨⟩) (fun b hb => (Place.task.inj hb).symm) u i
  · refine h.queueNodup.append (List.nodup_singleton j) ?_
    intro i hi hj'
    rw [List.mem_singleton] at hj'
    exact hnq (hj' ▸ hi)
  · have hb := h.balance j
    rw [hj] at hb
    exact hb
  · intro i
    show i ∈ insert j s.outstanding ↔ i ∈ s.queue ++ [j] ∨ _
    rw [Finset.mem_insert, h.outstanding i, List.mem_append, List.mem_singleton]
    constructor
    · rintro (rfl | hi | hi)
      · exact .inl (.inr rfl)
      · exact .inl (.inl hi)
      · exact .inr hi
    · rintro ((hi | rfl) | hi)
      · exact .inr (.inl hi)
      · exact .inl rfl
      · exact .inr (.inr hi)
  · show s.pending + 1 = (insert j s.outstanding).card
    rw [Finset.card_insert_of_notMem hno, h.pending]
  · intro hmax
    show s.pending + 1 ≤ s.maxBlockingJobs
    have hmax : s.maxBlockingJobs ≠ 0 := hmax
    have : ¬ s.maxBlockingJobs ≤ s.pending := fun hle => hcap (by simp [hmax, hle])
    omega

theorem dequeue_places {rest : List Nat} (hw : s.workers w = .idle) (hq : s.queue = j :: rest) :
    Places (({ s.move j (.worker w) with queue := rest } : State T V W K).setWorker w (.claim j)) := by
  have hnone : (s.workers w).holds = none := by rw [hw]; rfl
  have hj : s.place j = .queue := (h.queue j).mp (by rw [hq]; exact List.mem_cons_self)
  have hnd := List.nodup_cons.mp (hq ▸ h.queueNodup)
  refine h.move (j := j) (q := .worker w) ⟨rfl, unmoved h.pool (by rw [hj]; exact nofun) nofun, ?_,
    fun t => unmoved (h.task t) (by rw [hj]; exact nofun) nofun, ?_, rfl, ⟨by rw [hj]; exact nofun, nofun⟩, h.poolNodup,
    hnd.2, fun _ _ => ⟨rfl, rfl⟩, ?_⟩ ?_ h.pending h.bounded
  · intro i
    rw [hq]
    constructor
    · intro hi
      exact .inl ⟨List.mem_cons_of_mem _ hi, fun he => hnd.1 (he ▸ hi)⟩
    · rintro (⟨hi, hne⟩ | ⟨_, he⟩)
      · exact (List.mem_cons.mp hi).resolve_left hne
      · cases he
  · intro u i
    rw [setWorker_holds]
    exact takes h.worker hnone (fun b => by rw [hj]; exact nofun) (fun b hb => (Place.worker.inj hb).symm) u i
  · have hb := h.balance j
    rw [hj] at hb
    exact hb
  · intro i
    show i ∈ s.outstanding ↔ i ∈ rest ∨ _
    rw [h.outstanding i, hq, List.mem_cons]
    simp only [setWorker_owes]
    constructor
    · rintro ((rfl | hi) | ⟨u, hu⟩)
      · exact .inr ⟨w, by simp [WorkerPc.owes]⟩
      · exact .inl hi
      · refine .inr ⟨u, ?_⟩
        rw [if_neg]
        · exact hu
        · rintro rfl
          rw [hw] at hu
          cases hu
    · rintro (hi | ⟨u, hu⟩)
      · exact .inl (.inr hi)
      · split at hu
        · cases hu; exact .inl (.inl rfl)
        · exact .inr ⟨u, hu⟩

theorem completePending_places (hw : (s.workers w).owes = some j)
    (hh : pc.holds = some j) (ho : pc.owes = none) : Places ((s.completePending j).setWorker w pc) := by
  have hholds := WorkerPc.holds_of_owes hw
  have hj : s.place j = .worker w := (h.worker w j).mp hholds
  have hmem : j ∈ s.outstanding := (h.outstanding j).mpr (.inr ⟨w, hw⟩)
  exact { h with
    worker := by
      intro u i
      rw [setWorker_holds]
      split
      · rename_i hu
        subst hu
        rw [hh, ← hholds]
        exact h.worker u i
      · exact h.worker u i
    outstanding := by
      intro i
      show i ∈ s.outstanding.erase j ↔ i ∈ s.queue ∨ _
      rw [Finset.mem_erase, h.outstanding i]
      simp only [setWorker_owes]
      constructor
      · rintro ⟨hne, hi | ⟨u, hu⟩⟩
        · exact .inl hi
        · refine .inr ⟨u, ?_⟩
          rw [if_neg]
          · exact hu
          · rintro rfl
            exact hne (Option.some.inj (hu.symm.trans hw))
      · rintro (hi | ⟨u, hu⟩)
        · refine ⟨?_, .inl hi⟩
          rintro rfl
          exact nomatch ((h.queue i).mp hi).symm.trans hj
        · split at hu
          · rw [ho] at hu; cases hu
          rename_i hne
          refine ⟨?_, .inr ⟨u, hu⟩⟩
          rintro rfl
          exact hne (h.owes_unique hw hu)
    pending := by
      show s.pending - 1 = (s.outstanding.erase j).card
      rw [Finset.card_erase_of_mem hmem, h.pending]
    bounded := fun hmax => Nat.le_trans (Nat.sub_le _ _) (h.bounded hmax) }

theorem Places.recycle_facts (hp : s.place j ≠ .pool) (hf : s.place j ≠ .fresh) :
    (∀ i, i ∈ (s.recycle j).pool ↔ (i ∈ s.pool ∧ i ≠ j) ∨ (i = j ∧ (Place.pool : Place T W) = .pool)) ∧
      (s.recycle j).pool.Nodup ∧ (s.recycle j).allocs j = (s.recycle j).frees j + (Place.pool : Place T W).out := by
  have hnp : j ∉ s.pool := fun hj => hp ((h.pool j).mp hj)
  refine ⟨fun i => ?_, List.nodup_cons.mpr ⟨hnp, h.poolNodup⟩, ?_⟩
  · show i ∈ j :: s.pool ↔ _
    rw [List.mem_cons]
    constructor
    · rintro (rfl | hi)
      · exact .inr ⟨rfl, rfl⟩
      · exact .inl ⟨hi, fun he => hnp (he ▸ hi)⟩
    · rintro (⟨hi, _⟩ | ⟨rfl, _⟩)
      · exact .inr hi
      · exact .inl rfl
  · have hb := h.balance j
    have hout : (s.place j).out = 1 := by
      cases hpl : s.place j <;> first | rfl | exact absurd hpl hp | exact absurd hpl hf
    show s.allocs j = update s.frees j (s.frees j + 1) j + 0
    rw [update_self, hb, hout]

theorem push_task_places {error : Errno} {pc : Pc V}
    (hp : (s.tasks t).pc = .release j error .push) (hpc : pc.holds = none) : Places ((s.recycle j).goto t pc) := by
  have hholds : (s.tasks t).pc.holds = some j := by rw [hp]; rfl
  have hj : s.place j = .task t := (h.task t j).mp hholds
  obtain ⟨hpool, hnd, hbal⟩ := h.recycle_facts (by rw [hj]; exact nofun) (by rw [hj]; exact nofun)
  refine h.move (j := j) (q := .pool) ⟨rfl, hpool, unmoved h.queue (by rw [hj]; exact nofun) nofun, ?_,
    fun w => unmoved (h.worker w) (by rw [hj]; exact nofun) nofun, rfl, ⟨by rw [hj]; exact nofun, nofun⟩, hnd,
    h.queueNodup, fun i hi => ⟨rfl, update_of_ne hi _ _⟩, hbal⟩ h.outstanding h.pending h.bounded
  intro u i
  rw [goto_holds, hpc]
  exact gives h.task hholds (by rintro b ⟨⟩) (fun b hb => (Place.task.inj hb).symm) u i

theorem push_worker_places (hp : s.workers w = .release j .push) : Places ((s.recycle j).setWorker w .idle) := by
  have hholds : (s.workers w).holds = some j := by rw [hp]; rfl
  have hj : s.place j = .worker w := (h.worker w j).mp hholds
  obtain ⟨hpool, hnd, hbal⟩ := h.recycle_facts (by rw [hj]; exact nofun) (by rw [hj]; exact nofun)
  refine h.move (j := j) (q := .pool) ⟨rfl, hpool, unmoved h.queue (by rw [hj]; exact nofun) nofun,
    fun t => unmoved (h.task t) (by rw [hj]; exact nofun) nofun, ?_, rfl, ⟨by rw [hj]; exact nofun, nofun⟩, hnd,
    h.queueNodup, fun i hi => ⟨rfl, update_of_ne hi _ _⟩, hbal⟩ ?_ h.pending h.bounded
  · intro u i
    rw [setWorker_holds]
    exact gives h.worker hholds (by rintro b ⟨⟩) (fun b hb => (Place.worker.inj hb).symm) u i
  · intro i
    show i ∈ s.outstanding ↔ i ∈ s.queue ∨ _
    rw [h.outstanding i]
    refine or_congr Iff.rfl (exists_congr fun u => ?_)
    rw [setWorker_owes]
    split
    · rename_i hu
      subst hu
      rw [hp]
      exact ⟨nofun, nofun⟩
    · exact Iff.rfl

end

/-! ## Every action -/

theorem releaseStep_same {phase : Releasing} {next : Option Releasing} (hp : phase ≠ .push)
    (h : releaseStep s j phase = some (s', next)) : SamePlaces s s' ∧ s'.workers = s.workers ∧
      (∀ t, (s'.tasks t).pc = (s.tasks t).pc) ∧ next ≠ none := by
  have hset : ∀ (t : T) (x : Task V W K), x.pc = (s.tasks t).pc → SamePlaces s (s.setTask t x) ∧
      (s.setTask t x).workers = s.workers ∧ ∀ u, ((s.setTask t x).tasks u).pc = (s.tasks u).pc := by
    intro t x hx
    refine ⟨samePlaces_setTask (by rw [hx]), rfl, fun u => ?_⟩
    by_cases hu : u = t
    · subst hu; simpa [State.setTask] using hx
    · simp [State.setTask, hu]
  cases phase with
  | push => exact absurd rfl hp
  | cas =>
    simp only [releaseStep] at h
    split at h
    · split at h
      · rename_i t _ _
        cases h
        have := hset t { s.tasks t with activeJob := none } rfl
        exact ⟨this.1, this.2.1, this.2.2, nofun⟩
      · cases h; exact ⟨SamePlaces.refl s, rfl, fun _ => rfl, nofun⟩
    · cases h; exact ⟨SamePlaces.refl s, rfl, fun _ => rfl, nofun⟩
  | close =>
    obtain ⟨t, _, ht⟩ := Option.map_eq_some_iff.mp h
    cases ht
    have := hset t { s.tasks t with gate := (s.tasks t).gate.close } rfl
    exact ⟨this.1, this.2.1, this.2.2, nofun⟩
  | drain =>
    obtain ⟨t, _, ht⟩ := Option.bind_eq_some_iff.mp h
    split at ht
    · cases ht; exact ⟨SamePlaces.refl s, rfl, fun _ => rfl, nofun⟩
    · cases ht

theorem wakeStep_same {phase : Waking} {next : Option Waking} (h : wakeStep s t phase = some (s', next)) :
    SamePlaces s s' ∧ s'.workers = s.workers := by
  cases phase with
  | prepare =>
    simp only [wakeStep] at h
    repeat' split at h
    all_goals cases h
    all_goals exact ⟨samePlaces_setTask rfl, rfl⟩
  | close => cases h; exact ⟨samePlaces_setTask rfl, rfl⟩
  | drain =>
    simp only [wakeStep] at h
    split at h
    · cases h; exact ⟨samePlaces_setTask rfl, rfl⟩
    · cases h
  | run =>
    cases h
    refine ⟨samePlaces_setTask ?_, rfl⟩
    cases (s.tasks t).pc <;> rfl

theorem workerStep_places (h : Places s) (hs : workerStep s w env = some s') : Places s' := by
  have hmove : ∀ {s₁ : State T V W K} {pc : WorkerPc}, SamePlaces s s₁ → s₁.workers = s.workers →
      pc.holds = (s.workers w).holds → pc.owes = (s.workers w).owes → Places (s₁.setWorker w pc) :=
    fun hsame hw hh ho => (h.same hsame).same (samePlaces_setWorker (by rw [hw]; exact hh) (by rw [hw]; exact ho))
  simp only [workerStep] at hs
  cases hp : s.workers w <;> rw [hp] at hs hmove
  case idle =>
    simp only at hs
    split at hs
    · cases hs
    rename_i j rest hq
    cases hs
    exact dequeue_places h hp hq
  case claim j =>
    obtain ⟨t, _, rfl⟩ := Option.map_eq_some_iff.mp hs
    unfold claim
    split
    · exact hmove ((samePlaces_setJob s j _).trans (samePlaces_setTask rfl)) rfl rfl rfl
    · exact hmove (SamePlaces.refl s) rfl rfl rfl
  case discard j | complete j => cases hs; exact completePending_places h (by rw [hp]; rfl) rfl rfl
  case noteActive j =>
    obtain ⟨t, _, rfl⟩ := Option.map_eq_some_iff.mp hs
    simp only [noteActive]
    split
    · have hc : Places ((s.completePending j).setWorker w (.wake j .prepare)) :=
        completePending_places h (by rw [hp]; rfl) rfl rfl
      exact hc.same ((samePlaces_setJob _ j _).trans (samePlaces_setTask (t := t) rfl))
    · exact hmove (samePlaces_setTask rfl) rfl rfl rfl
  case calling j =>
    obtain ⟨t, _, rfl⟩ := Option.map_eq_some_iff.mp hs
    exact hmove ((samePlaces_setJob s j _).trans (samePlaces_setTask rfl)) rfl rfl rfl
  case finish j =>
    cases hs
    unfold finishJob
    split
    · exact hmove (samePlaces_setJob s j _) rfl rfl rfl
    all_goals exact hmove (SamePlaces.refl s) rfl rfl rfl
  case storeResult j | storeCancelled j =>
    obtain ⟨t, _, rfl⟩ := Option.map_eq_some_iff.mp hs
    exact hmove (samePlaces_setTask rfl) rfl rfl rfl
  case wake j phase =>
    obtain ⟨t, _, hs⟩ := Option.bind_eq_some_iff.mp hs
    obtain ⟨⟨s₁, next⟩, hr, heq⟩ := Option.map_eq_some_iff.mp hs
    obtain ⟨hsame, hw⟩ := wakeStep_same hr
    cases next with
    | none | some phase' => subst heq; exact hmove hsame hw rfl rfl
  case release j phase =>
    obtain ⟨⟨s₁, next⟩, hr, heq⟩ := Option.map_eq_some_iff.mp hs
    by_cases hpush : phase = .push
    · subst hpush
      cases hr
      subst heq
      exact push_worker_places h hp
    · obtain ⟨hsame, hw, _, hnext⟩ := releaseStep_same hpush hr
      cases next with
      | none => exact absurd rfl hnext
      | some phase' => subst heq; exact hmove hsame hw rfl rfl

theorem cancelStep_same {k : K} (hs : cancelStep s k = some s') : SamePlaces s s' := by
  have hmove : ∀ {s₁ : State T V W K} (pc : CancelPc T), SamePlaces s s₁ → SamePlaces s (s₁.setCanceller k pc) :=
    fun pc h => h.trans (samePlaces_setCanceller _ k pc)
  simp only [cancelStep] at hs
  cases hp : s.cancellers k <;> rw [hp] at hs
  case idle => cases hs
  case enter t expected =>
    cases hs
    split
    · exact hmove _ (samePlaces_setTask rfl)
    · exact hmove _ (SamePlaces.refl s)
  case check t expected =>
    cases hs
    simp only [cancelCheck]
    repeat' split
    all_goals exact hmove _ (SamePlaces.refl s)
  case abortQueued t j generation =>
    cases hs
    simp only [abortQueued]
    split
    · exact hmove _ ((samePlaces_setJob s j _).trans (samePlaces_setTask rfl))
    · exact hmove _ (SamePlaces.refl s)
  case recheck t j generation =>
    cases hs
    simp only [recheck]
    split <;> exact hmove _ (SamePlaces.refl s)
  case abortRunning t j generation =>
    cases hs
    unfold abortRunning
    split
    · exact hmove _ (samePlaces_setJob s j _)
    · exact hmove _ (SamePlaces.refl s)
  case store t | finish t | done t => cases hs; exact hmove _ (samePlaces_setTask rfl)
  case wake t phase =>
    obtain ⟨⟨s₁, next⟩, hr, heq⟩ := Option.map_eq_some_iff.mp hs
    obtain ⟨hsame, _⟩ := wakeStep_same hr
    cases next with
    | none | some phase' => subst heq; exact hmove _ hsame

end Llam.Blocking
