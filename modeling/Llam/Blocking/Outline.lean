import Llam.Blocking.Places

/-!
# Who owes the wake-up

A task that waits has one party that owes it the wake-up, its `duty`: as long as its job is queued nobody in particular,
then the worker or the resolver whose compare-and-swap took the job out of `QUEUED`. `TaskOk`, `JobOk` and `CancelOk` say
what holds of a task, of a job wherever it is, and of a resolver. A job that no longer matters to its task, because it was
aborted or its worker gives it back, is left over: it reads nothing of the task but that it is not its active job.
-/

namespace Llam.Blocking

open Llam.Wait

variable {T V W K : Type} [DecidableEq T] [DecidableEq W] [DecidableEq K] [Inhabited V] {s s' : State T V W K}

/-! ## Tasks -/

/-- Past the commit of the submission. -/
def Pc.committed : Pc V → Bool
  | .shouldPark _ | .parked _ | .unregister | .finishClose | .finishDrain => true
  | _ => false

/-- Where a resolver may catch a call that is not going to wait. -/
def Pc.withdrawn : Pc V → Bool
  | .idle | .returned _ | .enter | .submit _ | .rollback _ _ | .rollbackDrain _ _ | .release _ _ _ => true
  | _ => false

namespace Task

variable (x : Task V W K)

/-- The task waits, or is about to, for the call of job `j`, and nobody has completed its wait node. -/
def Unresolved (j : Nat) : Prop :=
  x.nodeLive = true ∧ ((x.pc = .shouldPark j ∧ x.node = .unarmed) ∨ (x.pc = .parked j ∧ x.node = .armed))

/-- Somebody has completed the wait node of the parked task and is about to put it on a run queue. -/
def Waking (j : Nat) : Prop := x.nodeLive = true ∧ x.pc = .parked j ∧ x.node = .completedQueued

/-- The callback of the current call has not been started. -/
def Unstarted : Prop := x.started x.call = 0 ∧ x.callback x.call = none

/-- Nothing has happened to the job of the current call. -/
def Blank : Prop := x.Unstarted ∧ x.aborted x.call = false

/-- The callback of the current call was run once and has returned. -/
def Ran (result : V) (errno : Option Errno) : Prop :=
  x.started x.call = 1 ∧ x.callback x.call = some (result, errno)

/-- No callback of the current call is running. -/
def Done : Prop := x.Unstarted ∨ ∃ result errno, x.Ran result errno

/-- What the task finds when it resumes: an error, or what its callback returned. -/
def Settled : Prop :=
  match x.wakeError with
  | none => x.Ran x.result x.errno
  | some _ => x.Done

/-- What the history of all calls says. -/
structure History : Prop where
  started : ∀ n, x.started n ≤ 1
  aborted : ∀ n, x.aborted n = true → x.started n = 0
  parks : ∀ n, x.parks n ≤ 1
  future : ∀ n, x.call < n →
    x.started n = 0 ∧ x.callback n = none ∧ x.aborted n = false ∧ x.parks n = 0 ∧ x.wakes n = 0
  past : ∀ n, n < x.call → (x.started n = 1 → (x.callback n).isSome = true) ∧ x.wakes n = x.parks n
  current : match x.pc with
    | .parked _ => x.parks x.call = 1 ∧ x.wakes x.call = 0
    | .idle | .returned _ | .unregister | .finishClose | .finishDrain => x.wakes x.call = x.parks x.call
    | _ => x.parks x.call = 0 ∧ x.wakes x.call = 0

/-- No wait is published, and nobody owes a wake-up but a resolver of a stop that came too late. -/
structure Calm (stop : Bool) : Prop where
  node : x.nodeLive = false
  activeJob : x.activeJob = none
  registered : x.registered = none
  duty : x.duty = .nobody ∨ ∃ k, x.duty = .canceller k ∧ stop = true

/-- A submission that is going on, with its job not yet published. -/
structure Preparing (live : Bool) : Prop where
  node : x.nodeLive = live
  activeJob : x.activeJob = none
  registered : x.registered = none
  duty : x.duty = .nobody
  blank : x.Blank

/-- A wait that is published and can still be withdrawn. -/
structure Withdrawable (stop : Bool) (j : Nat) (y : Job T V) : Prop where
  node : x.nodeLive = true ∧ x.node ≠ .armed
  activeJob : x.activeJob = some j
  registered : x.registered = none
  unstarted : x.Unstarted
  offered : x.duty = .offered ∧ y.state = .queued ∧ x.wakeError = none ∧ x.Blank ∧ x.node = .unarmed ∨
    stop = true ∧ y.state = .aborted ∧ (x.duty = .nobody ∨ ∃ k, x.duty = .canceller k)

end Task

/-- A job that carries the current call of its task. -/
structure Job.Carries (y : Job T V) (t : T) (x : Task V W K) : Prop where
  task : y.task = some t
  holdsTaskRef : y.holdsTaskRef = true
  call : y.call = x.call

/-- The job a worker serves, up to its `prepare_wake`. -/
def WorkerPc.serves : WorkerPc → Option Nat
  | .noteActive j | .calling j | .complete j | .finish j | .storeResult j | .storeCancelled j | .wake j .prepare => some j
  | _ => none

/-- The task a resolver has aborted the job of, up to its `prepare_wake`. -/
def CancelPc.aborts : CancelPc T → Option T
  | .store t | .finish t | .wake t .prepare => some t
  | _ => none

/-- Somebody is going to complete the wait node of `t`. -/
def Responsible (s : State T V W K) (t : T) (j : Nat) : Prop :=
  match (s.tasks t).duty with
  | .nobody => False
  | .offered => (s.jobs j).task = some t ∧ (s.jobs j).state = .queued ∧
      (s.place j = .queue ∨ ∃ w, s.workers w = .claim j)
  | .worker w => (s.jobs j).task = some t ∧ (s.workers w).serves = some j
  | .canceller k => (s.cancellers k).aborts = some t

/-- Somebody has completed the wait node of `t` and is going to reinject it. -/
def Reinjecting (s : State T V W K) (t : T) (j : Nat) : Prop :=
  match (s.tasks t).duty with
  | .worker w => (s.jobs j).task = some t ∧ ∃ phase, s.workers w = .wake j phase ∧ phase ≠ .prepare
  | .canceller k => ∃ phase, s.cancellers k = .wake t phase ∧ phase ≠ .prepare
  | _ => False

/-- What holds of a task, and of the job it holds, at a program counter. -/
def TaskOk (s : State T V W K) (t : T) : Pc V → Prop
  | .idle => (s.tasks t).Calm s.stopRequested ∧ (s.tasks t).Done
  | .returned outcome => (s.tasks t).Calm s.stopRequested ∧ (s.tasks t).Done ∧
      ∀ result errno, outcome = .ok result errno → (s.tasks t).Ran result errno
  | .enter => (s.tasks t).Calm s.stopRequested ∧ (s.tasks t).Blank
  | .alloc => (s.tasks t).Preparing false
  | .prepare j => (s.tasks t).Preparing false ∧ (s.jobs j).task = none ∧ (s.jobs j).holdsTaskRef = false
  | .close j | .publish j => (s.tasks t).Preparing true ∧ (s.tasks t).node = .unarmed ∧
      (s.jobs j).Carries t (s.tasks t) ∧ (s.jobs j).state = .queued
  | .submit j | .rollback j _ | .rollbackDrain j _ => (s.jobs j).Carries t (s.tasks t) ∧
      (s.tasks t).Withdrawable s.stopRequested j (s.jobs j)
  | .release j _ phase => (s.tasks t).Calm s.stopRequested ∧ (s.tasks t).Unstarted ∧
      ((s.jobs j).task = none ∨ (s.jobs j).task = some t) ∧ (phase = .cas ∨ phase = .push)
  | .shouldPark j => (s.tasks t).Unresolved j ∧ Responsible s t j ∨
      (s.tasks t).nodeLive = true ∧ (s.tasks t).node = .completedInline ∧ (s.tasks t).duty = .nobody ∧
        (s.tasks t).Settled
  | .parked j => (s.tasks t).Unresolved j ∧ Responsible s t j ∨ (s.tasks t).Waking j ∧ Reinjecting s t j
  | .unregister => (s.tasks t).nodeLive = true ∧ (s.tasks t).duty = .nobody ∧ (s.tasks t).Settled
  | .finishClose | .finishDrain => (s.tasks t).registered = none ∧ (s.tasks t).nodeLive = true ∧
      (s.tasks t).duty = .nobody ∧ (s.tasks t).Settled

/-! ## Jobs -/

/-- The queued job of a task that waits for it. -/
structure Offered (j : Nat) (y : Job T V) (x : Task V W K) : Prop where
  state : y.state = .queued
  call : y.call = x.call
  duty : x.duty = .offered
  unresolved : x.Unresolved j
  activeJob : x.activeJob = some j
  calm : x.wakeError = none
  blank : x.Blank

/-- The job a worker serves to a task that waits for it. -/
structure Serving (w : W) (j : Nat) (y : Job T V) (x : Task V W K) : Prop where
  state : y.state ≠ .queued
  call : y.call = x.call
  duty : x.duty = .worker w
  unresolved : x.Unresolved j
  activeJob : x.activeJob = some j
  calm : x.wakeError = none

/-- What holds of a job with a worker at a program counter, and of its task. -/
def WorkerOk (w : W) (j : Nat) (y : Job T V) (x : Task V W K) : WorkerPc → Prop
  | .idle => False
  | .claim _ => Offered j y x ∨ y.state = .aborted
  | .discard _ => y.state = .aborted
  | .noteActive _ => Serving w j y x ∧ x.Blank ∧ (y.state = .running ∨ y.state = .aborted)
  | .calling _ => Serving w j y x ∧ x.started x.call = 1 ∧ x.callback x.call = none ∧
      (y.state = .running ∨ y.state = .aborted)
  | .complete _ | .finish _ => Serving w j y x ∧ x.Ran y.result y.errno ∧ (y.state = .running ∨ y.state = .aborted)
  | .storeResult _ | .storeCancelled _ => Serving w j y x ∧ x.Ran y.result y.errno
  | .wake _ .prepare => y.state ≠ .queued ∧ x.duty = .worker w ∧ x.Unresolved j ∧ x.Settled
  | .wake _ _ => y.state ≠ .queued ∧ x.duty = .worker w ∧ x.Waking j ∧ x.Settled
  | .release _ .cas => y.state ≠ .queued
  | .release _ _ => y.state ≠ .queued ∧ x.activeJob ≠ some j

/-- What holds of a job where it is; `TaskOk` says it of a job that a task holds. -/
def JobOk (s : State T V W K) (j : Nat) : Prop :=
  match s.place j with
  | .fresh | .pool => (s.jobs j).task = none
  | .task _ => True
  | .queue => ∃ t, (s.jobs j).task = some t ∧ (s.jobs j).holdsTaskRef = true ∧
      (Offered j (s.jobs j) (s.tasks t) ∨ (s.jobs j).state = .aborted)
  | .worker w => ∃ t, (s.jobs j).task = some t ∧ (s.jobs j).holdsTaskRef = true ∧
      WorkerOk w j (s.jobs j) (s.tasks t) (s.workers w)

/-! ## Resolvers -/

/-- The task a resolver holds a reference to the gate of. -/
def CancelPc.ref : CancelPc T → Option T
  | .check t _ | .abortQueued t _ _ | .recheck t _ _ | .abortRunning t _ _ | .store t | .finish t | .done t => some t
  | _ => none

/-- The job a resolver has loaded. -/
def CancelPc.loaded : CancelPc T → Option (T × Nat)
  | .abortQueued t j _ | .recheck t j _ | .abortRunning t j _ => some (t, j)
  | _ => none

/-- The task a resolver works on. -/
def CancelPc.target : CancelPc T → Option T
  | .idle => none
  | .enter t _ | .check t _ | .abortQueued t _ _ | .recheck t _ _ | .abortRunning t _ _ | .store t | .finish t | .done t
  | .wake t _ => some t

/-- The generation a resolver was sent for, and the task is not at it again before it has committed. -/
def Sent (s : State T V W K) (t : T) (expected : Option Nat) : Prop :=
  (expected = none → s.stopRequested = true) ∧ ∀ generation, expected = some generation →
    generation ≤ (s.tasks t).generation ∧
      (generation = (s.tasks t).generation → (s.tasks t).pc.committed = true)

/-- A loaded job belongs to the task, whose active job it is unless its worker waits for the resolvers. -/
structure Loaded (s : State T V W K) (t : T) (j generation : Nat) : Prop where
  task : (s.jobs j).task = some t
  generation : (s.tasks t).generation = generation
  active : (s.tasks t).activeJob = some j ∨
    ∃ w, s.workers w = .release j .close ∨ s.workers w = .release j .drain
  committed : s.stopRequested = true ∨ (s.tasks t).pc.committed = true

/-- What holds of a resolver at a program counter. -/
def CancelOk (s : State T V W K) (k : K) : CancelPc T → Prop
  | .idle | .done _ => True
  | .enter t expected | .check t expected => Sent s t expected
  | .abortQueued t j generation | .recheck t j generation | .abortRunning t j generation => Loaded s t j generation
  | .store t => (s.tasks t).duty = .canceller k ∧
      ((∃ j, (s.tasks t).Unresolved j) ∧ (s.tasks t).wakeError = none ∧ (s.tasks t).Unstarted ∨
        s.stopRequested = true ∧ (s.tasks t).pc.withdrawn = true)
  | .finish t | .wake t .prepare => (s.tasks t).duty = .canceller k ∧
      ((∃ j, (s.tasks t).Unresolved j) ∧ (s.tasks t).Settled ∨
        s.stopRequested = true ∧ (s.tasks t).pc.withdrawn = true)
  | .wake t _ => (s.tasks t).duty = .canceller k ∧ (∃ j, (s.tasks t).Waking j) ∧ (s.tasks t).Settled

/-! ## The invariant -/

/-- All that concerns one task: its own record, its jobs and its resolvers. -/
structure Part (s : State T V W K) (t : T) : Prop where
  holders : ∀ k, k ∈ (s.tasks t).gate.holders ↔ (s.cancellers k).ref = some t
  registered : ∀ generation, (s.tasks t).registered = some generation →
    generation ≤ (s.tasks t).generation ∧ (s.tasks t).pc.committed = true
  history : (s.tasks t).History
  task : TaskOk s t (s.tasks t).pc
  job : ∀ j, (s.jobs j).task = some t → JobOk s j
  cancel : ∀ k, (s.cancellers k).target = some t → CancelOk s k (s.cancellers k)

/-- The invariant. -/
structure Inv (s : State T V W K) : Prop where
  places : Places s
  part : ∀ t, Part s t
  orphan : ∀ j, (s.jobs j).task = none → JobOk s j

theorem Inv.job (h : Inv s) (j : Nat) : JobOk s j := by
  cases hj : (s.jobs j).task with
  | none => exact h.orphan j hj
  | some t => exact (h.part t).job j hj

variable {w : W} {j : Nat} {pc : CancelPc T} {t : T} {x x' : Task V W K} {g : Gate K} {a : Option Nat} {y : Job T V}

theorem Inv.worker {pc : WorkerPc} (h : Inv s) (hpc : s.workers w = pc) (hw : pc.holds = some j) :
    ∃ t, (s.jobs j).task = some t ∧ (s.jobs j).holdsTaskRef = true ∧ WorkerOk w j (s.jobs j) (s.tasks t) pc := by
  subst hpc
  have hj := h.job j
  simp only [JobOk, (h.places.worker w j).mp hw] at hj
  exact hj

theorem Inv.worker_of {t : T} {pc : WorkerPc} (h : Inv s) (hpc : s.workers w = pc) (hw : pc.holds = some j)
    (ht : (s.jobs j).task = some t) : (s.jobs j).holdsTaskRef = true ∧ WorkerOk w j (s.jobs j) (s.tasks t) pc := by
  obtain ⟨u, hu, hok⟩ := h.worker hpc hw
  cases ht.symm.trans hu
  exact hok

/-! ## What does not concern a task -/

/-- Nothing that concerns task `t` changes. -/
structure Away (s s' : State T V W K) (t : T) : Prop where
  task : s'.tasks t = s.tasks t
  stop : s.stopRequested = true → s'.stopRequested = true
  job : ∀ j, s.place j = .task t ∨ (s.jobs j).task = some t ∨ (s'.jobs j).task = some t →
    s'.jobs j = s.jobs j ∧ s'.place j = s.place j
  worker : ∀ w j, (s.workers w).holds = some j → (s.jobs j).task = some t → s'.workers w = s.workers w
  canceller : ∀ k, (s.cancellers k).target = some t ∨ (s'.cancellers k).target = some t →
    s'.cancellers k = s.cancellers k

theorem WorkerPc.holds_of_serves {pc : WorkerPc} (h : pc.serves = some j) : pc.holds = some j := by
  cases pc with
  | wake i phase => cases phase <;> simp_all [serves, holds]
  | _ => simp_all [serves, holds]

theorem CancelPc.target_of_aborts (h : pc.aborts = some t) : pc.target = some t := by
  cases pc with
  | wake u phase => cases phase <;> simp_all [aborts, target]
  | _ => simp_all [aborts, target]

theorem CancelPc.target_of_ref (h : pc.ref = some t) : pc.target = some t := by
  cases pc <;> simp_all [ref, target]

theorem Responsible.keep (h : Responsible s t j) (hduty : (s'.tasks t).duty = (s.tasks t).duty)
    (hjob : (s.jobs j).task = some t → (s'.jobs j).task = some t ∧
      ((s.jobs j).state = .queued → (s'.jobs j).state = .queued) ∧ s'.place j = s.place j)
    (hworker : ∀ w, s.workers w = .claim j ∧ (s.jobs j).state = .queued ∨ (s.workers w).serves = some j →
      (s.jobs j).task = some t → s'.workers w = s.workers w)
    (hcancel : ∀ k, (s.cancellers k).aborts = some t → (s'.cancellers k).aborts = some t) : Responsible s' t j := by
  simp only [Responsible, hduty] at h ⊢
  cases hd : (s.tasks t).duty with
  | nobody => rw [hd] at h; exact h
  | offered =>
    rw [hd] at h
    obtain ⟨ht, hs, hp⟩ := h
    obtain ⟨ht', hs', hp'⟩ := hjob ht
    refine ⟨ht', hs' hs, ?_⟩
    rcases hp with hq | ⟨w, hw⟩
    · exact .inl (hp'.trans hq)
    · exact .inr ⟨w, (hworker w (.inl ⟨hw, hs⟩) ht).trans hw⟩
  | worker w =>
    rw [hd] at h
    obtain ⟨ht, hw⟩ := h
    refine ⟨(hjob ht).1, ?_⟩
    rw [hworker w (.inr hw) ht]
    exact hw
  | canceller k =>
    rw [hd] at h
    exact hcancel k h

theorem Reinjecting.keep (h : Reinjecting s t j) (hduty : (s'.tasks t).duty = (s.tasks t).duty)
    (hjob : (s.jobs j).task = some t → (s'.jobs j).task = some t)
    (hworker : ∀ w phase, s.workers w = .wake j phase → (s.jobs j).task = some t → s'.workers w = s.workers w)
    (hcancel : ∀ k phase, s.cancellers k = .wake t phase → s'.cancellers k = s.cancellers k) : Reinjecting s' t j := by
  simp only [Reinjecting, hduty] at h ⊢
  cases hd : (s.tasks t).duty with
  | nobody | offered => rw [hd] at h; exact h
  | worker w =>
    rw [hd] at h
    obtain ⟨ht, phase, hw, hp⟩ := h
    exact ⟨hjob ht, phase, (hworker w phase hw ht).trans hw, hp⟩
  | canceller k =>
    rw [hd] at h
    obtain ⟨phase, hk, hp⟩ := h
    exact ⟨phase, (hcancel k phase hk).trans hk, hp⟩

theorem Task.Calm.keep {stop stop' : Bool} (h : x.Calm stop) (hstop : stop = true → stop' = true) (ha : x.activeJob = none → a = none) :
    Task.Calm { x with gate := g, activeJob := a } stop' where
  node := h.node
  activeJob := ha h.activeJob
  registered := h.registered
  duty := h.duty.imp_right fun ⟨k, hk, hs⟩ => ⟨k, hk, hstop hs⟩

theorem Task.Withdrawable.keep {stop stop' : Bool} (h : x.Withdrawable stop j y) (hstop : stop = true → stop' = true)
    (ha : x.activeJob = some j → a = some j) : Task.Withdrawable { x with gate := g, activeJob := a } stop' j y where
  node := h.node
  activeJob := ha h.activeJob
  registered := h.registered
  unstarted := h.unstarted
  offered := h.offered.imp_right fun ⟨hs, hy⟩ => ⟨hstop hs, hy⟩

theorem TaskOk.keep {pc : Pc V} (h : TaskOk s t pc) (hx : s'.tasks t = { s.tasks t with gate := g, activeJob := a })
    (hstop : s.stopRequested = true → s'.stopRequested = true) (ha : (s.tasks t).activeJob = none → a = none)
    (hheld : ∀ j, pc.holds = some j → s'.jobs j = s.jobs j ∧ ((s.tasks t).activeJob = some j → a = some j))
    (hresp : ∀ j, Responsible s t j → Responsible s' t j)
    (hre : ∀ j, Reinjecting s t j → Reinjecting s' t j) : TaskOk s' t pc := by
  have hcalm : (s.tasks t).Calm s.stopRequested → (s'.tasks t).Calm s'.stopRequested := fun hc => by
    rw [hx]; exact hc.keep hstop ha
  have hprep : ∀ live, (s.tasks t).Preparing live → (s'.tasks t).Preparing live := fun live hp => by
    rw [hx]; exact { hp with activeJob := ha hp.activeJob }
  have hcarries : ∀ y : Job T V, y.Carries t (s.tasks t) → y.Carries t (s'.tasks t) := fun y hy => by
    rw [hx]; exact { hy with }
  have hunres : ∀ j, (s.tasks t).Unresolved j → (s'.tasks t).Unresolved j := fun j hu => by rw [hx]; exact hu
  have hwith : ∀ j, pc.holds = some j → (s.tasks t).Withdrawable s.stopRequested j (s.jobs j) →
      (s'.tasks t).Withdrawable s'.stopRequested j (s'.jobs j) := fun j hj hw => by
    rw [hx, (hheld j hj).1]; exact hw.keep hstop (hheld j hj).2
  cases pc with
  | idle | returned outcome | enter => exact ⟨hcalm h.1, by rw [hx]; exact h.2⟩
  | alloc => exact hprep _ h
  | prepare j => exact ⟨hprep _ h.1, by rw [(hheld j rfl).1]; exact h.2⟩
  | close j | publish j =>
    refine ⟨hprep _ h.1, by rw [hx]; exact h.2.1, ?_⟩
    rw [(hheld j rfl).1]
    exact ⟨hcarries _ h.2.2.1, h.2.2.2⟩
  | submit j | rollback j error | rollbackDrain j error =>
    exact ⟨by rw [(hheld j rfl).1]; exact hcarries _ h.1, hwith j rfl h.2⟩
  | release j error phase => exact ⟨hcalm h.1, by rw [hx, (hheld j rfl).1]; exact h.2⟩
  | shouldPark j =>
    refine h.imp (fun ⟨hu, hr⟩ => ⟨hunres j hu, hresp j hr⟩) ?_
    rw [hx]
    exact id
  | parked j =>
    refine h.imp (fun ⟨hu, hr⟩ => ⟨hunres j hu, hresp j hr⟩) (fun ⟨hw, hr⟩ => ⟨?_, hre j hr⟩)
    rw [hx]
    exact hw
  | unregister | finishClose | finishDrain => rw [TaskOk, hx]; exact h

/-! ## What a job and a resolver read of a task -/

/-- The task waits, or is about to, for the call of job `j`. -/
def Task.Awaits (x : Task V W K) (j : Nat) : Prop := x.pc = .shouldPark j ∨ x.pc = .parked j

/-- The wait for job `j` goes on as it was. -/
structure SameWait (j : Nat) (x x' : Task V W K) : Prop where
  unresolved : x.Unresolved j → x'.Unresolved j
  waking : x.Waking j → x'.Waking j
  call : x'.call = x.call
  duty : x'.duty = x.duty
  wakeError : x'.wakeError = x.wakeError
  result : x'.result = x.result
  errno : x'.errno = x.errno
  started : x'.started = x.started
  callback : x'.callback = x.callback
  aborted : x'.aborted = x.aborted

namespace SameWait

variable {j : Nat} {x x' : Task V W K} (h : SameWait j x x')
include h

theorem unstarted (hu : x.Unstarted) : x'.Unstarted := by
  rw [Task.Unstarted, h.started, h.callback, h.call]; exact hu

theorem blank (hb : x.Blank) : x'.Blank := by
  refine ⟨h.unstarted hb.1, ?_⟩
  rw [h.aborted, h.call]; exact hb.2

theorem ran {v : V} {e : Option Errno} (hr : x.Ran v e) : x'.Ran v e := by
  rw [Task.Ran, h.started, h.callback, h.call]; exact hr

theorem done (hd : x.Done) : x'.Done :=
  hd.imp h.unstarted fun ⟨v, e, hr⟩ => ⟨v, e, h.ran hr⟩

theorem settled (hs : x.Settled) : x'.Settled := by
  rw [Task.Settled, h.wakeError, h.result, h.errno]
  rw [Task.Settled] at hs
  split at hs
  · exact h.ran hs
  · exact h.done hs

theorem offered {y : Job T V} (ho : Offered j y x) (ha : x'.activeJob = some j) : Offered j y x' where
  state := ho.state
  call := ho.call.trans h.call.symm
  duty := h.duty.trans ho.duty
  unresolved := h.unresolved ho.unresolved
  activeJob := ha
  calm := h.wakeError.trans ho.calm
  blank := h.blank ho.blank

theorem serving {y : Job T V} {w : W} (hs : Serving w j y x) (ha : x'.activeJob = some j) : Serving w j y x' where
  state := hs.state
  call := hs.call.trans h.call.symm
  duty := h.duty.trans hs.duty
  unresolved := h.unresolved hs.unresolved
  activeJob := ha
  calm := h.wakeError.trans hs.calm

end SameWait

theorem Task.Unresolved.awaits (h : x.Unresolved j) : x.Awaits j :=
  h.2.imp And.left And.left

theorem Task.Waking.awaits (h : x.Waking j) : x.Awaits j := .inr h.2.1

/-- The task waits for job `j`, and not for a resolver that has aborted it. -/
def Task.WaitsFor (x : Task V W K) (j : Nat) : Prop := x.Awaits j ∧ ∀ k, x.duty ≠ .canceller k

theorem Offered.waitsFor (h : Offered j y x) : x.WaitsFor j :=
  ⟨h.unresolved.awaits, fun _ hk => nomatch h.duty.symm.trans hk⟩

theorem Serving.waitsFor (h : Serving w j y x) : x.WaitsFor j :=
  ⟨h.unresolved.awaits, fun _ hk => nomatch h.duty.symm.trans hk⟩

/-- A step leaves a task as it was, as far as job `j` reads it. -/
structure Keeps (j : Nat) (x x' : Task V W K) : Prop where
  activeJob : x'.activeJob = some j → x.activeJob = some j
  stays : x.WaitsFor j → x.activeJob = some j → x'.activeJob = some j
  wait : x.WaitsFor j → SameWait j x x'

theorem SameWait.refl (j : Nat) (x : Task V W K) : SameWait j x x :=
  ⟨id, id, rfl, rfl, rfl, rfl, rfl, rfl, rfl, rfl⟩

theorem Keeps.refl (j : Nat) (x : Task V W K) : Keeps j x x := ⟨id, fun _ => id, fun _ => .refl j x⟩

theorem Keeps.offered (h : Keeps j x x') (ho : Offered j y x) : Offered j y x' :=
  (h.wait ho.waitsFor).offered ho (h.stays ho.waitsFor ho.activeJob)

theorem Keeps.serving (h : Keeps j x x') (hs : Serving w j y x) : Serving w j y x' :=
  (h.wait hs.waitsFor).serving hs (h.stays hs.waitsFor hs.activeJob)

theorem Keeps.leftover (hpc : ¬ x.WaitsFor j) (ha : x'.activeJob = some j → x.activeJob = some j) : Keeps j x x' :=
  ⟨ha, fun h => absurd h hpc, fun h => absurd h hpc⟩

theorem WorkerOk.keep {pc : WorkerPc} (h : WorkerOk w j y x pc) (hk : Keeps j x x') : WorkerOk w j y x' pc := by
  have hserving : Serving w j y x → SameWait j x x' := fun hs => hk.wait hs.waitsFor
  cases pc with
  | idle | discard i => exact h
  | claim i => exact h.imp_left hk.offered
  | noteActive i =>
    have hw := hserving h.1
    exact ⟨hk.serving h.1, hw.blank h.2.1, h.2.2⟩
  | calling i =>
    have hw := hserving h.1
    refine ⟨hk.serving h.1, ?_⟩
    rw [hw.started, hw.callback, hw.call]
    exact h.2
  | complete i | finish i =>
    have hw := hserving h.1
    exact ⟨hk.serving h.1, hw.ran h.2.1, h.2.2⟩
  | storeResult i | storeCancelled i =>
    have hw := hserving h.1
    exact ⟨hk.serving h.1, hw.ran h.2⟩
  | wake i phase =>
    have hwaking : x.Waking j → x.Settled → x.duty = .worker w → x'.duty = .worker w ∧ x'.Waking j ∧ x'.Settled :=
      fun hv hs hd => by
        have hw := hk.wait ⟨hv.awaits, fun _ hk => nomatch hd.symm.trans hk⟩
        exact ⟨hw.duty.trans hd, hw.waking hv, hw.settled hs⟩
    cases phase with
    | prepare =>
      obtain ⟨hq, hd, hu, hs⟩ := h
      have hw := hk.wait ⟨hu.awaits, fun _ hk => nomatch hd.symm.trans hk⟩
      exact ⟨hq, hw.duty.trans hd, hw.unresolved hu, hw.settled hs⟩
    | close | drain | run => exact ⟨h.1, hwaking h.2.2.1 h.2.2.2 h.2.1⟩
  | release i phase =>
    cases phase with
    | cas => exact h
    | close | drain | push => exact ⟨h.1, fun ha => h.2 (hk.activeJob ha)⟩

theorem JobOk.keep (h : JobOk s j) (hjob : s'.jobs j = s.jobs j) (hplace : s'.place j = s.place j)
    (hworker : ∀ w, s.place j = .worker w → s'.workers w = s.workers w)
    (hk : ∀ t, (s.jobs j).task = some t → (∀ u, s.place j ≠ .task u) → Keeps j (s.tasks t) (s'.tasks t)) :
    JobOk s' j := by
  simp only [JobOk, hjob, hplace] at h ⊢
  cases hp : s.place j with
  | fresh | pool => rw [hp] at h; exact h
  | task u => trivial
  | queue =>
    rw [hp] at h
    obtain ⟨t, ht, hr, ho⟩ := h
    exact ⟨t, ht, hr, ho.imp_left (hk t ht (by rw [hp]; exact nofun)).offered⟩
  | worker w =>
    rw [hp] at h
    obtain ⟨t, ht, hr, ho⟩ := h
    refine ⟨t, ht, hr, ?_⟩
    rw [hworker w hp]
    exact ho.keep (hk t ht (by rw [hp]; exact nofun))

theorem Sent.keep {expected : Option Nat} (h : Sent s t expected)
    (hstop : s.stopRequested = true → s'.stopRequested = true)
    (hsent : (s'.tasks t).generation = (s.tasks t).generation ∧
        ((s.tasks t).pc.committed = true → (s'.tasks t).pc.committed = true) ∨
      (s.tasks t).generation < (s'.tasks t).generation) : Sent s' t expected := by
  refine ⟨fun he => hstop (h.1 he), fun generation he => ?_⟩
  obtain ⟨hle, hc⟩ := h.2 generation he
  rcases hsent with ⟨hg, hcom⟩ | hlt
  · rw [hg]
    exact ⟨hle, fun heq => hcom (hc heq)⟩
  · exact ⟨by omega, fun heq => by omega⟩

theorem Loaded.keep {generation : Nat} (h : Loaded s t j generation)
    (hstop : s.stopRequested = true → s'.stopRequested = true)
    (htask : (s'.jobs j).task = some t) (hg : (s'.tasks t).generation = (s.tasks t).generation)
    (hcom : (s.tasks t).pc.committed = true → (s'.tasks t).pc.committed = true)
    (hactive : (s.tasks t).activeJob = some j ∨
        (∃ w, s.workers w = .release j .close ∨ s.workers w = .release j .drain) →
      (s'.tasks t).activeJob = some j ∨
        ∃ w, s'.workers w = .release j .close ∨ s'.workers w = .release j .drain) : Loaded s' t j generation where
  task := htask
  generation := hg.trans h.generation
  active := hactive h.active
  committed := h.committed.imp hstop hcom

theorem CancelOk.keep {k : K} (h : CancelOk s k pc) (ht : pc.target = some t)
    (hstop : s.stopRequested = true → s'.stopRequested = true)
    (hsent : (s'.tasks t).generation = (s.tasks t).generation ∧
        ((s.tasks t).pc.committed = true → (s'.tasks t).pc.committed = true) ∨
      (s.tasks t).generation < (s'.tasks t).generation)
    (hload : pc.ref = some t → ∀ j generation, Loaded s t j generation → Loaded s' t j generation)
    (hduty : (s.tasks t).duty = .canceller k → (s'.tasks t).duty = .canceller k ∧
      (∀ j, (s.tasks t).Awaits j → SameWait j (s.tasks t) (s'.tasks t)) ∧
      (s.stopRequested = true → (s.tasks t).pc.withdrawn = true → (s'.tasks t).pc.withdrawn = true)) :
    CancelOk s' k pc := by
  cases pc with
  | idle | done u => trivial
  | enter u expected | check u expected => cases ht; exact Sent.keep h hstop hsent
  | abortQueued u j generation | recheck u j generation | abortRunning u j generation =>
    cases ht; exact hload rfl j generation h
  | store u =>
    cases ht
    obtain ⟨hd, hw, hp⟩ := hduty h.1
    refine ⟨hd, h.2.imp ?_ fun ⟨hs, hpc⟩ => ⟨hstop hs, hp hs hpc⟩⟩
    rintro ⟨⟨j, hu⟩, he, hun⟩
    have hw := hw j hu.awaits
    exact ⟨⟨j, hw.unresolved hu⟩, hw.wakeError.trans he, hw.unstarted hun⟩
  | finish u =>
    cases ht
    obtain ⟨hd, hw, hp⟩ := hduty h.1
    refine ⟨hd, h.2.imp ?_ fun ⟨hs, hpc⟩ => ⟨hstop hs, hp hs hpc⟩⟩
    rintro ⟨⟨j, hu⟩, he⟩
    have hw := hw j hu.awaits
    exact ⟨⟨j, hw.unresolved hu⟩, hw.settled he⟩
  | wake u phase =>
    cases ht
    have hwaking : (∃ j, (s.tasks t).Waking j) ∧ (s.tasks t).Settled → (s.tasks t).duty = .canceller k →
        (s'.tasks t).duty = .canceller k ∧ (∃ j, (s'.tasks t).Waking j) ∧ (s'.tasks t).Settled := by
      rintro ⟨⟨j, hv⟩, hs⟩ hd
      obtain ⟨hd', hw, _⟩ := hduty hd
      have hw := hw j hv.awaits
      exact ⟨hd', ⟨j, hw.waking hv⟩, hw.settled hs⟩
    cases phase with
    | prepare =>
      obtain ⟨hd, hw, hp⟩ := hduty h.1
      refine ⟨hd, h.2.imp ?_ fun ⟨hs, hpc⟩ => ⟨hstop hs, hp hs hpc⟩⟩
      rintro ⟨⟨j, hu⟩, he⟩
      have hw := hw j hu.awaits
      exact ⟨⟨j, hw.unresolved hu⟩, hw.settled he⟩
    | close | drain | run => exact hwaking h.2 h.1

theorem Part.away (h : Inv s) (ha : Away s s' t) : Part s' t := by
  have hp := h.part t
  have hresp : ∀ j, Responsible s t j → Responsible s' t j := fun j hr =>
    hr.keep (by rw [ha.task])
      (fun ht => by rw [(ha.job j (.inr (.inl ht))).1, (ha.job j (.inr (.inl ht))).2]; exact ⟨ht, id, rfl⟩)
      (fun w hw ht => ha.worker w j (hw.elim (fun hc => by rw [hc.1]; rfl) WorkerPc.holds_of_serves) ht)
      (fun k hk => by rw [ha.canceller k (.inl (CancelPc.target_of_aborts hk))]; exact hk)
  have hre : ∀ j, Reinjecting s t j → Reinjecting s' t j := fun j hr =>
    hr.keep (by rw [ha.task]) (fun ht => by rw [(ha.job j (.inr (.inl ht))).1]; exact ht)
      (fun w phase hw ht => ha.worker w j (by rw [hw]; rfl) ht)
      (fun k phase hk => ha.canceller k (.inl (by rw [hk]; rfl)))
  exact {
    holders := by
      intro k
      rw [ha.task, hp.holders k]
      constructor
      · intro hk; rw [ha.canceller k (.inl (CancelPc.target_of_ref hk))]; exact hk
      · intro hk; rw [← ha.canceller k (.inr (CancelPc.target_of_ref hk))]; exact hk
    registered := by rw [ha.task]; exact hp.registered
    history := by rw [ha.task]; exact hp.history
    task := by
      rw [ha.task]
      refine hp.task.keep (g := (s.tasks t).gate) (a := (s.tasks t).activeJob) ha.task ha.stop id
        (fun j hj => ⟨(ha.job j (.inl ((h.places.task t j).mp hj))).1, id⟩) hresp hre
    job := by
      intro j hj
      obtain ⟨hjob, hplace⟩ := ha.job j (.inr (.inr hj))
      rw [hjob] at hj
      refine (hp.job j hj).keep hjob hplace (fun w hw => ha.worker w j ((h.places.worker w j).mpr hw) hj) ?_
      intro u hu _
      cases hj.symm.trans hu
      rw [ha.task]
      exact .refl j _
    cancel := by
      intro k hk
      have hsame := ha.canceller k (.inr hk)
      rw [hsame] at hk ⊢
      refine (hp.cancel k hk).keep hk ha.stop (.inl ?_) ?_ ?_
      · rw [ha.task]; exact ⟨rfl, id⟩
      · intro _ j generation hl
        refine hl.keep ha.stop ?_ (by rw [ha.task]) (by rw [ha.task]; exact id) ?_
        · rw [(ha.job j (.inr (.inl hl.task))).1]; exact hl.task
        · rw [ha.task]
          refine Or.imp_right ?_
          rintro ⟨w, hw⟩
          refine ⟨w, ?_⟩
          rw [ha.worker w j (by rcases hw with hw | hw <;> rw [hw] <;> rfl) hl.task]
          exact hw
      · intro hd
        rw [ha.task]
        exact ⟨hd, fun j _ => .refl j _, fun _ => id⟩ }

theorem Inv.act (h : Inv s) (hp : Places s') (hpart : ∀ t, Away s s' t ∨ Part s' t)
    (horphan : ∀ j, (s'.jobs j).task = none → JobOk s' j) : Inv s' where
  places := hp
  part t := (hpart t).elim (fun ha => .away h ha) id
  orphan := horphan

end Llam.Blocking
