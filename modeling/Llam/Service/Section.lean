import Llam.Service.World
import Llam.Broker.TaskSlots

/-!
# Sections

What a step of the broker at work does, said once (`Section`, `step_section`). The tables of the broker take at most one
step of their own (`core_reachable`).
-/

namespace Llam.Service

open Llam.Lib Llam.Broker Llam.Ring

variable {n : Nat}

/-- The operation presents no secret. -/
def World.Open (w : World n) (o : Op) : Prop := ∀ t, o.presents = some t → w.hidden t = false

/-- A request and the step of the tables that it asks for. -/
inductive Begins (w : World n) (k : Fin n) (p : Pending) : Action n → Prop
  | op {o : Op} {overtakes : Nat → Nat} {env : Env} (hasks : p.request.asks = .op o) (hopen : w.Open o) :
    Begins w k p (.op p.subject o overtakes env)
  | spawn {code : UInt32} {arg0 : UInt64} {rights : Rights} {env : Env} (hasks : p.request.asks = .spawn code arg0 rights) :
    Begins w k p (.spawn k p.subject code arg0 rights env)

/-- A submission and the step of the tables that it asks for. -/
inductive Enters (w : World n) (k : Fin n) (b : Batch) (sub : Submission) : Action n → Prop
  | op {o : Op} {data : Bytes} {overtakes : Nat → Nat} {env : Env} (hrequest : sub.request data = .op o) (hopen : w.Open o) :
    Enters w k b sub (.op b.subject o overtakes env)
  | spawn {code : UInt32} {arg0 : UInt64} {data : Bytes} {env : Env} (hrequest : sub.request data = .spawn code arg0) :
    Enters w k b sub (.spawn k b.subject code arg0 (.JOIN ||| .DETACH) env)

/-- The request is new. -/
structure World.Fresh (w : World n) (k : Fin n) (p : Pending) : Prop where
  idle : w.jobs k = .idle
  present : w.present p.subject = true
  next : p.next = w.core.control.next
  serials : p.serials = w.serials

/-- The next submission of a batch. -/
structure World.Next (w : World n) (k : Fin n) (b : Batch) (sub : Submission) (rest : List Submission) : Prop where
  job : w.jobs k = .batch b
  todo : b.todo = sub :: rest

/-- A session that was in the table, or that was set up now. -/
inductive Finds (w : World n) (subject : UInt64) : World n → Fin sessionCount → Prop
  | owned {id : UInt64} {refused : Option Errno} {i : Fin sessionCount}
      (hfound : beginOwnedSession w.sessions id subject refused = .ok i) : Finds w subject w i
  | direct {ring : Nat} {sessions : Sessions} {i : Fin sessionCount} (hpresent : w.present subject = true)
      (hfound : sessionGet w.sessions ring subject w.serials = .ok (sessions, i)) :
    Finds w subject { w with sessions := sessions, serials := w.serials + 1 } i

/-- **What a step does.** -/
inductive Section (w : World n) : World n → Prop
  | connect {A : UInt64} (hzero : A ≠ 0) (hnew : A ∉ w.subjects) :
    Section w { w with connected := A :: w.connected, subjects := A :: w.subjects }
  | forget {k : Fin n} {A : UInt64} (hidle : w.jobs k = .idle) (hconnected : A ∈ w.connected)
      (hserves : ∀ l, (w.jobs l).serves ≠ some A) :
    Section w { w.setJob k (.reclaimRings A) with connected := w.connected.filter (· ≠ A) }
  | background {a : Action n} {core : State n} {out : Option Outcome} (ha : ofNobody a = true)
      (hexec : w.core.exec a = some (core, out)) : Section w { w with core := core }
  | same : Section w w
  /-- Requests -/
  | answer {k : Fin n} {p : Pending} {r : Response} (hfresh : w.Fresh k p) (hundo : p.request.undo r = .nothing) :
    Section w (w.setJob k (.reply p r))
  | ask {k : Fin n} {p : Pending} {a : Action n} {core : State n} {out : Outcome} (hfresh : w.Fresh k p)
      (hbegins : Begins w k p a) (hexec : w.core.exec a = some (core, some out)) :
    Section w ({ w with core := core }.setJob k (.reply p (p.request.response out)))
  | spawn {k : Fin n} {p : Pending} {a : Action n} {core : State n} (hfresh : w.Fresh k p) (hbegins : Begins w k p a)
      (hexec : w.core.exec a = some (core, none)) : Section w ({ w with core := core }.setJob k (.spawning p))
  | createRing {k : Fin n} {p : Pending} {ring : Nat} {refused : Option Errno} {sessions : Sessions} {i : Fin sessionCount}
      (hfresh : w.Fresh k p) (hasks : p.request.asks = .createRing)
      (hregister : registerMapping w.sessions ring p.subject w.serials refused = .ok (sessions, i))
      (hnew : w.inUse ring = false) :
    Section w { w.setJob k (.reply p (Request.ringResponse i)) with sessions := sessions, serials := w.serials + 1 }
  /-- The sections of a spawn -/
  | goesOn {k : Fin n} {a : Action n} {core : State n} (ha : ofThread k a = true)
      (hexec : w.core.exec a = some (core, none)) : Section w { w with core := core }
  | spawned {k : Fin n} {p : Pending} {a : Action n} {core : State n} {out : Outcome} (ha : ofThread k a = true)
      (hjob : w.jobs k = .spawning p) (hexec : w.core.exec a = some (core, some out)) :
    Section w ({ w with core := core }.setJob k (.reply p (p.request.response out)))
  | spawnDone {k : Fin n} {b : Batch} {sub : Submission} {rest : List Submission} {a : Action n} {core : State n}
      {out : Outcome} (ha : ofThread k a = true) (hnext : w.Next k b sub rest)
      (hexec : w.core.exec a = some (core, some out)) :
    Section w ({ w with core := core }.complete k b sub rest (sub.finish (fun _ => 0) out).2 out.token)
  /-- Responses -/
  | delivered {k : Fin n} {p : Pending} {r : Response} (hjob : w.jobs k = .reply p r) : Section w (w.setJob k .idle)
  | withdraw {k : Fin n} {p : Pending} {r : Response} {id : UInt64} (hjob : w.jobs k = .reply p r)
      (hundo : p.request.undo r = .session id) :
    Section w ({ w with sessions := forgetSession w.sessions id p.subject }.setJob k .idle)
  | rollback {k : Fin n} {p : Pending} {r : Response} {t : Token} {core : State n} {out : Option Outcome}
      (hjob : w.jobs k = .reply p r) (hundo : p.request.undo r = .object t)
      (hexec : w.core.exec (.rollback t) = some (core, out)) : Section w ({ w with core := core }.setJob k .idle)
  /-- Batches -/
  | found {w' : World n} {A : UInt64} {i : Fin sessionCount} (hfinds : Finds w A w' i) : Section w w'
  | reserve {k : Fin n} {w' : World n} {A : UInt64} {i : Fin sessionCount} {mem : Shared} {max : Nat}
      {submissions : List Submission} (hidle : w.jobs k = .idle) (hfinds : Finds w A w' i)
      (hbusy : (w'.sessions i).busy = false)
      (hreserve : (w'.sessions i).reserveBatch (w'.memory i mem) max = .ok submissions)
      (htodo : submissions.take (authoritySafeBatchCount submissions) ≠ []) :
    Section w { w'.setJob k (.batch
        ((w'.sessions i).batch i A (w'.memory i mem).completeHead
          (submissions.take (authoritySafeBatchCount submissions)))) with
      sessions := Function.update w'.sessions i { w'.sessions i with busy := true } }
  | dismiss {k : Fin n} {b : Batch} {sub : Submission} {rest : List Submission} {c : Completion}
      (hnext : w.Next k b sub rest) (hspawning : b.spawning = false) (hc : c.requestId = sub.requestId) :
    Section w ((w.start b sub).complete k b sub rest c none)
  | execute {k : Fin n} {b : Batch} {sub : Submission} {rest : List Submission} {a : Action n} {core : State n}
      {data : Bytes} {out : Outcome} (hnext : w.Next k b sub rest) (hspawning : b.spawning = false)
      (henters : Enters w k b sub a) (hexec : w.core.exec a = some (core, some out)) :
    Section w (({ w with core := core }.start b sub).complete k b sub rest (sub.finish data out).2 out.token)
  | beginSpawn {k : Fin n} {b : Batch} {sub : Submission} {rest : List Submission} {a : Action n} {core : State n}
      (hnext : w.Next k b sub rest) (hspawning : b.spawning = false) (henters : Enters w k b sub a)
      (hexec : w.core.exec a = some (core, none)) :
    Section w (({ w with core := core }.start b sub).setJob k (.batch { b with spawning := true }))
  | publish {k : Fin n} {b : Batch} (mem : Shared) (hjob : w.jobs k = .batch b) (hdone : b.todo = []) :
    Section w (w.publishBatch k b mem)
  /-- Cleaning up -/
  | unwind {k : Fin n} {A : UInt64} {t : Token} {tokens : List Token} {reclaim : Bool} {core : State n}
      {out : Option Outcome} (hjob : w.jobs k = .unwind A (t :: tokens) reclaim)
      (hexec : w.core.exec (.rollback t) = some (core, out)) :
    Section w { w.setJob k (.unwind A tokens reclaim) with core := core }
  | unwound {k : Fin n} {A : UInt64} {reclaim : Bool} (hjob : w.jobs k = .unwind A [] reclaim) :
    Section w (w.setJob k (if reclaim then .reclaimRings A else .idle))
  | reclaimRings {k : Fin n} {A : UInt64} (hjob : w.jobs k = .reclaimRings A) :
    Section w { w.setJob k (if (Service.reclaimRings w.sessions A).2 then .idle else .reclaimObjects A World.families) with
      sessions := (Service.reclaimRings w.sessions A).1 }
  | reclaimObjects {k : Fin n} {A : UInt64} {f : Family} {left : List Family} {core : State n} {out : Option Outcome}
      (hjob : w.jobs k = .reclaimObjects A (f :: left)) (hexec : w.core.exec (.reclaim f A) = some (core, out)) :
    Section w { w.setJob k (.reclaimObjects A left) with core := core }
  | reclaimed {k : Fin n} {A : UInt64} (hjob : w.jobs k = .reclaimObjects A []) : Section w (w.setJob k .idle)

/-! ## Every step is a section -/

section Steps

variable {w w' : World n} {k : Fin n}

theorem exec_core {a : Action n} {r : State n × Option Outcome} (h : w.exec a = some r) : w.core.exec a = some r := by
  unfold World.exec at h
  split at h
  · split at h
    · cases h
    · exact h
  · exact h

variable {A : UInt64} {overtakes : Nat → Nat} {env : Env} {r : Request}

theorem exec_open {o : Op} {r : State n × Option Outcome} (h : w.exec (.op A o overtakes env) = some r) : w.Open o := by
  intro t ht
  simp only [World.exec] at h
  split at h
  · cases h
  rename_i hhidden
  rw [ht, Option.any_some, Bool.not_eq_true] at hhidden
  exact hhidden

theorem reserve_section {i : Fin sessionCount} {mem : Shared} {max : Nat} (hidle : w.jobs k = .idle)
    (hfinds : Finds w A w' i) : Section w (w'.reserve k i A mem max) := by
  unfold World.reserve
  dsimp only
  split
  · exact .found hfinds
  rename_i hbusy
  split
  · exact .found hfinds
  rename_i hreserve
  split
  · exact .found hfinds
  · rename_i htodo
    exact .reserve hidle hfinds (Bool.not_eq_true _ ▸ hbusy) hreserve htodo

theorem undo_bare {resp : Response} (htoken : resp.token = none) (hresult : resp.result2 = 0) :
    r.undo resp = .nothing := by
  unfold Request.undo
  split
  · rfl
  split
  · rename_i hring
    exact absurd hresult hring.2
  · rw [htoken]
    split <;> first | rfl | contradiction

theorem answer_undo {resp : Response} (h : r.asks = .answer resp) : r.undo resp = .nothing := by
  have hbare : ∀ a : Asks, a = .answer resp → (a = .answer .plain ∨ ∃ e, a = .answer (.failed e)) →
      r.undo resp = .nothing := by
    rintro a ha (rfl | ⟨e, rfl⟩) <;> cases ha <;> exact undo_bare rfl rfl
  have hgranted : ∀ {f : Family} {a : Asks}, r.granted f a = .answer resp → (a = .answer resp → r.undo resp = .nothing) →
      r.undo resp = .nothing := by
    intro f a h ha
    unfold Request.granted at h
    split at h
    · exact hbare _ h (.inr ⟨_, rfl⟩)
    · exact ha h
  have hmeasured : ∀ {o : Op}, r.measured o = .answer resp → r.undo resp = .nothing := by
    intro o h
    unfold Request.measured at h
    split at h
    · exact hbare _ h (.inr ⟨_, rfl⟩)
    · cases h
  have hcreate : ∀ {f : Family} {o : Op}, r.createGrant f o = .answer resp → r.undo resp = .nothing := by
    intro f o h
    unfold Request.createGrant at h
    split at h
    · exact hbare _ h (.inr ⟨_, rfl⟩)
    · exact hgranted h nofun
  unfold Request.asks at h
  split at h
  · exact hbare _ h (.inr ⟨_, rfl⟩)
  split at h
  · exact hbare _ h (.inr ⟨_, rfl⟩)
  cases hop : WireOp.ofCode r.op with
  | none =>
    rw [hop] at h
    exact hbare _ h (.inr ⟨_, rfl⟩)
  | some op =>
    rw [hop] at h
    cases op with
    | PING | STOP => exact hbare _ h (.inl rfl)
    | ISSUE_CAP | REVOKE_ALL => exact hbare _ h (.inr ⟨_, rfl⟩)
    | VALIDATE_CAP | ATTENUATE_CAP | REVOKE_CAP | CREATE_RING | SERVE_RING | CHANNEL_CLOSE | TASK_JOIN | TASK_DETACH =>
      cases h
    | CREATE_BUFFER | CREATE_CHANNEL => exact hcreate h
    | BUFFER_READ | BUFFER_WRITE | CHANNEL_SEND | CHANNEL_RECV | DESCRIPTOR_READ | DESCRIPTOR_WRITE => exact hmeasured h
    | REGISTER_DESCRIPTOR =>
      dsimp only at h
      split at h
      · exact hbare _ h (.inr ⟨_, rfl⟩)
      · exact hgranted h nofun
    | TASK_SPAWN =>
      refine hgranted h fun h => ?_
      split at h
      · exact hbare _ h (.inr ⟨_, rfl⟩)
      · cases h

theorem ask_section {ring : Nat} {mem : Shared}
    (hasked : w.asked k A r = true) (h : w.ask k A r ring mem overtakes env = some w') : Section w w' := by
  have hidle : w.jobs k = .idle := by
    unfold World.asked at hasked
    split at hasked <;> first | assumption | cases hasked
  have hfresh : (∀ id max, r.asks ≠ .serveRing id max) → w.Fresh k ⟨A, r, w.core.control.next, w.serials⟩ := by
    intro hserve
    refine ⟨hidle, ?_, rfl, rfl⟩
    unfold World.asked at hasked
    split at hasked
    · rename_i hasks
      exact absurd hasks (hserve _ _)
    · exact hasked
    · cases hasked
  unfold World.ask at h
  split at h
  · rename_i hasks
    cases h
    exact .answer (hfresh (by rw [hasks]; nofun)) (answer_undo hasks)
  · rename_i hasks
    split at h
    · rename_i hexec
      cases h
      exact .ask (hfresh (by rw [hasks]; nofun)) (.op hasks (exec_open hexec)) (exec_core hexec)
    · cases h
  · rename_i hasks
    split at h
    · rename_i hexec
      cases h
      exact .ask (hfresh (by rw [hasks]; nofun)) (.spawn hasks) (exec_core hexec)
    · rename_i hexec
      cases h
      exact .spawn (hfresh (by rw [hasks]; nofun)) (.spawn hasks) (exec_core hexec)
    · cases h
  · rename_i hasks
    split at h
    · cases h
    rename_i hnew
    split at h
    · cases h
      exact .answer (hfresh (by rw [hasks]; nofun)) (undo_bare rfl rfl)
    rename_i hregister
    cases h
    exact .createRing (hfresh (by rw [hasks]; nofun)) hasks hregister (Bool.not_eq_true _ ▸ hnew)
  · split at h
    · cases h
      exact .same
    rename_i hfound
    cases h
    exact reserve_section hidle (.owned hfound)

theorem execute_section {b : Batch} {data : Bytes} (hjob : w.jobs k = .batch b)
    (h : w.executeNext k b data overtakes env = some w') : Section w w' := by
  unfold World.executeNext at h
  split at h
  · rename_i sub rest hspawning htodo
    have hnext : w.Next k b sub rest := ⟨hjob, htodo⟩
    split at h
    · cases h
      exact .dismiss hnext hspawning rfl
    · cases h
      exact .dismiss hnext hspawning rfl
    · rename_i hrequest
      split at h
      · rename_i hexec
        cases h
        exact .execute hnext hspawning (.op hrequest (exec_open hexec)) (exec_core hexec)
      · cases h
    · rename_i hrequest
      split at h
      · rename_i hexec
        cases h
        exact .execute hnext hspawning (.spawn hrequest) (exec_core hexec)
      · rename_i hexec
        cases h
        exact .beginSpawn hnext hspawning (.spawn hrequest) (exec_core hexec)
      · cases h
  · cases h

theorem call_section {a : Action n} (ha : ofThread k a = true) (h : w.callNext k a = some w') : Section w w' := by
  unfold World.callNext at h
  split at h
  · rename_i hjob hexec
    cases h
    exact .spawned ha hjob (exec_core hexec)
  · rename_i hexec
    cases h
    exact .goesOn ha (exec_core hexec)
  · rename_i hjob hexec
    split at h
    · rename_i htodo
      cases h
      exact .spawnDone ha ⟨hjob, htodo⟩ (exec_core hexec)
    · cases h
  · rename_i hexec
    cases h
    exact .goesOn ha (exec_core hexec)
  · cases h

theorem rollback_section {p : Pending} {r : Response} (hjob : w.jobs k = .reply p r)
    (h : (w.rollback p r).map (fun w' => w'.setJob k .idle) = some w') : Section w w' := by
  obtain ⟨w₁, hrollback, rfl⟩ := Option.map_eq_some_iff.mp h
  unfold World.rollback at hrollback
  split at hrollback
  · cases hrollback
    exact .delivered hjob
  · rename_i hundo
    cases hrollback
    exact .withdraw hjob hundo
  · rename_i hundo
    obtain ⟨⟨core, out⟩, hexec, rfl⟩ := Option.map_eq_some_iff.mp hrollback
    exact .rollback hjob hundo (exec_core hexec)

theorem unwind_section (h : w.unwindNext k = some w') : Section w w' := by
  unfold World.unwindNext at h
  split at h
  · rename_i hjob
    obtain ⟨⟨core, out⟩, hexec, rfl⟩ := Option.map_eq_some_iff.mp h
    exact .unwind hjob (exec_core hexec)
  · rename_i hjob
    cases h
    exact .unwound hjob
  · cases h

theorem reclaim_section (h : w.reclaimNext k = some w') : Section w w' := by
  unfold World.reclaimNext at h
  split at h
  · rename_i hjob
    cases h
    exact .reclaimRings hjob
  · rename_i hjob
    obtain ⟨⟨core, out⟩, hexec, rfl⟩ := Option.map_eq_some_iff.mp h
    exact .reclaimObjects hjob (exec_core hexec)
  · rename_i hjob
    cases h
    exact .reclaimed hjob
  · cases h

/-- **Every step is a section.** -/
theorem step_section {a : Act n} (h : w.step a = some w') : Section w w' := by
  cases a with
  | request k A r ring mem overtakes env =>
    simp only [World.step] at h
    split at h
    · rename_i hasked
      exact ask_section hasked h
    · cases h
  | serveRing k A ring max mem =>
    simp only [World.step] at h
    split at h
    · rename_i hidle hpresent hfound
      cases h
      rw [Bool.and_eq_true] at hpresent
      exact reserve_section hidle (.direct hpresent.1 hfound)
    · cases h
  | call k a =>
    simp only [World.step] at h
    split at h
    · rename_i ha
      exact call_section ha h
    · cases h
  | delivered k =>
    simp only [World.step] at h
    split at h
    · rename_i hjob
      cases h
      exact .delivered hjob
    · cases h
  | undelivered k =>
    simp only [World.step] at h
    split at h
    · rename_i hjob
      exact rollback_section hjob h
    · cases h
  | execute k data overtakes env =>
    simp only [World.step] at h
    split at h
    · rename_i hjob
      exact execute_section hjob h
    · cases h
  | publish k mem =>
    simp only [World.step] at h
    split at h
    · rename_i hjob
      split at h
      · rename_i hdone
        cases h
        exact .publish mem hjob hdone
      · cases h
    · cases h
  | unwind k => exact unwind_section h
  | reclaim k => exact reclaim_section h
  | connect A =>
    simp only [World.step] at h
    split at h
    · cases h
    rename_i hnew
    cases h
    rw [not_or] at hnew
    exact .connect hnew.1 hnew.2
  | forget k A =>
    simp only [World.step] at h
    split at h
    · rename_i hidle
      split at h
      · rename_i hforget
        cases h
        exact .forget hidle hforget.1 hforget.2
      · cases h
    · cases h
  | background a =>
    simp only [World.step] at h
    split at h
    · rename_i ha
      obtain ⟨⟨core, out⟩, hexec, rfl⟩ := Option.map_eq_some_iff.mp h
      exact .background ha (exec_core hexec)
    · cases h

end Steps

/-! ## The tables of the broker -/

section Core

variable {w w' : World n}

theorem Finds.core {A : UInt64} {i : Fin sessionCount} (h : Finds w A w' i) : w'.core = w.core := by
  cases h <;> rfl

theorem publishBatch_core {k : Fin n} {b : Batch} {mem : Shared} : (w.publishBatch k b mem).core = w.core := by
  unfold World.publishBatch
  dsimp only
  split <;> rfl

/-- The tables take one step or none. -/
theorem Section.core (h : Section w w') : w'.core = w.core ∨ ∃ a out, w.core.exec a = some (w'.core, out) := by
  cases h with
  | connect | forget | same | answer | createRing | delivered | withdraw | dismiss | unwound | reclaimRings | reclaimed =>
    exact .inl rfl
  | background _ hexec | ask _ _ hexec | spawn _ _ hexec | goesOn _ hexec | spawned _ _ hexec | spawnDone _ _ hexec
  | rollback _ _ hexec | execute _ _ _ hexec | beginSpawn _ _ _ hexec | unwind _ hexec | reclaimObjects _ hexec =>
    exact .inr ⟨_, _, hexec⟩
  | found hfinds | reserve _ hfinds => exact .inl hfinds.core
  | publish => exact .inl publishBatch_core

/-- **Refinement**: the tables of a reachable broker are reachable by steps of their own. -/
theorem core_reachable {runtimeId : UInt64} {key : Key} (h : Reachable World.step (World.init n runtimeId key) w) :
    Reachable Broker.step (State.init n runtimeId key) w.core := by
  refine h.induction (I := fun w => Reachable Broker.step (State.init n runtimeId key) w.core) (.refl _) ?_
  intro w a w' hcore hstep
  rcases (step_section hstep).core with hsame | ⟨act, out, hexec⟩
  · rw [hsame]
    exact hcore
  refine hcore.tail (a := act) ?_
  unfold Broker.step
  rw [hexec]
  rfl

theorem run_core {as : List (Act n)} (h : run World.step w as = some w') :
    ∃ as', run Broker.step w.core as' = some w'.core := by
  refine run_trans (I := fun _ => True) (R := fun w w' : World n => ∃ as', run Broker.step w.core as' = some w'.core)
    (fun w => ⟨[], rfl⟩) ?_ (fun _ _ _ _ _ => trivial) ?_ trivial h
  · rintro w₁ w₂ w₃ ⟨as, has⟩ ⟨bs, hbs⟩
    exact ⟨as ++ bs, run_append.mpr ⟨w₂.core, has, hbs⟩⟩
  · intro w a w' _ hstep
    rcases (step_section hstep).core with hsame | ⟨act, out, hexec⟩
    · exact ⟨[], by rw [hsame]; rfl⟩
    refine ⟨[act], run_cons.mpr ⟨w'.core, ?_, rfl⟩⟩
    unfold Broker.step
    rw [hexec]
    rfl

/-- A token that is dead is refused from now on. -/
theorem refused_later (hinv : Inv w.core) {t : Token} (ht : t ∈ w.core.minted) (hdead : w.core.Dead t)
    {as : List (Act n)} (hrun : run World.step w as = some w') (subject : UInt64) (m : Nat) :
    w'.core.control.Refuses subject (nextEpoch^[m] w'.core.control.epoch) t := by
  obtain ⟨as', hcore⟩ := run_core hrun
  obtain ⟨hinv', hchanges⟩ := run_changes hinv hcore
  exact hinv'.refuses (fun f hf => hchanges.tickets (ticket_mem ht hf))
    (fun f hf => hchanges.dead hinv.registry (ticket_mem ht hf) (hdead f hf)) subject m

end Core

end Llam.Service
