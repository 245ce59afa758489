import Llam.Service.Section

/-!
# Spawns in progress

A thread is in the middle of a spawn only while it answers a request or executes a batch (`World.Called`), and the spawn is
one for the subject of that request or batch.
-/

namespace Llam.Service

open Llam.Lib Llam.Broker Llam.Ring

variable {n : Nat}

/-! ## Steps of the tables -/

section Tables

variable {s s' : State n} {k : Fin n} {out : Option Outcome}

theorem exec_spawn_calls {A : UInt64} {code : UInt32} {arg0 : UInt64} {rights : Rights} {env : Env}
    (h : s.exec (.spawn k A code arg0 rights env) = some (s', out)) : s.calls k = none ∧
    (s' = s ∧ (∃ e, out = some (.fail e)) ∨
      out = none ∧ ∃ c, s'.calls = Function.update s.calls k (some c) ∧ c.subject = A ∧ c.token = none) := by
  cases State.exec_executes h with
  | refused hk => exact ⟨hk, .inl ⟨rfl, _, rfl⟩⟩
  | reserved hk => exact ⟨hk, .inr ⟨rfl, _, rfl, rfl, rfl⟩⟩

theorem exec_thread_calls {a : Action n} (ha : ofThread k a = true) (h : s.exec a = some (s', out)) :
    ∃ c, s.calls k = some c ∧
      (out = none ∧ (∃ c', s'.calls = Function.update s.calls k (some c') ∧ c'.subject = c.subject) ∨
        (∃ o, out = some o) ∧ s'.calls = Function.update s.calls k none) := by
  cases State.exec_executes h with
  | op | refused | reserved | fiber | revokedAll | reclaimed | rolledBack => cases ha
  | unissued hc | unstarted hc | computed hc | stored hc =>
    obtain rfl := beq_iff_eq.mp ha
    exact ⟨_, hc, .inr ⟨⟨_, rfl⟩, rfl⟩⟩
  | issued hc | started hc =>
    obtain rfl := beq_iff_eq.mp ha
    exact ⟨_, hc, .inl ⟨rfl, _, rfl, rfl⟩⟩

/-- The step is one of a spawn. -/
def ofCall : Action n → Bool
  | .spawn _ _ _ _ _ _ | .issue _ _ _ | .finish _ _ | .store _ => true
  | _ => false

theorem exec_other_calls {a : Action n} (ha : ofCall a = false) (h : s.exec a = some (s', out)) : s'.calls = s.calls := by
  cases State.exec_executes h with
  | refused | reserved | unissued | issued | unstarted | started | computed | stored => cases ha
  | fiber => exact (s.fiberStep_rest _ _ _).1
  | op | revokedAll | reclaimed | rolledBack => rfl

end Tables

/-! ## The invariant -/

/-- The subject of the spawn that the thread may be in. -/
def Job.spawns : Job → Option UInt64
  | .spawning p => some p.subject
  | .batch b => if b.spawning then some b.subject else none
  | _ => none

/-- A batch with a spawn in progress is not done. -/
def Job.sound : Job → Bool
  | .batch b => !b.spawning || !b.todo.isEmpty
  | _ => true

structure Called (calls : Fin n → Option Call) (jobs : Fin n → Job) : Prop where
  call : ∀ k c, calls k = some c → (jobs k).spawns = some c.subject
  sound : ∀ k, (jobs k).sound = true

section Invariant

variable {w w' : World n} {calls calls' : Fin n → Option Call} {jobs : Fin n → Job} {k : Fin n} {j : Job}

theorem Called.none (h : Called calls jobs) (hjob : (jobs k).spawns = none) : calls k = none := by
  cases hc : calls k with
  | none => rfl
  | some c => cases hjob.symm.trans (h.call k c hc)

theorem Called.update (h : Called calls jobs) {c : Option Call} (hcalls : calls' = Function.update calls k c)
    (hc : ∀ c', c = some c' → j.spawns = some c'.subject) (hj : j.sound = true) :
    Called calls' (Function.update jobs k j) := by
  refine ⟨fun l c' hl => ?_, fun l => ?_⟩
  · rw [hcalls] at hl
    rcases eq_or_ne l k with rfl | hne
    · rw [Function.update_self] at hl ⊢
      exact hc c' hl
    · rw [Function.update_of_ne hne] at hl ⊢
      exact h.call l c' hl
  · rcases eq_or_ne l k with rfl | hne
    · rw [Function.update_self]
      exact hj
    · rw [Function.update_of_ne hne]
      exact h.sound l

/-- A thread that is not in a spawn does something else. -/
theorem Called.job (h : Called calls jobs) (hcalls : calls' = calls) (hk : (jobs k).spawns = Option.none)
    (hj : j.sound = true) : Called calls' (Function.update jobs k j) := by
  refine h.update (c := Option.none) ?_ nofun hj
  rw [hcalls, ← h.none hk, Function.update_eq_self]

variable {a : Action n} {s s' : State n} {b : Batch}

theorem Begins.quiet {p : Pending} {out : Outcome} (h : Begins w k p a)
    (hexec : s.exec a = some (s', some out)) : s'.calls = s.calls := by
  cases h with
  | op => exact exec_other_calls rfl hexec
  | spawn =>
    rcases (exec_spawn_calls hexec).2 with ⟨rfl, -⟩ | ⟨hnone, -⟩
    · rfl
    · cases hnone

theorem Enters.quiet {sub : Submission} {out : Outcome} (h : Enters w k b sub a)
    (hexec : s.exec a = some (s', some out)) : s'.calls = s.calls := by
  cases h with
  | op => exact exec_other_calls rfl hexec
  | spawn =>
    rcases (exec_spawn_calls hexec).2 with ⟨rfl, -⟩ | ⟨hnone, -⟩
    · rfl
    · cases hnone

theorem exec_op_returns {A : UInt64} {o : Op} {overtakes : Nat → Nat} {env : Env}
    (h : s.exec (.op A o overtakes env) = some (s', none)) : False := by
  cases State.exec_executes h

theorem Begins.call {p : Pending} (h : Begins w k p a) (hexec : s.exec a = some (s', none)) :
    ∃ c, s'.calls = Function.update s.calls k (some c) ∧ c.subject = p.subject := by
  cases h with
  | op => exact (exec_op_returns hexec).elim
  | spawn =>
    rcases (exec_spawn_calls hexec).2 with ⟨-, _, hsome⟩ | ⟨-, c, hcalls, hsubject, -⟩
    · cases hsome
    · exact ⟨c, hcalls, hsubject⟩

theorem Enters.call {sub : Submission} (h : Enters w k b sub a) (hexec : s.exec a = some (s', none)) :
    ∃ c, s'.calls = Function.update s.calls k (some c) ∧ c.subject = b.subject := by
  cases h with
  | op => exact (exec_op_returns hexec).elim
  | spawn =>
    rcases (exec_spawn_calls hexec).2 with ⟨-, _, hsome⟩ | ⟨-, c, hcalls, hsubject, -⟩
    · cases hsome
    · exact ⟨c, hcalls, hsubject⟩

theorem ofNobody_call (h : ofNobody a = true) : ofCall a = false := by
  cases a <;> first | rfl | cases h

theorem spawns_of_idle (h : b.spawning = false) : (Job.batch b).spawns = none :=
  if_neg (by rw [h]; nofun)

/-- A batch that is done has no spawn in progress. -/
theorem Called.spawning (h : Called calls jobs) (hjob : jobs k = .batch b) (hdone : b.todo = []) :
    b.spawning = false := by
  have hsound := h.sound k
  rw [hjob, Job.sound, hdone, List.isEmpty_nil, Bool.not_true, Bool.or_false, Bool.not_eq_true'] at hsound
  exact hsound

def World.Called (w : World n) : Prop := Service.Called w.core.calls w.jobs

/-- **One section** keeps spawns and jobs together. -/
theorem Section.called (h : Section w w') (hw : w.Called) : w'.Called := by
  have hspawns : ∀ {k : Fin n} {j : Job}, w.jobs k = j → j.spawns = none → (w.jobs k).spawns = none := fun h hj => h ▸ hj
  cases h with
  | connect | same => exact hw
  | forget hidle => exact Service.Called.job hw rfl (hspawns hidle rfl) rfl
  | background ha hexec =>
    have hcalls := exec_other_calls (ofNobody_call ha) hexec
    exact ⟨fun l c hc => hw.call l c (hcalls ▸ hc), hw.sound⟩
  | answer hfresh | createRing hfresh => exact Service.Called.job hw rfl (hspawns hfresh.idle rfl) rfl
  | ask hfresh hbegins hexec => exact Service.Called.job hw (hbegins.quiet hexec) (hspawns hfresh.idle rfl) rfl
  | spawn hfresh hbegins hexec =>
    obtain ⟨c, hcalls, hsubject⟩ := hbegins.call hexec
    refine Service.Called.update hw hcalls ?_ rfl
    rintro _ ⟨⟩
    exact congrArg some hsubject.symm
  | @goesOn k a core ha hexec =>
    obtain ⟨c, hc, ⟨-, c', hcalls, hsubject⟩ | ⟨⟨_, hsome⟩, -⟩⟩ := exec_thread_calls ha hexec
    · have hupdate : Service.Called core.calls (Function.update w.jobs k (w.jobs k)) := by
        refine Service.Called.update hw hcalls ?_ (hw.sound k)
        rintro _ ⟨⟩
        rw [hsubject]
        exact hw.call k c hc
      rw [Function.update_eq_self] at hupdate
      exact hupdate
    · cases hsome
  | spawned ha hjob hexec | spawnDone ha hnext hexec =>
    obtain ⟨c, hc, ⟨hnone, -⟩ | ⟨-, hcalls⟩⟩ := exec_thread_calls ha hexec
    · cases hnone
    · exact Service.Called.update hw hcalls (fun _ h => by cases h) rfl
  | delivered hjob | withdraw hjob | reclaimed hjob => exact Service.Called.job hw rfl (hspawns hjob rfl) rfl
  | rollback hjob _ hexec | unwind hjob hexec | reclaimObjects hjob hexec =>
    exact Service.Called.job hw (exec_other_calls rfl hexec) (hspawns hjob rfl) rfl
  | found hfinds => cases hfinds <;> exact hw
  | reserve hidle hfinds => cases hfinds <;> exact Service.Called.job hw rfl (hspawns hidle rfl) rfl
  | dismiss hnext hspawning =>
    exact Service.Called.job hw rfl (hspawns hnext.job (spawns_of_idle hspawning)) rfl
  | execute hnext hspawning henters hexec =>
    exact Service.Called.job hw (henters.quiet hexec) (hspawns hnext.job (spawns_of_idle hspawning)) rfl
  | @beginSpawn k b sub rest a core hnext hspawning henters hexec =>
    obtain ⟨c, hcalls, hsubject⟩ := henters.call hexec
    refine Service.Called.update hw hcalls ?_ ?_
    · rintro _ ⟨⟩
      exact congrArg some hsubject.symm
    · rw [Job.sound, hnext.todo]
      rfl
  | @publish k b mem hjob hdone =>
    have hk := hspawns hjob (spawns_of_idle (Service.Called.spawning hw hjob hdone))
    unfold World.publishBatch
    dsimp only
    split
    · cases (w.sessions b.session).reclaimPending <;> exact Service.Called.job hw rfl hk rfl
    · exact Service.Called.job hw rfl hk rfl
  | @unwound k A reclaim hjob => cases reclaim <;> exact Service.Called.job hw rfl (hspawns hjob rfl) rfl
  | @reclaimRings k A hjob =>
    refine Service.Called.job hw rfl (hspawns hjob rfl) ?_
    split <;> rfl

end Invariant

end Llam.Service
