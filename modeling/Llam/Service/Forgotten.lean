import Llam.Service.Integrity
import Llam.Service.Secrets

/-!
# Subjects that are gone

A transport ends while ring batches of its subject are still running. As long as something of the subject may be left, a
thread is there that will take it away (`Cleaned`): the thread of a batch, or one that reclaims. When no thread is left that
works for the subject, nothing of it is left either (`disconnected_subject_reclaimed`).
-/

namespace Llam.Service

open Llam.Lib Llam.Broker Llam.Ring Function

variable {n : Nat}

/-- The thread will still clean the table of the family. -/
def Job.owes (A : UInt64) (f : Family) : Job → Prop
  | .batch b => b.subject = A
  | .unwind B _ true => B = A
  | .reclaimRings B => B = A
  | .reclaimObjects B left => B = A ∧ f ∈ left
  | _ => False

/-- A table is clean, or a thread will clean it. -/
def Cleaned (b : Control) (jobs : Fin n → Job) (connected subjects : List UInt64) : Prop :=
  ∀ A, Gone connected subjects A → ∀ f, Clean b A f ∨ ∃ k, (jobs k).owes A f

section Cleaned

variable {b b' : Control} {jobs : Fin n → Job} {connected subjects : List UInt64} {k : Fin n} {j : Job}

theorem Cleaned.step (h : Cleaned b jobs connected subjects)
    (hclean : ∀ A, Gone connected subjects A → ∀ f, Clean b A f → Clean b' A f ∨ j.owes A f)
    (howes : ∀ A, Gone connected subjects A → ∀ f, (jobs k).owes A f →
      Clean b' A f ∨ j.owes A f ∨ ∃ l, l ≠ k ∧ (jobs l).owes A f) :
    Cleaned b' (update jobs k j) connected subjects := by
  have hself : ∀ {A : UInt64} {f : Family}, j.owes A f → ∃ l, (update jobs k j l).owes A f :=
    fun hj => ⟨k, by rw [update_self]; exact hj⟩
  have hother : ∀ {A : UInt64} {f : Family} {l : Fin n}, l ≠ k → (jobs l).owes A f →
      ∃ l, (update jobs k j l).owes A f :=
    fun hne hl => ⟨_, by rw [update_of_ne hne]; exact hl⟩
  intro A hA f
  rcases h A hA f with hold | ⟨l, hl⟩
  · exact (hclean A hA f hold).imp id hself
  rcases eq_or_ne l k with rfl | hne
  · rcases howes A hA f hl with hclean | hj | ⟨m, hne, hm⟩
    · exact .inl hclean
    · exact .inr (hself hj)
    · exact .inr (hother hne hm)
  · exact .inr (hother hne hl)

theorem Cleaned.job (h : Cleaned b jobs connected subjects)
    (howes : ∀ A, Gone connected subjects A → ∀ f, (jobs k).owes A f → j.owes A f) :
    Cleaned b (update jobs k j) connected subjects :=
  h.step (fun _ _ _ hclean => .inl hclean) fun A hA f hk => .inr (.inl (howes A hA f hk))

end Cleaned

/-! ## Sections -/

section Sections

variable {w w' : World n} {k : Fin n} {a : Action n} {core : State n} {out : Option Outcome} {A : UInt64} {j : Job}

def World.Cleaned (w : World n) : Prop := Service.Cleaned w.core.control w.jobs w.connected w.subjects

section

variable (hw : w.Sound)

include hw

/-- Steps of no subject, and reclaims and rollbacks, keep the tables clean. -/
theorem exec_cleaned (h : w.Cleaned) (hexec : w.core.exec a = some (core, out))
    (hsubject : ∀ B, w.Gone B → ofCall a = true ∨ (∃ C o overtakes env, a = .op C o overtakes env) →
      a.subject w.core = some B → ∀ f, j.owes B f) (howes : ∀ B, w.Gone B → ∀ f, (w.jobs k).owes B f → j.owes B f) :
    Service.Cleaned core.control (update w.jobs k j) w.connected w.subjects := by
  refine Service.Cleaned.step h (fun B hB f hclean => ?_) fun B hB f hk => .inr (.inl (howes B hB f hk))
  by_cases hacts : (ofCall a = true ∨ ∃ C o overtakes env, a = .op C o overtakes env) ∧ a.subject w.core = some B
  · exact .inr (hsubject B hB hacts.1 hacts.2 f)
  · exact .inl (exec_clean hclean hw.inv hexec fun ha hsubject => hacts ⟨ha, hsubject⟩)

/-- A request of a subject that is present. -/
theorem begins_cleaned (h : w.Cleaned) {p : Pending} (hfresh : w.Fresh k p) (hbegins : Begins w k p a)
    (hexec : w.core.exec a = some (core, out)) :
    Service.Cleaned core.control (update w.jobs k j) w.connected w.subjects := by
  refine exec_cleaned hw h hexec (fun B hB _ hsubject => ?_) (fun B _ f hk => ?_)
  · have hself : a.subject w.core = some p.subject := by cases hbegins <;> rfl
    cases hself.symm.trans hsubject
    exact absurd hB (hw.orderly.present hfresh.present)
  · rw [hfresh.idle] at hk
    exact hk.elim

/-- A spawn in progress is one for a client that is there, or of a batch. -/
theorem call_cleaned (h : w.Cleaned) (ha : ofThread k a = true) (hexec : w.core.exec a = some (core, out))
    (howes : ∀ B, w.Gone B → ∀ f, (w.jobs k).owes B f → j.owes B f) :
    Service.Cleaned core.control (update w.jobs k j) w.connected w.subjects := by
  refine exec_cleaned hw h hexec (fun B hB _ hsubject f => howes B hB f ?_) howes
  obtain ⟨c, hc, -⟩ := exec_thread_calls ha hexec
  have hself : a.subject w.core = some c.subject := by
    cases a with
    | issue l | finish l | store l =>
      obtain rfl := beq_iff_eq.mp ha
      exact congrArg (Option.map Call.subject) hc
    | op | spawn | fiber | revokeAll | reclaim | rollback => cases ha
  cases hself.symm.trans hsubject
  have hspawns := hw.called.call k c hc
  cases hjob : w.jobs k with
  | spawning p =>
    rw [hjob] at hspawns
    have hserves : (w.jobs k).serves = some c.subject := by
      rw [hjob]
      exact hspawns
    exact absurd rfl (hw.served hserves hB)
  | batch b =>
    rw [hjob, Job.spawns] at hspawns
    split at hspawns
    · exact Option.some.inj hspawns
    · cases hspawns
  | _ =>
    rw [hjob] at hspawns
    cases hspawns

theorem batch_cleaned (h : w.Cleaned) {b b' : Batch} {sub : Submission} (hjob : w.jobs k = .batch b)
    (hsubject : b'.subject = b.subject) (henters : Enters w k b sub a) (hexec : w.core.exec a = some (core, out)) :
    Service.Cleaned core.control (update w.jobs k (.batch b')) w.connected w.subjects := by
  refine exec_cleaned hw h hexec (fun B hB _ hB' _ => ?_) (fun B _ f hk => ?_)
  · have hself : a.subject w.core = some b.subject := by cases henters <;> rfl
    exact hsubject.trans (Option.some.inj (hself.symm.trans hB'))
  · rw [hjob] at hk
    exact hsubject.trans hk

/-- The end of a batch: its session was marked and the thread reclaims, or another thread is about to. -/
theorem publish_cleaned (h : w.Cleaned) {b : Batch} (mem : Shared) (hjob : w.jobs k = .batch b) :
    (w.publishBatch k b mem).Cleaned := by
  have hserves := hw.batched.serves k b hjob
  have hend : ∀ j : Job, ((w.sessions b.session).reclaimPending = true → ∀ f, j.owes b.subject f) →
      Service.Cleaned w.core.control (update w.jobs k j) w.connected w.subjects := by
    intro j hj
    refine Service.Cleaned.step h (fun _ _ _ hclean => .inl hclean) fun B hB f hk => .inr ?_
    rw [hjob] at hk
    obtain rfl : b.subject = B := hk
    have hbelongs : (w.sessions b.session).belongs b.subject = true := belongs_iff.mpr ⟨hserves.subject, .inl hserves.active⟩
    rcases Service.Orderly.waits (k := k) hw.orderly hB hbelongs (by rw [hjob]; nofun) with hmarked | ⟨l, hne, hl⟩
    · exact .inl (hj hmarked.2 f)
    · exact .inr ⟨l, hne, by rw [hl]; rfl⟩
  unfold World.publishBatch
  dsimp only
  split
  all_goals
    cases hpending : (w.sessions b.session).reclaimPending with
    | true => exact hend _ fun _ _ => hserves.subject
    | false => exact hend _ fun hfalse => by cases hpending.symm.trans hfalse

/-- The rings are reclaimed: a batch is still running, or the objects are next. -/
theorem reclaimRings_cleaned (h : w.Cleaned) (hjob : w.jobs k = .reclaimRings A) :
    Service.Cleaned w.core.control (update w.jobs k
      (if (Service.reclaimRings w.sessions A).2 then .idle else .reclaimObjects A World.families)) w.connected w.subjects := by
  refine Service.Cleaned.step h (fun _ _ _ hclean => .inl hclean) fun B hB f hk => .inr ?_
  rw [hjob] at hk
  obtain rfl : A = B := hk
  have hA : A ≠ 0 := by
    rintro rfl
    exact hw.orderly.zero hB.1
  split
  · rename_i hdeferred
    obtain ⟨i, hbelongs, hbusy⟩ := (reclaimRings_deferred w.sessions hA).mp hdeferred
    obtain ⟨l, b, hl, rfl⟩ := hw.batched.busy i hbusy
    refine .inr ⟨l, ?_, ?_⟩
    · rintro rfl
      cases hjob.symm.trans hl
    · rw [hl]
      exact (hw.batched.serves l b hl).subject.symm.trans (belongs_iff.mp hbelongs).1
  · exact .inl ⟨rfl, by cases f <;> decide⟩

theorem reclaimObjects_cleaned (h : w.Cleaned) {f : Family} {left : List Family}
    (hjob : w.jobs k = .reclaimObjects A (f :: left)) (hexec : w.core.exec (.reclaim f A) = some (core, out)) :
    Service.Cleaned core.control (update w.jobs k (.reclaimObjects A left)) w.connected w.subjects := by
  have hA : A ≠ 0 := by
    rintro rfl
    exact hw.orderly.zero (hw.orderly.cleaner k 0 (by rw [hjob]; rfl)).1
  refine Service.Cleaned.step h (fun B hB g hclean => .inl ?_) fun B hB g hk => ?_
  · exact hclean.reclaim hexec
  · rw [hjob] at hk
    obtain ⟨rfl, hmem⟩ := hk
    rcases List.mem_cons.mp hmem with rfl | hmem
    · exact .inl (reclaim_clean hA hexec)
    · exact .inr (.inl ⟨rfl, hmem⟩)

end

/-- **One section**: what may be left has a thread that will take it away. -/
theorem Section.cleaned (hstep : Section w w') (hw : w.Sound) (h : w.Cleaned) : w'.Cleaned := by
  -- a thread that owes nothing does something else
  have hfree : ∀ {k : Fin n} {j₀ j : Job}, w.jobs k = j₀ → (∀ B f, ¬ j₀.owes B f) →
      Service.Cleaned w.core.control (update w.jobs k j) w.connected w.subjects := by
    intro k j₀ j hjob hnone
    refine Service.Cleaned.job h fun B _ f hk => ?_
    rw [hjob] at hk
    exact absurd hk (hnone B f)
  cases hstep with
  | connect hzero hnew =>
    intro B hB
    refine h B ?_
    obtain ⟨hmem, hnot⟩ := hB
    rw [List.mem_cons, not_or] at hnot
    exact ⟨(List.mem_cons.mp hmem).resolve_left hnot.1, hnot.2⟩
  | @forget k A hidle hconnected hserves =>
    intro B hB f
    by_cases hBA : B = A
    · exact .inr ⟨k, by dsimp only [World.setJob]; rw [update_self]; exact hBA.symm⟩
    · have hgone : w.Gone B := ⟨hB.1, fun hmem => hB.2 (List.mem_filter.mpr ⟨hmem, decide_eq_true hBA⟩)⟩
      exact hfree (j := .reclaimRings A) hidle (fun _ _ => id) B hgone f
  | @background a core out ha hexec =>
    intro B hB f
    refine (h B hB f).imp (fun hclean => exec_clean hclean hw.inv hexec ?_) id
    rintro (hcall | ⟨C, o, overtakes, env, rfl⟩)
    · cases hcall.symm.trans (ofNobody_call ha)
    · cases ha
  | same => exact h
  | answer hfresh | createRing hfresh => exact hfree hfresh.idle fun _ _ => id
  | @ask k p a core out hfresh hbegins hexec =>
    show Service.Cleaned core.control (update w.jobs k _) w.connected w.subjects
    exact begins_cleaned hw h hfresh hbegins hexec
  | @spawn k p a core hfresh hbegins hexec =>
    show Service.Cleaned core.control (update w.jobs k _) w.connected w.subjects
    exact begins_cleaned hw h hfresh hbegins hexec
  | @goesOn k a core ha hexec =>
    have hcall := call_cleaned (j := w.jobs k) hw h ha hexec fun _ _ _ hk => hk
    rw [update_eq_self] at hcall
    exact hcall
  | @spawned k p a core out ha hjob hexec =>
    show Service.Cleaned core.control (update w.jobs k _) w.connected w.subjects
    refine call_cleaned hw h ha hexec fun B _ f hk => ?_
    rw [hjob] at hk
    exact hk.elim
  | @spawnDone k b sub rest a core out ha hnext hexec =>
    show Service.Cleaned core.control (update w.jobs k _) w.connected w.subjects
    refine call_cleaned hw h ha hexec fun B _ f hk => ?_
    rw [hnext.job] at hk
    exact hk
  | delivered hjob | withdraw hjob => exact hfree hjob fun _ _ => id
  | @rollback k p r t core out hjob _ hexec =>
    show Service.Cleaned core.control (update w.jobs k _) w.connected w.subjects
    refine exec_cleaned hw h hexec (fun B _ ha => ?_) fun B _ f hk => ?_
    · rcases ha with ha | ⟨_, _, _, _, ha⟩ <;> cases ha
    · rw [hjob] at hk
      exact hk.elim
  | found hfinds => cases hfinds <;> exact h
  | reserve hidle hfinds => cases hfinds <;> exact hfree hidle fun _ _ => id
  | @dismiss k b sub rest c hnext =>
    show Service.Cleaned w.core.control (update w.jobs k _) w.connected w.subjects
    refine Service.Cleaned.job h fun B _ f hk => ?_
    rw [hnext.job] at hk
    exact hk
  | @execute k b sub rest a core data out hnext _ henters hexec =>
    exact batch_cleaned hw h hnext.job rfl henters hexec
  | @beginSpawn k b sub rest a core hnext _ henters hexec =>
    exact batch_cleaned hw h hnext.job rfl henters hexec
  | publish mem hjob => exact publish_cleaned hw h mem hjob
  | @unwind k B t tokens reclaim core out hjob hexec =>
    refine exec_cleaned hw h hexec (fun B _ ha => ?_) fun B _ f hk => ?_
    · rcases ha with ha | ⟨_, _, _, _, ha⟩ <;> cases ha
    · rw [hjob] at hk
      cases reclaim <;> exact hk
  | @unwound k B reclaim hjob =>
    refine Service.Cleaned.job h fun B _ f hk => ?_
    rw [hjob] at hk
    cases reclaim
    · exact hk.elim
    · exact hk
  | reclaimRings hjob => exact reclaimRings_cleaned hw h hjob
  | reclaimObjects hjob hexec => exact reclaimObjects_cleaned hw h hjob hexec
  | reclaimed hjob =>
    refine Service.Cleaned.job h fun B _ f hk => ?_
    rw [hjob] at hk
    cases hk.2

theorem reachable_cleaned {runtimeId : UInt64} {key : Key} (h : Reachable World.step (World.init n runtimeId key) w) :
    w.Sound ∧ w.Secrets ∧ w.Cleaned := by
  refine h.induction (I := fun w => w.Sound ∧ w.Secrets ∧ w.Cleaned)
    ⟨init_sound runtimeId key, init_secrets runtimeId key, fun A hA => ?_⟩ ?_
  · cases hA.1
  · rintro w a w' ⟨hsound, hsecrets, hcleaned⟩ hstep
    have hsection := step_section hstep
    exact ⟨hsection.sound hsound, hsection.secrets hsound hsecrets, hsection.cleaned hsound hcleaned⟩

end Sections

/-! ## The end -/

/-- The thread executes a batch of the subject, or takes away what the subject has left. -/
def Job.worksFor (A : UInt64) : Job → Bool
  | .batch b => b.subject == A
  | .unwind B _ _ | .reclaimRings B | .reclaimObjects B _ => B == A
  | _ => false

/-- A step by which something of the subject is taken away. -/
def World.Tidies (w : World n) (A : UInt64) : Act n → Prop
  | .forget _ B => B = A
  | .publish k _ | .unwind k | .reclaim k => (w.jobs k).worksFor A = true
  | _ => False

section Ends

variable {w w' : World n} {k : Fin n} {A : UInt64}

theorem worksFor_of_owes {j : Job} {f : Family} (h : j.owes A f) : j.worksFor A = true := by
  unfold Job.owes at h
  split at h
  · exact beq_iff_eq.mpr h
  · exact beq_iff_eq.mpr h
  · exact beq_iff_eq.mpr h
  · exact beq_iff_eq.mpr h.1
  · exact h.elim

theorem rings_reclaimed (hw : w.Sound) (hgone : w.Gone A) (hends : ∀ k, (w.jobs k).worksFor A = false)
    (i : Fin sessionCount) : (w.sessions i).belongs A = false := by
  rw [Bool.eq_false_iff]
  intro hbelongs
  rcases hw.orderly.rings A hgone i hbelongs with ⟨hbusy, -⟩ | ⟨k, hk⟩
  · obtain ⟨k, b, hk, rfl⟩ := hw.batched.busy i hbusy
    have hworks := hends k
    rw [hk] at hworks
    have hsubject := (hw.batched.serves k b hk).subject.symm.trans (belongs_iff.mp hbelongs).1
    exact absurd hsubject (beq_eq_false_iff_ne.mp hworks)
  · have hworks := hends k
    rw [hk] at hworks
    exact absurd rfl (beq_eq_false_iff_ne.mp hworks)

theorem tables_reclaimed (h : w.Cleaned) (hgone : w.Gone A) (hends : ∀ k, (w.jobs k).worksFor A = false) (f : Family) :
    Clean w.core.control A f := by
  rcases h A hgone f with hclean | ⟨k, hk⟩
  · exact hclean
  · cases (worksFor_of_owes hk).symm.trans (hends k)

/-- What is left of a subject gives no rights, so that its tokens are dead. -/
theorem dead_of_clean {s : State n} (hinv : Inv s) (hclean : ∀ f, Clean s.control A f) {t : Token} (ht : t ∈ s.minted)
    (hsubject : t.subjectId = A) : s.Dead t := by
  intro f hf hhonours
  obtain ⟨-, i, hnamed, hrights⟩ := honours_iff.mp hhonours
  have howner := (hinv.named_subject ht hf hnamed).trans hsubject
  have hleft := hclean f i (Slot.named_iff.mp hnamed).1 howner
  cases f with
  | TASK => exact hrights hleft.2
  | BUFFER | DESCRIPTOR | CHANNEL => exact hleft

/-- A task that is left has its trampoline. -/
theorem left_driven {s : State n} (hslots : SlotsOk s) {f : Family} {i : Fin slotCount} (hactive : (s.control.slots f i).active = true)
    (hleft : Left f (s.control.slots f i)) : f = .TASK ∧ (s.control.slots f i).rights = ⊥ ∧ ∃ y ∈ s.fibers, y.index = i := by
  cases f with
  | BUFFER | DESCRIPTOR | CHANNEL => exact hleft.elim
  | TASK =>
    refine ⟨rfl, hleft.2, ?_⟩
    rcases hslots.driven i hactive (.inr hleft.1) with hfiber | ⟨hspawned, -⟩
    · exact hfiber
    · cases hspawned.symm.trans hleft.1

/-! ### Other subjects -/

theorem exec_others (hinv : Inv w.core) {a : Action n} {core : State n} {out : Option Outcome}
    (hexec : w.core.exec a = some (core, out)) (hsubject : a.subject w.core = some A) (hrecycles : a.recycles = false)
    {B : UInt64} (hne : B ≠ A) {f : Family} {i : Fin slotCount} (howns : w.core.control.Owns B f i) :
    core.control.slots f i = w.core.control.slots f i := by
  rcases exec_touches hinv hexec hsubject f i with hsame | ⟨⟨-, hown⟩ | ⟨-, hfree⟩, -⟩
  · exact hsame
  · exact absurd (howns.2.symm.trans hown) hne
  · cases hrecycles.symm.trans (hfree howns.1)

/-- **Nothing of other subjects is taken away.** -/
theorem tidies_others (hw : w.Sound) (h : w.Secrets) {a : Act n} (htidies : w.Tidies A a) (hstep : w.step a = some w')
    {B : UInt64} (hne : B ≠ A) : (∀ f i, w.core.control.Owns B f i → w'.core.control.slots f i = w.core.control.slots f i) ∧
      ∀ i, (w.sessions i).belongs B = true → w'.sessions i = w.sessions i := by
  cases a with
  | forget k C =>
    simp only [World.step] at hstep
    split at hstep
    · split at hstep
      · cases hstep
        exact ⟨fun _ _ _ => rfl, fun _ _ => rfl⟩
      · cases hstep
    · cases hstep
  | publish k mem =>
    simp only [World.step] at hstep
    split at hstep
    · rename_i b hjob
      split at hstep
      · cases hstep
        have hworks : (w.jobs k).worksFor A = true := htidies
        rw [hjob] at hworks
        have hsubject := (hw.batched.serves k b hjob).subject.trans (beq_iff_eq.mp hworks)
        refine ⟨fun f i _ => by rw [publishBatch_core], fun i hbelongs => ?_⟩
        have hother : i ≠ b.session := by
          rintro rfl
          exact hne ((belongs_iff.mp hbelongs).1.symm.trans hsubject)
        unfold World.publishBatch
        dsimp only
        split <;> exact update_of_ne hother ..
      · cases hstep
    · cases hstep
  | unwind k =>
    have hworks : (w.jobs k).worksFor A = true := htidies
    have hbacked := h.backed k
    unfold World.step World.unwindNext at hstep
    dsimp only at hstep
    split at hstep
    · rename_i hjob
      obtain ⟨⟨core, out⟩, hexec, rfl⟩ := Option.map_eq_some_iff.mp hstep
      rw [hjob] at hworks hbacked
      have hsubject := (hbacked _ List.mem_cons_self).2.trans (beq_iff_eq.mp hworks)
      exact ⟨fun f i howns => exec_others hw.inv (exec_core hexec) (congrArg some hsubject) rfl hne howns, fun _ _ => rfl⟩
    · cases hstep
      exact ⟨fun _ _ _ => rfl, fun _ _ => rfl⟩
    · cases hstep
  | reclaim k =>
    have hworks : (w.jobs k).worksFor A = true := htidies
    unfold World.step World.reclaimNext at hstep
    dsimp only at hstep
    split at hstep
    · rename_i hjob
      cases hstep
      rw [hjob] at hworks
      refine ⟨fun _ _ _ => rfl, fun i hbelongs => ?_⟩
      rcases reclaimRings_cases w.sessions _ i with hsame | ⟨hbelongs', -⟩
      · exact hsame
      · exact absurd ((belongs_iff.mp hbelongs).1.symm.trans ((belongs_iff.mp hbelongs').1.trans (beq_iff_eq.mp hworks))) hne
    · rename_i hjob
      obtain ⟨⟨core, out⟩, hexec, rfl⟩ := Option.map_eq_some_iff.mp hstep
      rw [hjob] at hworks
      exact ⟨fun f i howns => exec_others hw.inv (exec_core hexec) (congrArg some (beq_iff_eq.mp hworks)) rfl hne howns,
        fun _ _ => rfl⟩
    · cases hstep
      exact ⟨fun _ _ _ => rfl, fun _ _ => rfl⟩
    · cases hstep
  | request | serveRing | call | delivered | undelivered | execute | connect | background => exact htidies.elim

/-! ### Cleaning up comes to an end -/

/-- A bound on the sections until the thread has taken everything away. -/
def Job.left : Job → Nat
  | .unwind _ tokens _ => tokens.length + 7
  | .reclaimRings _ => 6
  | .reclaimObjects _ left => left.length + 1
  | _ => 0

/-- No spawn of a subject is in progress when its objects are reclaimed. -/
theorem idle_of_past (hw : w.Sound) {left : List Family} (hjob : w.jobs k = .reclaimObjects A left) : w.core.idle A = true := by
  rw [State.idle, decide_eq_true_eq]
  rintro l c hc rfl
  have hgone : w.Gone c.subject := hw.orderly.cleaner k _ (by rw [hjob]; rfl)
  have hspawns := hw.called.call l c hc
  cases hl : w.jobs l with
  | spawning p =>
    rw [hl] at hspawns
    have hserves : (w.jobs l).serves = some c.subject := by
      rw [hl]
      exact hspawns
    exact hw.served hserves hgone rfl
  | batch b =>
    rw [hl, Job.spawns] at hspawns
    split at hspawns
    · have hserves := hw.batched.serves l b hl
      have hbelongs : (w.sessions b.session).belongs c.subject = true :=
        belongs_iff.mpr ⟨hserves.subject.trans (Option.some.inj hspawns), .inl hserves.active⟩
      cases hbelongs.symm.trans (hw.orderly.past k _ left hjob b.session)
    · cases hspawns
  | _ =>
    rw [hl] at hspawns
    cases hspawns

/-- What a thread does to clean up. -/
structure Tidied (w w' : World n) (k : Fin n) : Prop where
  less : (w'.jobs k).left < (w.jobs k).left
  other : ∀ l, l ≠ k → w'.jobs l = w.jobs l
  nobatch : (w'.jobs k).isBatch = false
  connected : w'.connected = w.connected
  subjects : w'.subjects = w.subjects

theorem tidied_job {core : State n} {sessions : Sessions} {j : Job} (hless : j.left < (w.jobs k).left)
    (hbatch : j.isBatch = false) : Tidied w { w.setJob k j with core := core, sessions := sessions } k := by
  refine ⟨?_, fun l hne => update_of_ne hne .., ?_, rfl, rfl⟩
  · dsimp only [World.setJob]
    rw [update_self]
    exact hless
  · dsimp only [World.setJob]
    rw [update_self]
    exact hbatch

/-- The next section of a thread that cleans up is always possible. -/
theorem tidy_step (hw : w.Sound) (h : w.Secrets) (hk : 0 < (w.jobs k).left) :
    ∃ a w', (a = .unwind k ∨ a = .reclaim k) ∧ w.step a = some w' ∧ Tidied w w' k := by
  cases hjob : w.jobs k with
  | idle | spawning | reply | batch =>
    rw [hjob] at hk
    exact absurd hk (Nat.lt_irrefl 0)
  | unwind B tokens reclaim =>
    cases tokens with
    | nil =>
      refine ⟨.unwind k, w.setJob k (if reclaim then .reclaimRings B else .idle), .inl rfl, ?_, ?_⟩
      · simp only [World.step, World.unwindNext, hjob]
      · cases reclaim
        · exact tidied_job (by rw [hjob]; exact Nat.zero_lt_succ 6) rfl
        · exact tidied_job (by rw [hjob]; exact Nat.lt_succ_self 6) rfl
    | cons t tokens =>
      have hbacked := h.backed k
      rw [hjob] at hbacked
      obtain ⟨hknown, -⟩ := hbacked t List.mem_cons_self
      refine ⟨.unwind k, { w.setJob k (.unwind B tokens reclaim) with
        core := { w.core with control := w.core.control.rollbackToken t } }, .inl rfl, ?_, ?_⟩
      · simp only [World.step, World.unwindNext, hjob, World.exec, State.exec, hknown, if_true, Option.map_some]
      · exact tidied_job (by rw [hjob]; exact Nat.lt_succ_self _) rfl
  | reclaimRings B =>
    refine ⟨.reclaim k, { w.setJob k (if (Service.reclaimRings w.sessions B).2 then .idle else
      .reclaimObjects B World.families) with sessions := (Service.reclaimRings w.sessions B).1 }, .inr rfl, ?_, ?_⟩
    · simp only [World.step, World.reclaimNext, hjob]
    · cases (Service.reclaimRings w.sessions B).2
      · exact tidied_job (by rw [hjob]; exact Nat.lt_succ_self 5) rfl
      · exact tidied_job (by rw [hjob]; exact Nat.zero_lt_succ 5) rfl
  | reclaimObjects B left =>
    cases left with
    | nil =>
      refine ⟨.reclaim k, w.setJob k .idle, .inr rfl, ?_, ?_⟩
      · simp only [World.step, World.reclaimNext, hjob]
      · exact tidied_job (by rw [hjob]; exact Nat.zero_lt_succ 0) rfl
    | cons f left =>
      refine ⟨.reclaim k, { w.setJob k (.reclaimObjects B left) with
        core := { w.core with control := w.core.control.reclaimSubject f B } }, .inr rfl, ?_, ?_⟩
      · simp only [World.step, World.reclaimNext, hjob, World.exec, State.exec, idle_of_past hw hjob, if_true,
          Option.map_some]
      · exact tidied_job (by rw [hjob]; exact Nat.lt_succ_self _) rfl

/-- **Cleaning up ends**: the threads can finish what they have to take away, while the batches stay where they are. -/
theorem tidy_run (w : World n) (hw : w.Sound) (h : w.Secrets) : ∃ as w', (∀ a ∈ as, ∃ k, a = .unwind k ∨ a = .reclaim k) ∧
    run World.step w as = some w' ∧ (∀ k, (w'.jobs k).left = 0) ∧ (∀ k b, w'.jobs k = .batch b → w.jobs k = .batch b) ∧
    w'.connected = w.connected ∧ w'.subjects = w.subjects := by
  induction hm : ∑ k, (w.jobs k).left using Nat.strong_induction_on generalizing w with
  | h m ih =>
    by_cases hdone : ∀ k, (w.jobs k).left = 0
    · exact ⟨[], w, fun _ ha => absurd ha List.not_mem_nil, rfl, hdone, fun _ _ hb => hb, rfl, rfl⟩
    obtain ⟨k, hk⟩ := not_forall.mp hdone
    obtain ⟨a, w₁, ha, hstep, htidied⟩ := tidy_step hw h (Nat.pos_of_ne_zero hk)
    have hsection := step_section hstep
    have hless : ∑ l, (w₁.jobs l).left < m := by
      rw [← hm]
      refine Finset.sum_lt_sum (fun l _ => ?_) ⟨k, Finset.mem_univ k, htidied.less⟩
      rcases eq_or_ne l k with rfl | hne
      · exact Nat.le_of_lt htidied.less
      · rw [htidied.other l hne]
    obtain ⟨as, w', has, hrun, hleft, hbatch, hconnected, hsubjects⟩ :=
      ih _ hless w₁ (hsection.sound hw) (hsection.secrets hw h) rfl
    refine ⟨a :: as, w', ?_, run_cons.mpr ⟨w₁, hstep, hrun⟩, hleft, fun l b hl => ?_, hconnected.trans htidied.connected,
      hsubjects.trans htidied.subjects⟩
    · intro a' ha'
      rcases List.mem_cons.mp ha' with rfl | hmem
      · exact ⟨k, ha⟩
      · exact has a' hmem
    · have hl₁ := hbatch l b hl
      rcases eq_or_ne l k with rfl | hne
      · have hnobatch := htidied.nobatch
        rw [hl₁] at hnobatch
        cases hnobatch
      · rw [← htidied.other l hne]
        exact hl₁

theorem worksFor_of_left {j : Job} (h : j.left = 0) (hbatch : ∀ b, j = .batch b → b.subject ≠ A) : j.worksFor A = false := by
  cases j with
  | idle | spawning | reply => rfl
  | batch b => exact beq_eq_false_iff_ne.mpr (hbatch b rfl)
  | unwind | reclaimRings | reclaimObjects => cases h

end Ends

/-- **Disconnected subjects are reclaimed.** The transport of `A` has ended, in any state of the ring batches of `A`. When
no thread works for `A` any more, then no session and no object of `A` is left, apart from slots of tasks whose trampolines
still run, and no token of `A` is valid now or later. As soon as no batch of `A` runs, the threads can come to that by their
own sections. And what takes something of `A` away leaves the objects and sessions of other subjects as they are. -/
theorem disconnected_subject_reclaimed {runtimeId : UInt64} {key : Key} {w : World n}
    (h : Reachable World.step (World.init n runtimeId key) w) {A : UInt64} (hgone : w.Gone A) :
    ((∀ k, (w.jobs k).worksFor A = false) →
      (∀ f i, w.core.control.Owns A f i →
        f = .TASK ∧ (w.core.control.slots f i).rights = ⊥ ∧ ∃ y ∈ w.core.fibers, y.index = i) ∧
      (∀ i, (w.sessions i).belongs A = false) ∧
      ∀ t ∈ w.core.minted, t.subjectId = A → ∀ as w', run World.step w as = some w' → ∀ subject m required,
        w'.core.control.validateCap subject (nextEpoch^[m] w'.core.control.epoch) t required ≠ .ok ()) ∧
    ((∀ k b, w.jobs k = .batch b → b.subject ≠ A) →
      ∃ as w', (∀ a ∈ as, ∃ k, a = .unwind k ∨ a = .reclaim k) ∧ run World.step w as = some w' ∧ w'.Gone A ∧
        ∀ k, (w'.jobs k).worksFor A = false) ∧
    ∀ a w', w.Tidies A a → w.step a = some w' → ∀ B, B ≠ A →
      (∀ f i, w.core.control.Owns B f i → w'.core.control.slots f i = w.core.control.slots f i) ∧
      ∀ i, (w.sessions i).belongs B = true → w'.sessions i = w.sessions i := by
  obtain ⟨hsound, hsecrets, hcleaned⟩ := reachable_cleaned h
  have hslots := reachable_slotsOk (core_reachable h)
  refine ⟨fun hends => ⟨fun f i howns => ?_, rings_reclaimed hsound hgone hends, fun t ht hsubject as w' hrun subject m => ?_⟩,
    fun hbatches => ?_, fun a w' htidies hstep B hne => tidies_others hsound hsecrets htidies hstep hne⟩
  · exact left_driven hslots howns.1 (tables_reclaimed hcleaned hgone hends f i howns.1 howns.2)
  · exact refused_later hsound.inv ht (dead_of_clean hsound.inv (tables_reclaimed hcleaned hgone hends) ht hsubject) hrun
      subject m
  · obtain ⟨as, w', has, hrun, hleft, hbatch, hconnected, hsubjects⟩ := tidy_run w hsound hsecrets
    refine ⟨as, w', has, hrun, ?_, fun k => worksFor_of_left (hleft k) fun b hb => hbatches k b (hbatch k b hb)⟩
    unfold World.Gone
    rw [hconnected, hsubjects]
    exact hgone

/-- A request of subject 7 on the first of two threads. -/
def asksFirst (r : Request) (mem : Shared) : Act 2 := .request 0 7 r 5 mem (fun _ => 0) .plain

set_option maxRecDepth 100000 in
/-- Subject 7 has a buffer and a ring, and disconnects while a batch of the ring runs. -/
theorem disconnected_subject_reclaimed_busy : ∃ w : World 2, w.Gone 7 ∧ (w.sessions 0).serial = 0 ∧
    w.core.minted.length = 1 ∧ (∀ k, (w.jobs k).worksFor 7 = false) ∧ ∀ i, (w.sessions i).belongs 7 = false := by
  obtain ⟨w, hw, hf⟩ := exists_reachable World.step (World.init 2 1 ⟨1, 2, 3, 4⟩)
    (fun w => (decide (7 ∈ w.subjects ∧ 7 ∉ w.connected), (w.sessions 0).serial, w.core.minted.length,
      decide (∀ k, (w.jobs k).worksFor 7 = false)))
    [.connect 7, asksFirst { Request.bare 8 4 0 with rights := .READ } .initial, .delivered 0,
      asksFirst (.bare 21 0 0) .initial, .delivered 0, asksFirst (.bare 22 1 1) { Shared.initial with submitTail := 1 },
      .forget 1 7, .reclaim 1, .execute 0 (fun _ => 0) (fun _ => 0) .plain,
      .publish 0 { Shared.initial with submitTail := 1 }, .reclaim 0, .reclaim 0, .reclaim 0, .reclaim 0, .reclaim 0,
      .reclaim 0]
    (b := (true, 0, 1, true)) (by decide +kernel)
  obtain ⟨hgone, hf⟩ := Prod.mk.inj hf
  obtain ⟨hserial, hf⟩ := Prod.mk.inj hf
  obtain ⟨hminted, hends⟩ := Prod.mk.inj hf
  have hgone : 7 ∈ w.subjects ∧ 7 ∉ w.connected := of_decide_eq_true hgone
  have hends := of_decide_eq_true hends
  exact ⟨w, hgone, hserial, hminted, hends, ((disconnected_subject_reclaimed hw hgone).1 hends).2.1⟩

end Llam.Service
