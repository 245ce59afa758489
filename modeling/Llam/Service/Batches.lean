import Llam.Service.Section

/-!
# Batches and their sessions

A session is busy as long as one thread executes a batch of it, and while it is busy its cursors stay where they were when
the batch was reserved (`Batches`, `reachable_batches`).
-/

namespace Llam.Service

open Llam.Lib Llam.Broker Llam.Ring Function

variable {n : Nat}

/-! ## The table -/

/-- What `llam_broker_ring_session_get` sets up -/
def Session.opened (ring : Nat) (subject : UInt64) (serial : Nat) : Session :=
  { Session.cleared with ring := some ring, subjectId := subject, active := true, serial := serial }

/-- The session was there already, or its slot was free. -/
def Session.Got (x : Session) (ring : Nat) (subject : UInt64) (serial : Nat) (x' : Session) : Prop :=
  (x' = x ∧ x.active = true ∧ x.subjectId = subject) ∨ (x' = .opened ring subject serial ∧ x.active = false)

section Table

variable {sessions sessions' : Sessions} {ring serial : Nat} {subject id : UInt64} {refused : Option Errno}
  {i : Fin sessionCount}

theorem sessionGet_ok (h : sessionGet sessions ring subject serial = .ok (sessions', i)) :
    ∃ x, (sessions i).Got ring subject serial x ∧ sessions' = update sessions i x := by
  unfold sessionGet at h
  split at h
  · rename_i j hfind
    have hactive := List.find?_some hfind
    rw [Bool.and_eq_true] at hactive
    split at h
    · cases h
    rename_i hsubject
    cases h
    exact ⟨_, .inl ⟨rfl, hactive.1, not_not.mp hsubject⟩, (update_eq_self i _).symm⟩
  · split at h
    · cases h
    rename_i hfind
    cases h
    have hfree := List.find?_some hfind
    rw [Bool.not_eq_true'] at hfree
    exact ⟨_, .inr ⟨rfl, hfree⟩, rfl⟩

theorem registerMapping_ok (h : registerMapping sessions ring subject serial refused = .ok (sessions', i)) :
    ∃ x, (sessions i).Got ring subject serial x ∧ x.ownsMapping = false ∧
      sessions' = update sessions i { x with ownsMapping := true } := by
  unfold registerMapping at h
  split at h
  · cases h
  · cases h
  rename_i hget
  obtain ⟨x, hgot, rfl⟩ := sessionGet_ok hget
  split at h
  · cases h
  rename_i howns
  cases h
  rw [update_self] at howns
  refine ⟨x, hgot, Bool.not_eq_true _ ▸ howns, ?_⟩
  rw [update_idem, update_self]

theorem beginOwnedSession_ok (h : beginOwnedSession sessions id subject refused = .ok i) :
    (sessions i).active = true ∧ (sessions i).ownsMapping = true ∧ (sessions i).subjectId = subject ∧
      id.toNat = i.val + 1 := by
  unfold beginOwnedSession at h
  split at h
  · rename_i hid
    dsimp only at h
    split at h
    · cases h
    split at h
    · cases h
    rename_i hlive
    split at h
    · cases h
    rename_i hsubject
    cases h
    simp only [Bool.or_eq_true, Bool.not_eq_true', not_or, Bool.not_eq_false] at hlive
    refine ⟨hlive.1.1, hlive.1.2, not_not.mp hsubject, ?_⟩
    have hpos : id.toNat ≠ 0 := fun hzero => hid.2 (UInt64.toNat_inj.mp hzero)
    dsimp only
    omega
  · cases h

theorem forgetSession_cases (sessions : Sessions) (id subject : UInt64) : forgetSession sessions id subject = sessions ∨
    ∃ i, (sessions i).subjectId = subject ∧ (sessions i).active = true ∧ (sessions i).busy = false ∧
      id.toNat = i.val + 1 ∧ forgetSession sessions id subject = update sessions i .cleared := by
  unfold forgetSession
  split
  · exact .inl rfl
  rename_i i hbegin
  obtain ⟨hactive, -, hsubject, hid⟩ := beginOwnedSession_ok hbegin
  split
  · exact .inl rfl
  · rename_i hbusy
    exact .inr ⟨i, hsubject, hactive, Bool.not_eq_true _ ▸ hbusy, hid, rfl⟩

theorem reclaimRings_cases (sessions : Sessions) (subject : UInt64) (i : Fin sessionCount) :
    (Service.reclaimRings sessions subject).1 i = sessions i ∨ (sessions i).belongs subject = true ∧
      ((sessions i).busy = true ∧
          (Service.reclaimRings sessions subject).1 i = { sessions i with reclaimPending := true } ∨
        (sessions i).busy = false ∧ (Service.reclaimRings sessions subject).1 i = .cleared) := by
  unfold Service.reclaimRings
  split
  · exact .inl rfl
  dsimp only
  split
  · rename_i hbelongs
    split
    · rename_i hbusy
      exact .inr ⟨hbelongs, .inl ⟨hbusy, rfl⟩⟩
    · rename_i hbusy
      exact .inr ⟨hbelongs, .inr ⟨Bool.not_eq_true _ ▸ hbusy, rfl⟩⟩
  · exact .inl rfl

end Table

/-! ## The invariant -/

/-- The session of a batch. -/
structure Session.Serves (x : Session) (b : Batch) : Prop where
  active : x.active = true
  busy : x.busy = true
  serial : x.serial = b.serial
  subject : x.subjectId = b.subject
  head : x.submitHead = b.head
  tail : x.completeTail = b.tail

structure Batches (sessions : Sessions) (jobs : Fin n → Job) : Prop where
  serves : ∀ k b, jobs k = .batch b → (sessions b.session).Serves b
  busy : ∀ i, (sessions i).busy = true → ∃ k b, jobs k = .batch b ∧ b.session = i
  apart : ∀ k l b b', jobs k = .batch b → jobs l = .batch b' → b.session = b'.session → k = l
  inactive : ∀ i, (sessions i).active = false → (sessions i).ownsMapping = false ∧ (sessions i).busy = false

/-- What a step does to a session, apart from the batches: a busy session stays as it is, as far as its batch goes. -/
structure Session.Moves (x x' : Session) : Prop where
  kept : x.busy = true → x'.active = x.active ∧ x'.serial = x.serial ∧ x'.subjectId = x.subjectId ∧
    x'.submitHead = x.submitHead ∧ x'.completeTail = x.completeTail
  busy : x'.busy = x.busy
  inactive : x'.active = false → x'.ownsMapping = false ∧ x'.busy = false

def Job.isBatch : Job → Bool
  | .batch _ => true
  | _ => false

/-- The job is not a batch. -/
def Job.Other (j : Job) : Prop := j.isBatch = false

theorem Job.Other.ne {j : Job} (h : j.Other) (b : Batch) : j ≠ .batch b := by
  rintro rfl
  cases h

section Invariant

variable {sessions sessions' : Sessions} {jobs : Fin n → Job} {k : Fin n} {j : Job} {b b' : Batch} {i : Fin sessionCount}
  {x : Session}

theorem Session.Moves.refl (h : x.active = false → x.ownsMapping = false ∧ x.busy = false) : x.Moves x :=
  ⟨fun _ => ⟨rfl, rfl, rfl, rfl, rfl⟩, rfl, h⟩

variable (h : Batches sessions jobs)

include h

theorem Batches.table (hmoves : ∀ i, (sessions i).Moves (sessions' i)) : Batches sessions' jobs := by
  refine ⟨fun k b hk => ?_, fun i hi => ?_, h.apart, fun i => (hmoves i).inactive⟩
  · have hserves := h.serves k b hk
    have hmove := hmoves b.session
    obtain ⟨hactive, hserial, hsubject, hhead, htail⟩ := hmove.kept hserves.busy
    exact ⟨hactive.trans hserves.active, hmove.busy.trans hserves.busy, hserial.trans hserves.serial,
      hsubject.trans hserves.subject, hhead.trans hserves.head, htail.trans hserves.tail⟩
  · rw [(hmoves i).busy] at hi
    exact h.busy i hi

theorem Batches.one (hmove : (sessions i).Moves x) : Batches (update sessions i x) jobs := by
  refine h.table fun l => ?_
  rcases eq_or_ne l i with rfl | hne
  · rw [update_self]
    exact hmove
  · rw [update_of_ne hne]
    exact .refl (h.inactive l)

theorem Batches.job (hold : (jobs k).Other) (hnew : j.Other) : Batches sessions (update jobs k j) := by
  have hsame : ∀ l b, update jobs k j l = .batch b → jobs l = .batch b := by
    intro l b hl
    rw [update_apply] at hl
    split at hl
    · exact absurd hl (hnew.ne b)
    · exact hl
  refine ⟨fun l b hl => h.serves l b (hsame l b hl), fun i hi => ?_, fun l m b b' hl hm => h.apart l m b b' (hsame l b hl)
    (hsame m b' hm), h.inactive⟩
  obtain ⟨l, b, hl, hb⟩ := h.busy i hi
  refine ⟨l, b, ?_, hb⟩
  rw [update_of_ne]
  · exact hl
  · rintro rfl
    exact hold.ne b hl

theorem Batches.start (hold : (jobs k).Other) (hbusy : (sessions b.session).busy = false)
    (hx : x.Serves b) : Batches (update sessions b.session x) (update jobs k (.batch b)) := by
  -- the other batches have other sessions
  have hother : ∀ l b', jobs l = .batch b' → b'.session ≠ b.session := by
    intro l b' hl heq
    have hserves := (h.serves l b' hl).busy
    rw [heq, hbusy] at hserves
    cases hserves
  have hcases : ∀ l b', update jobs k (.batch b) l = .batch b' →
      l = k ∧ b' = b ∨ l ≠ k ∧ jobs l = .batch b' := by
    intro l b' hl
    rcases eq_or_ne l k with rfl | hne
    · rw [update_self] at hl
      cases hl
      exact .inl ⟨rfl, rfl⟩
    · rw [update_of_ne hne] at hl
      exact .inr ⟨hne, hl⟩
  refine ⟨fun l b' hl => ?_, fun i hi => ?_, fun l m b₁ b₂ hl hm heq => ?_, fun i hi => ?_⟩
  · rcases hcases l b' hl with ⟨rfl, rfl⟩ | ⟨-, hl⟩
    · rw [update_self]
      exact hx
    · rw [update_of_ne (hother l b' hl)]
      exact h.serves l b' hl
  · rcases eq_or_ne i b.session with rfl | hne
    · exact ⟨k, b, update_self .., rfl⟩
    rw [update_of_ne hne] at hi
    obtain ⟨l, b', hl, hb'⟩ := h.busy i hi
    refine ⟨l, b', ?_, hb'⟩
    rw [update_of_ne]
    · exact hl
    · rintro rfl
      exact hold.ne b' hl
  · rcases hcases l b₁ hl with ⟨rfl, rfl⟩ | ⟨-, hl'⟩ <;> rcases hcases m b₂ hm with ⟨rfl, rfl⟩ | ⟨-, hm'⟩
    · rfl
    · exact absurd heq.symm (hother m b₂ hm')
    · exact absurd heq (hother l b₁ hl')
    · exact h.apart l m b₁ b₂ hl' hm' heq
  · rcases eq_or_ne i b.session with rfl | hne
    · rw [update_self, hx.active] at hi
      cases hi
    · rw [update_of_ne hne] at hi ⊢
      exact h.inactive i hi

theorem Batches.goesOn (hjob : jobs k = .batch b) (hsession : b'.session = b.session)
    (hserves : ∀ x : Session, x.Serves b → x.Serves b') : Batches sessions (update jobs k (.batch b')) := by
  have hcases : ∀ l b₁, update jobs k (.batch b') l = .batch b₁ →
      ∃ b₀, jobs l = .batch b₀ ∧ b₁.session = b₀.session ∧ ∀ x : Session, x.Serves b₀ → x.Serves b₁ := by
    intro l b₁ hl
    rcases eq_or_ne l k with rfl | hne
    · rw [update_self] at hl
      cases hl
      exact ⟨b, hjob, hsession, hserves⟩
    · rw [update_of_ne hne] at hl
      exact ⟨b₁, hl, rfl, fun _ h => h⟩
  refine ⟨fun l b₁ hl => ?_, fun i hi => ?_, fun l m b₁ b₂ hl hm heq => ?_, h.inactive⟩
  · obtain ⟨b₀, hl₀, hsame, hkeep⟩ := hcases l b₁ hl
    rw [hsame]
    exact hkeep _ (h.serves l b₀ hl₀)
  · obtain ⟨l, b₀, hl, hb₀⟩ := h.busy i hi
    rcases eq_or_ne l k with rfl | hne
    · cases hjob.symm.trans hl
      exact ⟨l, b', update_self .., hsession.trans hb₀⟩
    · exact ⟨l, b₀, by rw [update_of_ne hne]; exact hl, hb₀⟩
  · obtain ⟨b₀, hl₀, hsame, -⟩ := hcases l b₁ hl
    obtain ⟨b₀', hm₀, hsame', -⟩ := hcases m b₂ hm
    exact h.apart l m b₀ b₀' hl₀ hm₀ (hsame.symm.trans (heq.trans hsame'))

theorem Batches.ends (hjob : jobs k = .batch b) (hnew : j.Other) (hbusy : x.busy = false)
    (hinactive : x.active = false → x.ownsMapping = false) :
    Batches (update sessions b.session x) (update jobs k j) := by
  have hsame : ∀ l b', update jobs k j l = .batch b' → jobs l = .batch b' ∧ b'.session ≠ b.session := by
    intro l b' hl
    rw [update_apply] at hl
    split at hl
    · exact absurd hl (hnew.ne b')
    · rename_i hne
      exact ⟨hl, fun heq => hne (h.apart l k b' b hl hjob heq)⟩
  refine ⟨fun l b' hl => ?_, fun i hi => ?_, fun l m b₁ b₂ hl hm heq => ?_, fun i hi => ?_⟩
  · obtain ⟨hl, hne⟩ := hsame l b' hl
    rw [update_of_ne hne]
    exact h.serves l b' hl
  · rcases eq_or_ne i b.session with rfl | hne
    · rw [update_self, hbusy] at hi
      cases hi
    rw [update_of_ne hne] at hi
    obtain ⟨l, b', hl, hb'⟩ := h.busy i hi
    refine ⟨l, b', ?_, hb'⟩
    rw [update_of_ne]
    · exact hl
    · rintro rfl
      cases hjob.symm.trans hl
      exact hne hb'.symm
  · exact h.apart l m b₁ b₂ (hsame l b₁ hl).1 (hsame m b₂ hm).1 heq
  · rcases eq_or_ne i b.session with rfl | hne
    · rw [update_self] at hi ⊢
      exact ⟨hinactive hi, hbusy⟩
    · rw [update_of_ne hne] at hi ⊢
      exact h.inactive i hi

end Invariant

/-! ## Sections -/

section Sections

variable {w w' : World n} {k : Fin n} {A : UInt64} {i : Fin sessionCount} {b : Batch}

def World.Batched (w : World n) : Prop := Batches w.sessions w.jobs

theorem Session.Got.moves {x x' : Session} {ring serial : Nat} (hinactive : x.active = false → x.ownsMapping = false ∧ x.busy = false)
    (h : x.Got ring A serial x') : x.Moves x' := by
  rcases h with ⟨rfl, -, -⟩ | ⟨rfl, hfree⟩
  · exact .refl hinactive
  have hbusy := (hinactive hfree).2
  refine ⟨fun h => ?_, hbusy.symm, nofun⟩
  rw [hbusy] at h
  cases h

/-- The mapping does not matter to the batch. -/
theorem Session.Moves.owns {x x' : Session} (h : x.Moves x') (hactive : x'.active = true) :
    x.Moves { x' with ownsMapping := true } :=
  ⟨h.kept, h.busy, fun hfalse => by cases hactive.symm.trans hfalse⟩

theorem Session.Got.active {x x' : Session} {ring serial : Nat} (h : x.Got ring A serial x') :
    x'.active = true ∧ x'.subjectId = A := by
  rcases h with ⟨rfl, hactive, hsubject⟩ | ⟨rfl, -⟩
  · exact ⟨hactive, hsubject⟩
  · exact ⟨rfl, rfl⟩

theorem Finds.batched (h : Finds w A w' i) (hw : w.Batched) : w'.Batched := by
  cases h with
  | owned => exact hw
  | direct _ hfound =>
    obtain ⟨x, hgot, rfl⟩ := sessionGet_ok hfound
    exact Batches.one hw (hgot.moves (hw.inactive i))

theorem Finds.session (h : Finds w A w' i) : (w'.sessions i).active = true ∧ (w'.sessions i).subjectId = A := by
  cases h with
  | owned hfound =>
    obtain ⟨hactive, -, hsubject, -⟩ := beginOwnedSession_ok hfound
    exact ⟨hactive, hsubject⟩
  | direct _ hfound =>
    obtain ⟨x, hgot, rfl⟩ := sessionGet_ok hfound
    dsimp only
    rw [update_self]
    exact hgot.active

theorem Finds.jobs (h : Finds w A w' i) : w'.jobs = w.jobs := by
  cases h <;> rfl

theorem complete_batched {sub : Submission} {rest : List Submission} {c : Completion} {token : Option Token}
    (hw : w.Batched) (hjob : w.jobs k = .batch b) : (w.complete k b sub rest c token).Batched :=
  Batches.goesOn hw hjob rfl fun _ h => { h with }

theorem publish_batched {mem : Shared} (hw : w.Batched) (hjob : w.jobs k = .batch b) : (w.publishBatch k b mem).Batched := by
  have hactive := (hw.serves k b hjob).active
  unfold World.publishBatch
  dsimp only
  split
  · cases (w.sessions b.session).reclaimPending with
    | false => exact Batches.ends hw hjob rfl rfl fun hfalse => by cases hactive.symm.trans hfalse
    | true => exact Batches.ends hw hjob rfl rfl fun _ => rfl
  · exact Batches.ends hw hjob rfl rfl fun _ => rfl

theorem reclaimRings_batched (hw : w.Batched) (A : UInt64) : Batches (Service.reclaimRings w.sessions A).1 w.jobs := by
  refine Batches.table hw fun i => ?_
  rcases reclaimRings_cases w.sessions A i with hsame | ⟨-, ⟨hbusy, hpending⟩ | ⟨hfree, hcleared⟩⟩
  · rw [hsame]
    exact .refl (hw.inactive i)
  · rw [hpending]
    exact ⟨fun _ => ⟨rfl, rfl, rfl, rfl, rfl⟩, rfl, hw.inactive i⟩
  rw [hcleared]
  refine ⟨fun h => ?_, hfree.symm, fun _ => ⟨rfl, rfl⟩⟩
  rw [hfree] at h
  cases h

theorem other_of_eq {j : Job} (h : w.jobs k = j) (hj : j.Other) : (w.jobs k).Other := h ▸ hj

/-- **One section** keeps batches and sessions together. -/
theorem Section.batched (h : Section w w') (hw : w.Batched) : w'.Batched := by
  cases h with
  | connect | background | same | goesOn => exact hw
  | forget hidle => exact Batches.job hw (other_of_eq hidle rfl) rfl
  | answer hfresh | ask hfresh | spawn hfresh => exact Batches.job hw (other_of_eq hfresh.idle rfl) rfl
  | createRing hfresh hasks hregister =>
    obtain ⟨x, hgot, -, rfl⟩ := registerMapping_ok hregister
    have hmoves := (hgot.moves (hw.inactive _)).owns hgot.active.1
    exact Batches.job (Batches.one hw hmoves) (other_of_eq hfresh.idle rfl) rfl
  | spawned _ hjob | delivered hjob | rollback hjob | unwind hjob | reclaimObjects hjob | reclaimed hjob =>
    exact Batches.job hw (other_of_eq hjob rfl) rfl
  | spawnDone _ hnext => exact complete_batched (w := { w with core := _ }) hw hnext.job
  | @withdraw k p r id hjob hundo =>
    have hforget : Batches (forgetSession w.sessions id p.subject) w.jobs := ?_
    · exact hforget.job (other_of_eq hjob rfl) rfl
    rcases forgetSession_cases w.sessions id p.subject with hsame | ⟨i, -, -, hfree, -, hcleared⟩
    · rw [hsame]
      exact hw
    rw [hcleared]
    refine Batches.one hw ⟨fun hbusy => ?_, hfree.symm, fun _ => ⟨rfl, rfl⟩⟩
    rw [hfree] at hbusy
    cases hbusy
  | found hfinds => exact hfinds.batched hw
  | @reserve k w₁ A i mem max submissions hidle hfinds hbusy hreserve htodo =>
    obtain ⟨hactive, hsubject⟩ := hfinds.session
    have hidle' : w₁.jobs k = .idle := by
      rw [hfinds.jobs]
      exact hidle
    exact Batches.start (b := (w₁.sessions i).batch i A _ _) (hfinds.batched hw) (other_of_eq hidle' rfl) hbusy
      ⟨hactive, rfl, rfl, hsubject, rfl, rfl⟩
  | dismiss hnext => exact complete_batched (w := w.start _ _) hw hnext.job
  | execute hnext => exact complete_batched (w := World.start _ _ _) hw hnext.job
  | beginSpawn hnext =>
    exact Batches.goesOn hw hnext.job rfl fun _ h => { h with }
  | publish mem hjob => exact publish_batched hw hjob
  | @unwound k A reclaim hjob =>
    cases reclaim with
    | false | true => exact Batches.job hw (other_of_eq hjob rfl) rfl
  | @reclaimRings k A hjob =>
    refine Batches.job (reclaimRings_batched hw A) (other_of_eq hjob rfl) ?_
    split <;> rfl

theorem init_batched (runtimeId : UInt64) (key : Key) : (World.init n runtimeId key).Batched :=
  ⟨nofun, nofun, nofun, fun _ _ => ⟨rfl, rfl⟩⟩

end Sections

end Llam.Service
