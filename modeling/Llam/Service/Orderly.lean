import Llam.Service.Departure

/-!
# Departures in order

Between the end of a transport and the end of its reclaim (`Orderly`): whoever still serves the subject does so in a ring
batch, every ring session of the subject is marked for the thread that executes its batch, or a thread is about to look at
it, and tables are reclaimed only when no ring session of the subject is left.
-/

namespace Llam.Service

open Llam.Lib Llam.Broker Llam.Ring Function

variable {n : Nat}

/-- The subject whose objects the thread is going to reclaim. -/
def Job.cleans : Job → Option UInt64
  | .unwind A _ true | .reclaimRings A | .reclaimObjects A _ => some A
  | _ => none

/-- The subject had a transport and has none any more. -/
def Gone (connected subjects : List UInt64) (A : UInt64) : Prop := A ∈ subjects ∧ A ∉ connected

/-- A ring session of a subject that is gone is marked, or a thread will look at it. -/
def Session.Marked (x : Session) : Prop := x.busy = true ∧ x.reclaimPending = true

structure Orderly (sessions : Sessions) (jobs : Fin n → Job) (connected subjects : List UInt64) : Prop where
  known : ∀ A ∈ connected, A ∈ subjects
  zero : 0 ∉ subjects
  served : ∀ k A, (jobs k).serves = some A → A = 0 ∨ A ∈ connected
  pending : ∀ i, (sessions i).reclaimPending = true → Gone connected subjects (sessions i).subjectId
  cleaner : ∀ k A, (jobs k).cleans = some A → Gone connected subjects A
  rings : ∀ A, Gone connected subjects A → ∀ i, (sessions i).belongs A = true →
    (sessions i).Marked ∨ ∃ k, jobs k = .reclaimRings A
  past : ∀ k A left, jobs k = .reclaimObjects A left → ∀ i, (sessions i).belongs A = false

section Orderly

variable {sessions sessions' : Sessions} {jobs : Fin n → Job} {connected subjects : List UInt64} {k : Fin n} {j : Job}

variable (h : Orderly sessions jobs connected subjects)

include h

/-- The general step: a thread does something else, and sessions move. -/
theorem Orderly.step (hserves : ∀ A, j.serves = some A → A = 0 ∨ A ∈ connected)
    (hcleans : ∀ A, j.cleans = some A → Gone connected subjects A)
    (hpending : ∀ i, (sessions' i).reclaimPending = true → Gone connected subjects (sessions' i).subjectId)
    (hbelongs : ∀ A, Gone connected subjects A → ∀ i, (sessions' i).belongs A = true → (sessions i).belongs A = true)
    (hrings : ∀ A, Gone connected subjects A → ∀ i, (sessions' i).belongs A = true →
      (sessions' i).Marked ∨ j = .reclaimRings A ∨ ∃ l, l ≠ k ∧ jobs l = .reclaimRings A)
    (hpast : ∀ A left, j = .reclaimObjects A left → ∀ i, (sessions' i).belongs A = false) :
    Orderly sessions' (update jobs k j) connected subjects := by
  refine ⟨h.known, h.zero, fun l A hl => ?_, hpending, fun l A hl => ?_, fun A hA i hi => ?_, fun l A left hl i => ?_⟩
  · rw [update_apply] at hl
    split at hl
    · exact hserves A hl
    · exact h.served l A hl
  · rw [update_apply] at hl
    split at hl
    · exact hcleans A hl
    · exact h.cleaner l A hl
  · rcases hrings A hA i hi with hmarked | rfl | ⟨l, hne, hl⟩
    · exact .inl hmarked
    · exact .inr ⟨k, update_self ..⟩
    · exact .inr ⟨l, by rw [update_of_ne hne]; exact hl⟩
  · rw [update_apply] at hl
    split at hl
    · exact hpast A left hl i
    by_contra hbelong
    have hold := hbelongs A (h.cleaner l A (by rw [hl]; rfl)) i (Bool.not_eq_false _ ▸ hbelong)
    cases hold.symm.trans (h.past l A left hl i)

/-- The thread that a session waits for is another one. -/
theorem Orderly.waits {A : UInt64} (hA : Gone connected subjects A)
    {i : Fin sessionCount} (hi : (sessions i).belongs A = true) (hk : jobs k ≠ .reclaimRings A) :
    (sessions i).Marked ∨ ∃ l, l ≠ k ∧ jobs l = .reclaimRings A := by
  refine (h.rings A hA i hi).imp id ?_
  rintro ⟨l, hl⟩
  exact ⟨l, by rintro rfl; exact hk hl, hl⟩

theorem Orderly.job (hk : ∀ A, jobs k = .reclaimRings A → j = .reclaimRings A)
    (hserves : ∀ A, j.serves = some A → A = 0 ∨ A ∈ connected)
    (hcleans : ∀ A, j.cleans = some A → (jobs k).cleans = some A)
    (hpast : ∀ A left, j = .reclaimObjects A left → ∃ left', jobs k = .reclaimObjects A left') :
    Orderly sessions (update jobs k j) connected subjects := by
  refine h.step hserves (fun A hj => h.cleaner k A (hcleans A hj)) h.pending (fun _ _ _ hi => hi) (fun A hA i hi => ?_)
    (fun A left hj => ?_)
  · by_cases hjob : jobs k = .reclaimRings A
    · exact .inr (.inl (hk A hjob))
    · exact (h.waits hA hi hjob).imp id .inr
  · obtain ⟨left', hjob⟩ := hpast A left hj
    exact h.past k A left' hjob

/-- Sessions of other subjects move, and sessions end. -/
theorem Orderly.table
    (hmoves : ∀ i, (sessions' i = sessions i) ∨ ((sessions' i).reclaimPending = true → (sessions i).reclaimPending = true ∧
      (sessions' i).subjectId = (sessions i).subjectId) ∧
      ∀ A, Gone connected subjects A → (sessions' i).belongs A = true → (sessions i).belongs A = true ∧
        ((sessions i).Marked → (sessions' i).Marked)) : Orderly sessions' jobs connected subjects := by
  have hpending : ∀ i, (sessions' i).reclaimPending = true → Gone connected subjects (sessions' i).subjectId := by
    intro i hi
    rcases hmoves i with heq | ⟨hpend, -⟩
    · rw [heq] at hi ⊢
      exact h.pending i hi
    obtain ⟨hold, hsubject⟩ := hpend hi
    rw [hsubject]
    exact h.pending i hold
  have hbelongs : ∀ A, Gone connected subjects A → ∀ i, (sessions' i).belongs A = true → (sessions i).belongs A = true ∧
      ((sessions i).Marked → (sessions' i).Marked) := by
    intro A hA i hi
    rcases hmoves i with heq | ⟨-, hbelong⟩
    · rw [heq] at hi ⊢
      exact ⟨hi, id⟩
    · exact hbelong A hA hi
  refine ⟨h.known, h.zero, h.served, hpending, h.cleaner, fun A hA i hi => ?_, fun l A left hl i => ?_⟩
  · obtain ⟨hold, hmarked⟩ := hbelongs A hA i hi
    exact (h.rings A hA i hold).imp hmarked id
  · by_contra hbelong
    have hold := (hbelongs A (h.cleaner l A (by rw [hl]; rfl)) i (Bool.not_eq_false _ ▸ hbelong)).1
    cases hold.symm.trans (h.past l A left hl i)

/-- A thread that reclaims nothing goes on to something of the same kind. -/
theorem Orderly.quiet {j₀ : Job} (hjob : jobs k = j₀)
    (hold : j₀.cleans = none) (hserves : ∀ A, j.serves = some A → A = 0 ∨ A ∈ connected) (hnew : j.cleans = none) :
    Orderly sessions (update jobs k j) connected subjects := by
  refine h.job (fun A hk => ?_) hserves (fun A hj => ?_) (fun A left hj => ?_)
  · rw [← hjob, hk] at hold
    cases hold
  · cases hnew.symm.trans hj
  · rw [hj] at hnew
    cases hnew

end Orderly

/-! ## Sections -/

section Sections

variable {w w' : World n} {k : Fin n} {A : UInt64} {i : Fin sessionCount} {b : Batch}

def World.Orderly (w : World n) : Prop := Service.Orderly w.sessions w.jobs w.connected w.subjects

def World.Gone (w : World n) (A : UInt64) : Prop := Service.Gone w.connected w.subjects A

theorem present_iff : w.present A = true ↔ A = 0 ∨ A ∈ w.connected := by
  simp [World.present]

theorem World.Orderly.present (hw : w.Orderly) (h : w.present A = true) : ¬ w.Gone A := by
  rintro ⟨hmem, hgone⟩
  rcases present_iff.mp h with rfl | hconnected
  · exact hw.zero hmem
  · exact hgone hconnected

theorem belongs_iff {x : Session} : x.belongs A = true ↔ x.subjectId = A ∧ (x.active = true ∨ x.ownsMapping = true) := by
  simp [Session.belongs]

/-- A session that is set up for a subject that is present. -/
theorem got_orderly {x x' : Session} {ring serial : Nat} (hw : w.Orderly) (hpresent : w.present A = true)
    (hgot : (w.sessions i).Got ring A serial x) (hbusy : x'.busy = x.busy) (hpending : x'.reclaimPending = x.reclaimPending)
    (hsubject : x'.subjectId = x.subjectId) :
    Service.Orderly (update w.sessions i x') w.jobs w.connected w.subjects := by
  refine Service.Orderly.table hw fun l => ?_
  rcases eq_or_ne l i with rfl | hne
  · rw [update_self]
    refine .inr ⟨fun hpend => ?_, fun B hB hbelongs => ?_⟩
    · rcases hgot with ⟨rfl, -, -⟩ | ⟨rfl, -⟩
      · exact ⟨hpending.symm.trans hpend, hsubject⟩
      · cases hpending.symm.trans hpend
    · have hA : x'.subjectId = B := (belongs_iff.mp hbelongs).1
      rw [hsubject, hgot.active.2] at hA
      rw [← hA] at hB
      exact absurd hB (hw.present hpresent)
  · exact .inl (update_of_ne hne ..)

theorem Finds.orderly (h : Finds w A w' i) (hw : w.Orderly) : w'.Orderly := by
  cases h with
  | owned => exact hw
  | direct hpresent hfound =>
    obtain ⟨x, hgot, rfl⟩ := sessionGet_ok hfound
    exact got_orderly hw hpresent hgot rfl rfl rfl

theorem busy_orderly (hw : w.Orderly) (i : Fin sessionCount) :
    Service.Orderly (update w.sessions i { w.sessions i with busy := true }) w.jobs w.connected w.subjects := by
  refine Service.Orderly.table hw fun l => ?_
  rcases eq_or_ne l i with rfl | hne
  · rw [update_self]
    exact .inr ⟨fun h => ⟨h, rfl⟩, fun B _ hbelongs => ⟨hbelongs, fun hmarked => ⟨rfl, hmarked.2⟩⟩⟩
  · exact .inl (update_of_ne hne ..)

theorem cleared_orderly (hw : w.Orderly) (i : Fin sessionCount) :
    Service.Orderly (update w.sessions i .cleared) w.jobs w.connected w.subjects := by
  refine Service.Orderly.table hw fun l => ?_
  rcases eq_or_ne l i with rfl | hne
  · rw [update_self]
    refine .inr ⟨nofun, fun B _ hbelongs => ?_⟩
    rcases (belongs_iff.mp hbelongs).2 with h | h <;> cases h
  · exact .inl (update_of_ne hne ..)

/-- The end of a batch: a session that is marked ends with it, and its thread reclaims the subject. -/
theorem publish_orderly (hw : w.Orderly) (hjob : w.jobs k = .batch b) (mem : Shared) :
    (w.publishBatch k b mem).Orderly := by
  -- what is left of the session, and what the thread does next
  have hends : ∀ (x : Session) (j : Job), (x.reclaimPending = false) → (∀ B, x.belongs B = true →
        (w.sessions b.session).belongs B = true ∧ (w.sessions b.session).reclaimPending = false) →
      (∀ B, j.serves ≠ some B) → (∀ B, j.cleans = some B → B = (w.sessions b.session).subjectId ∧
        (w.sessions b.session).reclaimPending = true) → (∀ B left, j ≠ .reclaimObjects B left) →
      Service.Orderly (update w.sessions b.session x) (update w.jobs k j) w.connected w.subjects := by
    intro x j hpending hbelongs hserves hcleans hobjects
    have hk : ∀ B, w.jobs k ≠ .reclaimRings B := by
      intro B h
      cases hjob.symm.trans h
    refine Service.Orderly.step hw (fun B h => absurd h (hserves B)) (fun B h => ?_) (fun l hl => ?_) (fun B hB l hl => ?_)
      (fun B hB l hl => ?_) (fun B left h => absurd h (hobjects B left))
    · obtain ⟨rfl, hpend⟩ := hcleans B h
      exact hw.pending b.session hpend
    · rcases eq_or_ne l b.session with rfl | hne
      · rw [update_self, hpending] at hl
        cases hl
      · rw [update_of_ne hne] at hl ⊢
        exact hw.pending l hl
    · rcases eq_or_ne l b.session with rfl | hne
      · rw [update_self] at hl
        exact (hbelongs B hl).1
      · rw [update_of_ne hne] at hl
        exact hl
    · rcases eq_or_ne l b.session with rfl | hne
      · rw [update_self] at hl
        obtain ⟨hold, hunmarked⟩ := hbelongs B hl
        rcases Service.Orderly.waits hw hB hold (hk B) with hmarked | hl'
        · cases hunmarked.symm.trans hmarked.2
        · exact .inr (.inr hl')
      · rw [update_of_ne hne] at hl ⊢
        exact (Service.Orderly.waits hw hB hl (hk B)).imp id .inr
  have hcleared : ∀ B, Session.cleared.belongs B = true → (w.sessions b.session).belongs B = true ∧
      (w.sessions b.session).reclaimPending = false := by
    intro B hbelongs
    rcases (belongs_iff.mp hbelongs).2 with h | h <;> cases h
  unfold World.publishBatch
  dsimp only
  split
  · cases hpending : (w.sessions b.session).reclaimPending with
    | true => exact hends _ _ rfl hcleared nofun (fun B h => ⟨(Option.some.inj h).symm, hpending⟩) nofun
    | false => exact hends _ _ rfl (fun B hbelongs => ⟨hbelongs, hpending⟩) nofun nofun nofun
  · cases hpending : (w.sessions b.session).reclaimPending with
    | true => exact hends _ _ rfl hcleared nofun (fun B h => ⟨(Option.some.inj h).symm, hpending⟩) nofun
    | false => exact hends _ _ rfl hcleared nofun nofun nofun

/-- No session of the subject is left unless its batch is still running. -/
theorem reclaimRings_belongs (sessions : Sessions) (hA : A ≠ 0) (i : Fin sessionCount)
    (h : ((Service.reclaimRings sessions A).1 i).belongs A = true) :
    ((Service.reclaimRings sessions A).1 i).Marked ∧ (sessions i).belongs A = true ∧ (sessions i).busy = true := by
  unfold Service.reclaimRings at h ⊢
  rw [if_neg hA] at h ⊢
  dsimp only at h ⊢
  split at h
  · rename_i hbelongs
    rw [if_pos hbelongs]
    split at h
    · rename_i hbusy
      rw [if_pos hbusy]
      exact ⟨⟨hbusy, rfl⟩, hbelongs, hbusy⟩
    · rcases (belongs_iff.mp h).2 with h | h <;> cases h
  · rename_i hbelongs
    exact absurd h hbelongs

theorem reclaimRings_deferred (sessions : Sessions) (hA : A ≠ 0) :
    (Service.reclaimRings sessions A).2 = true ↔ ∃ i, (sessions i).belongs A = true ∧ (sessions i).busy = true := by
  unfold Service.reclaimRings
  rw [if_neg hA]
  simp

theorem reclaimRings_orderly (hw : w.Orderly) (hjob : w.jobs k = .reclaimRings A) :
    Service.Orderly (Service.reclaimRings w.sessions A).1 (update w.jobs k
      (if (Service.reclaimRings w.sessions A).2 then .idle else .reclaimObjects A World.families)) w.connected w.subjects := by
  have hgone : w.Gone A := hw.cleaner k A (by rw [hjob]; rfl)
  have hA : A ≠ 0 := by
    rintro rfl
    exact hw.zero hgone.1
  -- sessions of other subjects are left alone
  have hcases : ∀ i, (Service.reclaimRings w.sessions A).1 i = w.sessions i ∨ (w.sessions i).subjectId = A ∧
      ((Service.reclaimRings w.sessions A).1 i = { w.sessions i with reclaimPending := true } ∨
        (Service.reclaimRings w.sessions A).1 i = .cleared) := by
    intro i
    rcases reclaimRings_cases w.sessions A i with hsame | ⟨hbelongs, ⟨-, heq⟩ | ⟨-, heq⟩⟩
    · exact .inl hsame
    · exact .inr ⟨(belongs_iff.mp hbelongs).1, .inl heq⟩
    · exact .inr ⟨(belongs_iff.mp hbelongs).1, .inr heq⟩
  have hbelongs : ∀ B i, ((Service.reclaimRings w.sessions A).1 i).belongs B = true → (w.sessions i).belongs B = true := by
    intro B i hi
    rcases hcases i with hsame | ⟨-, heq | heq⟩
    · rw [hsame] at hi
      exact hi
    · rw [heq] at hi
      exact hi
    · rw [heq] at hi
      rcases (belongs_iff.mp hi).2 with h | h <;> cases h
  refine Service.Orderly.step hw ?_ ?_ (fun i hi => ?_) (fun B _ => hbelongs B) (fun B hB i hi => ?_) ?_
  · split <;> nofun
  · split
    · nofun
    · rintro _ ⟨⟩
      exact hgone
  · rcases hcases i with hsame | ⟨hsubject, heq | heq⟩
    · rw [hsame] at hi ⊢
      exact hw.pending i hi
    · rw [heq]
      exact hsubject.symm ▸ hgone
    · rw [heq] at hi
      cases hi
  · rcases eq_or_ne B A with rfl | hne
    · exact .inl (reclaimRings_belongs w.sessions hA i hi).1
    have hwaits := Service.Orderly.waits hw hB (hbelongs B i hi) (k := k) (by rw [hjob]; rintro ⟨⟩; exact hne rfl)
    refine hwaits.imp (fun hmarked => ?_) .inr
    rcases hcases i with hsame | ⟨hsubject, -⟩
    · rw [hsame]
      exact hmarked
    · exact absurd ((belongs_iff.mp (hbelongs B i hi)).1.symm.trans hsubject) hne
  · split
    · nofun
    rename_i hdeferred
    rintro _ _ ⟨⟩ i
    by_contra hi
    obtain ⟨-, hbelong, hbusy⟩ := reclaimRings_belongs w.sessions hA i (Bool.not_eq_false _ ▸ hi)
    exact hdeferred ((reclaimRings_deferred w.sessions hA).mpr ⟨i, hbelong, hbusy⟩)

theorem forget_orderly (hw : w.Orderly) (hidle : w.jobs k = .idle) (hconnected : A ∈ w.connected)
    (hserves : ∀ l, (w.jobs l).serves ≠ some A) :
    Service.Orderly w.sessions (update w.jobs k (.reclaimRings A)) (w.connected.filter (· ≠ A)) w.subjects := by
  have hmem : ∀ B, B ∈ w.connected.filter (· ≠ A) ↔ B ∈ w.connected ∧ B ≠ A := by
    intro B
    rw [List.mem_filter, decide_eq_true_eq]
  have hgone : ∀ B, Service.Gone (w.connected.filter (· ≠ A)) w.subjects B → B = A ∨ w.Gone B := by
    rintro B ⟨hB, hnot⟩
    rw [hmem, not_and_or, not_not] at hnot
    exact hnot.symm.imp id fun h => ⟨hB, h⟩
  have hgone' : ∀ B, w.Gone B → Service.Gone (w.connected.filter (· ≠ A)) w.subjects B := by
    rintro B ⟨hB, hnot⟩
    exact ⟨hB, fun h => hnot ((hmem B).mp h).1⟩
  have hA : Service.Gone (w.connected.filter (· ≠ A)) w.subjects A :=
    ⟨hw.known A hconnected, fun h => ((hmem A).mp h).2 rfl⟩
  refine ⟨fun B hB => hw.known B ((hmem B).mp hB).1, hw.zero, fun l B hl => ?_, fun i hi => hgone' _ (hw.pending i hi),
    fun l B hl => ?_, fun B hB i hi => ?_, fun l B left hl => ?_⟩
  · rw [update_apply] at hl
    split at hl
    · cases hl
    refine (hw.served l B hl).imp id fun hB => (hmem B).mpr ⟨hB, ?_⟩
    rintro rfl
    exact hserves l hl
  · rw [update_apply] at hl
    split at hl
    · cases hl
      exact hA
    · exact hgone' B (hw.cleaner l B hl)
  · rcases hgone B hB with rfl | hB
    · exact .inr ⟨k, update_self ..⟩
    refine (Service.Orderly.waits hw hB hi (k := k) (by rw [hidle]; nofun)).imp id ?_
    rintro ⟨l, hne, hl⟩
    exact ⟨l, by rw [update_of_ne hne]; exact hl⟩
  · rw [update_apply] at hl
    split at hl
    · cases hl
    · exact hw.past l B left hl

theorem connect_orderly (hw : w.Orderly) (hzero : A ≠ 0) (hnew : A ∉ w.subjects) :
    Service.Orderly w.sessions w.jobs (A :: w.connected) (A :: w.subjects) := by
  have hgone : ∀ B, Service.Gone (A :: w.connected) (A :: w.subjects) B ↔ w.Gone B := by
    intro B
    constructor
    · rintro ⟨hB, hnot⟩
      rw [List.mem_cons, not_or] at hnot
      exact ⟨(List.mem_cons.mp hB).resolve_left hnot.1, hnot.2⟩
    · rintro ⟨hB, hnot⟩
      refine ⟨List.mem_cons_of_mem A hB, fun h => ?_⟩
      rcases List.mem_cons.mp h with rfl | h
      · exact hnew hB
      · exact hnot h
  refine ⟨fun B hB => ?_, fun h => ?_, fun k B hk => (hw.served k B hk).imp id (List.mem_cons_of_mem A),
    fun i hi => (hgone _).mpr (hw.pending i hi), fun k B hk => (hgone B).mpr (hw.cleaner k B hk),
    fun B hB => hw.rings B ((hgone B).mp hB), hw.past⟩
  · rcases List.mem_cons.mp hB with rfl | hB
    · exact List.mem_cons_self
    · exact List.mem_cons_of_mem A (hw.known B hB)
  · rcases List.mem_cons.mp h with h | h
    · exact hzero h.symm
    · exact hw.zero h

/-- **One section** keeps departures in order. -/
theorem Section.orderly (h : Section w w') (hw : w.Orderly) : w'.Orderly := by
  have hjobs : ∀ {k : Fin n} {j₀ j : Job}, w.jobs k = j₀ → j₀.cleans = none →
      (∀ B, j.serves = some B → B = 0 ∨ B ∈ w.connected) → j.cleans = none →
      Service.Orderly w.sessions (update w.jobs k j) w.connected w.subjects :=
    fun hjob hold hserves hnew => Service.Orderly.quiet hw hjob hold hserves hnew
  cases h with
  | connect hzero hnew => exact connect_orderly hw hzero hnew
  | forget hidle hconnected hserves => exact forget_orderly hw hidle hconnected hserves
  | background | same | goesOn => exact hw
  | answer hp | ask hp | spawn hp =>
    exact hjobs hp.idle rfl (fun _ h => present_iff.mp (by cases h; exact hp.present)) rfl
  | createRing hp hasks hregister =>
    obtain ⟨x, hgot, -, rfl⟩ := registerMapping_ok hregister
    exact Service.Orderly.quiet (got_orderly hw hp.present hgot rfl rfl rfl) hp.idle rfl
      (fun _ h => present_iff.mp (by cases h; exact hp.present)) rfl
  | spawned ha hjob => exact hjobs hjob rfl (fun B h => hw.served _ B (by rw [hjob]; exact h)) rfl
  | spawnDone ha hnext | dismiss hnext | execute hnext | beginSpawn hnext => exact hjobs hnext.job rfl nofun rfl
  | delivered hjob | rollback hjob => exact hjobs hjob rfl nofun rfl
  | @withdraw k p r id hjob hundo =>
    have hforget : Service.Orderly (forgetSession w.sessions id p.subject) w.jobs w.connected w.subjects := by
      rcases forgetSession_cases w.sessions id p.subject with hsame | ⟨i, -, -, -, -, hcleared⟩
      · rw [hsame]
        exact hw
      · rw [hcleared]
        exact cleared_orderly hw i
    exact hforget.quiet hjob rfl nofun rfl
  | found hfinds => exact hfinds.orderly hw
  | @reserve k w₁ A i mem max submissions hidle hfinds hbusy hreserve htodo =>
    have hidle' : w₁.jobs k = .idle := by
      rw [hfinds.jobs]
      exact hidle
    exact Service.Orderly.quiet (busy_orderly (hfinds.orderly hw) i) hidle' rfl nofun rfl
  | publish mem hjob hdone => exact publish_orderly hw hjob mem
  | @unwind k A t tokens reclaim core out hjob hexec =>
    refine Service.Orderly.job hw (fun B h => ?_) nofun (fun B h => ?_) nofun
    · cases hjob.symm.trans h
    · rw [hjob]
      cases reclaim <;> exact h
  | @unwound k A reclaim hjob =>
    cases reclaim with
    | false => exact hjobs hjob rfl nofun rfl
    | true =>
      refine Service.Orderly.job hw (fun B h => ?_) nofun (fun B h => ?_) nofun
      · cases hjob.symm.trans h
      · rw [hjob]
        exact h
  | reclaimRings hjob => exact reclaimRings_orderly hw hjob
  | @reclaimObjects k A f left core out hjob hexec =>
    refine Service.Orderly.job hw (fun B h => ?_) nofun (fun B h => ?_) (fun B left' h => ?_)
    · cases hjob.symm.trans h
    · rw [hjob]
      exact h
    · cases h
      exact ⟨_, hjob⟩
  | reclaimed hjob =>
    refine Service.Orderly.job hw (fun B h => ?_) nofun nofun nofun
    cases hjob.symm.trans h

theorem init_orderly (runtimeId : UInt64) (key : Key) : (World.init n runtimeId key).Orderly := by
  refine ⟨nofun, nofun, nofun, nofun, nofun, fun A hA => ?_, nofun⟩
  cases hA.1

end Sections

end Llam.Service
