import Llam.Lease.Execution

/-!
# The owner projection

`Agrees` says that lease, owner record and `current_p` name the same owners, everywhere. A writer of the lease of `p`
breaks it at `p` only, and only between its write and the projection: `Pending p` is what then still holds.
`compose_agrees` shows that a projection that is not refused restores `Agrees`, and `compose_advances` that it moves the
ownership generation of `p` forward whenever the owner changes (`Advances`).
-/

namespace Llam.Lease

open Llam.Lib Function

variable {P W : Type} [DecidableEq P] [DecidableEq W] {cfg : Config P W}

/-- The owner record of a processor. -/
abbrev Runtime.record (rt : Runtime P W) (p : P) : OwnerRecord W := (rt.shards p).ownerRecord

/-- The lease of a processor. -/
abbrev Runtime.lease (rt : Runtime P W) (p : P) : LegacyLease W := (rt.shards p).lease

/-! ## Writes -/

@[simp] theorem setLease_record (rt : Runtime P W) (p q : P) (l : LegacyLease W) :
    (rt.setLease p l).record q = rt.record q := by
  by_cases h : q = p
  · subst h; simp [Runtime.record, Runtime.setLease]
  · simp [Runtime.record, Runtime.setLease, update_of_ne h]

@[simp] theorem setLease_lease_self (rt : Runtime P W) (p : P) (l : LegacyLease W) : (rt.setLease p l).lease p = l := by
  simp [Runtime.lease, Runtime.setLease]

variable {p : P} {rt rt' : Runtime P W} {l : LegacyLease W} {desired : OwnerState}

theorem setLease_lease_of_ne (rt : Runtime P W) {q : P} (l : LegacyLease W) (h : q ≠ p) :
    (rt.setLease p l).lease q = rt.lease q := by
  simp [Runtime.lease, Runtime.setLease, update_of_ne h]

@[simp] theorem setLease_workers (rt : Runtime P W) (p : P) (l : LegacyLease W) :
    (rt.setLease p l).workers = rt.workers := rfl

theorem setLease_restore (rt : Runtime P W) (p : P) (l : LegacyLease W) :
    (rt.setLease p l).setLease p (rt.lease p) = rt := by
  simp [Runtime.setLease, Runtime.lease]

theorem setWorker_currentP (rt : Runtime P W) (w x : W) (worker : Worker P) :
    ((rt.setWorker w worker).workers x).currentP = if x = w then worker.currentP else (rt.workers x).currentP := by
  by_cases h : x = w
  · subst h; simp [Runtime.setWorker]
  · simp [Runtime.setWorker, h]

theorem setCurrentP_currentP (rt : Runtime P W) (w x : W) (p : Option P) :
    ((rt.setCurrentP w p).workers x).currentP = if x = w then p else (rt.workers x).currentP :=
  setWorker_currentP rt w x _

/-- Writing the old value of `current_p` back undoes a reservation. -/
theorem setCurrentP_restore (rt : Runtime P W) (w : W) (p : Option P) (h : (rt.workers w).currentP = none) :
    (rt.setCurrentP w p).setCurrentP w none = rt := by
  have hw : ({ rt.workers w with currentP := none } : Worker P) = rt.workers w := by rw [← h]
  simp [Runtime.setCurrentP, Runtime.setWorker, hw]

/-! ## Revoking mirrors -/

@[simp] theorem clearMirror_shards (p : P) (desired m : Option W) (rt : Runtime P W) :
    (clearMirror cfg p desired rt m).shards = rt.shards := by
  unfold clearMirror
  split
  · rfl
  split
  · rfl
  · split <;> rfl

theorem foldl_clearMirror_shards (cfg : Config P W) (p : P) (desired : Option W) (ms : List (Option W)) (rt : Runtime P W) :
    (ms.foldl (clearMirror cfg p desired) rt).shards = rt.shards := by
  induction ms generalizing rt with
  | nil => rfl
  | cons m ms ih => rw [List.foldl_cons, ih, clearMirror_shards]

/-- The worker `x` leaves `p` when it is mirrored and is not the new owner. -/
def Leaves (cfg : Config P W) (p : P) (desired : Option W) (rt : Runtime P W) (x : W) : Prop :=
  cfg.canOwn x p = true ∧ some x ≠ desired ∧ (rt.workers x).currentP = some p

theorem clearMirror_currentP (cfg : Config P W) (p : P) (desired m : Option W) (rt : Runtime P W) (x : W) :
    (m = some x ∧ Leaves cfg p desired rt x →
      ((clearMirror cfg p desired rt m).workers x).currentP = none) ∧
    (¬(m = some x ∧ Leaves cfg p desired rt x) →
      ((clearMirror cfg p desired rt m).workers x).currentP = (rt.workers x).currentP) := by
  cases m with
  | none => exact ⟨fun h => (by simp at h), fun _ => rfl⟩
  | some w =>
    unfold clearMirror
    by_cases hown : cfg.canOwn w p = true
    · by_cases hskip : some w ≠ desired ∧ (rt.workers w).currentP ≠ some p
      · simp only [hown, Bool.not_true, Bool.false_eq_true, if_false, hskip, Bool.and_self, decide_true, if_true,
          ne_eq, not_false_eq_true]
        refine ⟨fun ⟨hx, hl⟩ => ?_, fun _ => trivial⟩
        cases hx
        exact absurd hl.2.2 hskip.2
      · have hcond : (decide (some w ≠ desired) && decide ((rt.workers w).currentP ≠ some p)) = false := by
          rw [not_and_or] at hskip
          rcases hskip with h | h <;> simp [not_not.mp h]
        simp only [hown, Bool.not_true, Bool.false_eq_true, if_false, hcond]
        constructor
        · rintro ⟨hx, hl⟩
          cases hx
          rw [setWorker_currentP, if_pos rfl, if_pos hl.2.1]
        · intro hn
          rw [setWorker_currentP]
          split
          · rename_i hx
            subst hx
            -- not leaving, yet not skipped: it is the new owner
            by_cases hd : some x = desired
            · simp [hd]
            refine absurd ⟨rfl, hown, hd, ?_⟩ hn
            by_contra hp
            exact hskip ⟨hd, hp⟩
          · rfl
    · have hfalse : (!cfg.canOwn w p) = true := by simpa using hown
      simp only [hfalse, if_true]
      refine ⟨fun ⟨hx, hl⟩ => ?_, fun _ => trivial⟩
      cases hx
      exact absurd hl.1 hown

/-- What revoking all mirrors does to `current_p`: exactly the mirrored workers that leave are cleared. -/
theorem foldl_clearMirror_currentP (cfg : Config P W) (p : P) (desired : Option W) (x : W) : ∀ (ms : List (Option W)) (rt : Runtime P W),
    (some x ∈ ms ∧ Leaves cfg p desired rt x →
      ((ms.foldl (clearMirror cfg p desired) rt).workers x).currentP = none) ∧
    (¬(some x ∈ ms ∧ Leaves cfg p desired rt x) →
      ((ms.foldl (clearMirror cfg p desired) rt).workers x).currentP = (rt.workers x).currentP)
  | [], rt => ⟨fun h => (by simp at h), fun _ => rfl⟩
  | m :: ms, rt => by
    obtain ⟨hclear, hkeep⟩ := clearMirror_currentP cfg p desired m rt x
    obtain ⟨ihclear, ihkeep⟩ := foldl_clearMirror_currentP cfg p desired x ms (clearMirror cfg p desired rt m)
    simp only [List.foldl_cons]
    by_cases hm : m = some x ∧ Leaves cfg p desired rt x
    · -- cleared here; it does not leave twice
      have hnone := hclear hm
      have hnot : ¬Leaves cfg p desired (clearMirror cfg p desired rt m) x := fun hl => by
        rw [hl.2.2] at hnone
        cases hnone
      have hrest := ihkeep fun h => hnot h.2
      refine ⟨fun _ => by rw [hrest, hnone], fun hn => absurd ⟨?_, hm.2⟩ hn⟩
      rw [hm.1]
      exact List.mem_cons_self
    · have hsame := hkeep hm
      have hiff : Leaves cfg p desired (clearMirror cfg p desired rt m) x ↔ Leaves cfg p desired rt x := by
        unfold Leaves
        rw [hsame]
      refine ⟨fun ⟨hmem, hl⟩ => ihclear ⟨?_, hiff.mpr hl⟩, fun hn => ?_⟩
      · rcases List.mem_cons.mp hmem with heq | hmem
        · exact absurd ⟨heq.symm, hl⟩ hm
        · exact hmem
      · rw [ihkeep fun ⟨hmem, hl⟩ => hn ⟨List.mem_cons_of_mem _ hmem, hiff.mp hl⟩, hsame]

/-! ## The invariant, and what holds between a write and its projection -/

/-- **Lease, owner record and worker name the same owner.** -/
structure Agrees (cfg : Config P W) (rt : Runtime P W) : Prop where
  owner : ∀ p, (rt.lease p).owner = (rt.record p).ownerM
  incarnation : ∀ p, (rt.lease p).ownerIncarnation = (rt.record p).workerIncarnation
  wellFormed : ∀ p, (rt.record p).wellFormed = true
  current : ∀ p w, (rt.workers w).currentP = some p ↔ (rt.record p).ownerM = some w
  canOwn : ∀ p w, (rt.record p).ownerM = some w → cfg.canOwn w p = true
  bounded : ∀ p, (rt.record p).pGeneration ≤ sizeMax
  tombstone : ∀ p, (rt.record p).pGeneration = sizeMax → (rt.record p).ownerM = none

/-- What is left of `Agrees` when the lease of `p` has been written and its new owner may be reserved already. -/
structure Pending (cfg : Config P W) (rt : Runtime P W) (p : P) : Prop where
  owner : ∀ q, q ≠ p → (rt.lease q).owner = (rt.record q).ownerM
  incarnation : ∀ q, q ≠ p → (rt.lease q).ownerIncarnation = (rt.record q).workerIncarnation
  wellFormed : ∀ q, (rt.record q).wellFormed = true
  current : ∀ q w, q ≠ p → ((rt.workers w).currentP = some q ↔ (rt.record q).ownerM = some w)
  here : ∀ w, (rt.workers w).currentP = some p → (rt.record p).ownerM = some w ∨ (rt.lease p).owner = some w
  canOwn : ∀ q w, (rt.record q).ownerM = some w → cfg.canOwn w q = true
  bounded : ∀ q, (rt.record q).pGeneration ≤ sizeMax
  tombstone : ∀ q, (rt.record q).pGeneration = sizeMax → (rt.record q).ownerM = none

theorem Agrees.setLease (h : Agrees cfg rt) (p : P) (l : LegacyLease W) : Pending cfg (rt.setLease p l) p where
  owner q hq := by rw [setLease_lease_of_ne rt l hq, setLease_record]; exact h.owner q
  incarnation q hq := by rw [setLease_lease_of_ne rt l hq, setLease_record]; exact h.incarnation q
  wellFormed q := by rw [setLease_record]; exact h.wellFormed q
  current q w _ := by rw [setLease_record]; exact h.current q w
  here w hw := by rw [setLease_record]; exact .inl ((h.current p w).mp hw)
  canOwn q w hw := by rw [setLease_record] at hw; exact h.canOwn q w hw
  bounded q := by rw [setLease_record]; exact h.bounded q
  tombstone q hq := by rw [setLease_record] at hq ⊢; exact h.tombstone q hq

/-- Reserving an idle worker for an unowned processor and writing it into the lease. -/
theorem Agrees.reserve (h : Agrees cfg rt) {w : W}
    (hidle : (rt.workers w).currentP = none) (hfree : (rt.record p).ownerM = none)
    (hl : l.owner = some w) : Pending cfg ((rt.setCurrentP w (some p)).setLease p l) p where
  owner q hq := by rw [setLease_lease_of_ne _ l hq, setLease_record]; exact h.owner q
  incarnation q hq := by rw [setLease_lease_of_ne _ l hq, setLease_record]; exact h.incarnation q
  wellFormed q := by rw [setLease_record]; exact h.wellFormed q
  current q x hq := by
    rw [setLease_record, setLease_workers, setCurrentP_currentP]
    have hcur := h.current q x
    split
    · rename_i hx
      subst hx
      rw [hidle] at hcur
      simp only [Option.some.injEq]
      exact ⟨fun heq => absurd heq.symm hq, fun ho => absurd (hcur.mpr ho) (by simp)⟩
    · exact hcur
  here x hx := by
    rw [setLease_lease_self]
    rw [setLease_workers, setCurrentP_currentP] at hx
    split at hx
    · rename_i heq
      rw [heq]
      exact .inr hl
    · have := (h.current p x).mp hx
      rw [hfree] at this
      cases this
  canOwn q x hx := by rw [setLease_record] at hx; exact h.canOwn q x hx
  bounded q := by rw [setLease_record]; exact h.bounded q
  tombstone q hq := by rw [setLease_record] at hq ⊢; exact h.tombstone q hq

/-! ## The projection -/

theorem setRecord_record (rt : Runtime P W) (p q : P) (r : OwnerRecord W) :
    (rt.setRecord p r).record q = if q = p then r else rt.record q := by
  by_cases h : q = p
  · subst h; simp [Runtime.record, Runtime.setRecord]
  · simp [Runtime.record, Runtime.setRecord, h]

@[simp] theorem setRecord_lease (rt : Runtime P W) (p q : P) (r : OwnerRecord W) :
    (rt.setRecord p r).lease q = rt.lease q := by
  by_cases h : q = p
  · subst h; simp [Runtime.lease, Runtime.setRecord]
  · simp [Runtime.lease, Runtime.setRecord, h]

/-- Everything a projection that is not refused can do. -/
theorem compose_cases (h : composePairLocked cfg rt p = some rt') :
    ownerAdmissible cfg rt p (rt.lease p) = true ∧ ∃ desired, desiredState (rt.lease p) = some desired ∧
      (projectionChanged cfg rt p desired = false ∧ rt' = rt ∨
        ∃ retiring, rt' = commitProjection cfg rt p desired retiring ∧
          ((rt.lease p).owner ≠ none → sizeMax - 1 ≤ (rt.record p).pGeneration → retiring = true) ∧
          (retiring = true → retiringOwner cfg rt p desired = true)) := by
  unfold composePairLocked at h
  dsimp only at h
  split at h
  · cases h
  rename_i hadm
  simp only [Bool.or_eq_true, Bool.not_eq_true', not_or, Bool.not_eq_false] at hadm
  refine ⟨hadm.2, ?_⟩
  split at h
  · cases h
  rename_i desired hdes
  refine ⟨desired, hdes, ?_⟩
  split at h
  · cases h
  split at h
  · rename_i hch
    cases h
    exact .inl ⟨by simpa using hch, rfl⟩
  split at h
  · cases h
  rename_i hlast
  cases h
  refine .inr ⟨_, rfl, fun hown hgen => ?_, fun hret => ?_⟩
  · have hguard : (decide ((rt.shards p).lease.owner ≠ none) &&
        decide (sizeMax - 1 ≤ (rt.shards p).ownerRecord.pGeneration)) = true := by simp [hown, hgen]
    simp only [hguard, Bool.true_and] at hlast ⊢
    simpa using hlast
  · simp only [Bool.and_eq_true] at hret
    exact hret.2

@[simp] theorem commitProjection_record (rt : Runtime P W) (p q : P) (desired : OwnerState) (retiring : Bool) :
    (commitProjection cfg rt p desired retiring).record q =
      if q = p then projectedRecord (rt.record p) (rt.lease p) desired retiring else rt.record q := by
  have hshards := foldl_clearMirror_shards cfg p (rt.lease p).owner
  unfold commitProjection
  dsimp only
  split <;>
  · show ((Runtime.setRecord _ p _).record q) = _
    rw [setRecord_record]
    simp only [Runtime.record, hshards]

@[simp] theorem commitProjection_lease (rt : Runtime P W) (p q : P) (desired : OwnerState) (retiring : Bool) :
    (commitProjection cfg rt p desired retiring).lease q = rt.lease q := by
  have hshards := foldl_clearMirror_shards cfg p (rt.lease p).owner
  unfold commitProjection
  dsimp only
  split <;>
  · show ((Runtime.setRecord _ p _).lease q) = _
    rw [setRecord_lease]
    simp only [Runtime.lease, hshards]

/-- After a commit `current_p` is `p` for the new owner and for no other worker. -/
theorem commitProjection_currentP (h : Pending cfg rt p) (desired : OwnerState) (retiring : Bool) (x : W) :
    ((commitProjection cfg rt p desired retiring).workers x).currentP =
      if (rt.lease p).owner = some x then some p
      else if (rt.workers x).currentP = some p then none else (rt.workers x).currentP := by
  let mirrors := [(rt.record p).ownerM, (rt.lease p).owner, some (cfg.primaryWorker p),
    some (cfg.opaqueHelperWorker p)]
  obtain ⟨hclear, hkeep⟩ := foldl_clearMirror_currentP cfg p (rt.lease p).owner x mirrors rt
  -- a worker that sits on `p` and is not its new owner is the previous owner, hence mirrored
  have hfold : (rt.lease p).owner ≠ some x →
      ((mirrors.foldl (clearMirror cfg p (rt.lease p).owner) rt).workers x).currentP =
        if (rt.workers x).currentP = some p then none else (rt.workers x).currentP := by
    intro hne
    by_cases hcur : (rt.workers x).currentP = some p
    · have hprev : (rt.record p).ownerM = some x := (h.here x hcur).resolve_right hne
      rw [if_pos hcur]
      exact hclear ⟨by simp [mirrors, hprev], h.canOwn p x hprev, fun heq => hne heq.symm, hcur⟩
    · rw [if_neg hcur]
      exact hkeep fun hl => hcur hl.2.2.2
  unfold commitProjection
  dsimp only
  cases hown : (rt.lease p).owner with
  | none =>
    simp only [mirrors, hown] at hfold
    exact hfold (by simp)
  | some w =>
    simp only [mirrors, hown] at hfold
    simp only [setWorker_currentP, Option.some.injEq]
    by_cases hx : x = w
    · simp [hx]
    have hne : some w ≠ some x := fun heq => hx (Option.some.inj heq).symm
    rw [if_neg hx, if_neg fun heq => hx heq.symm]
    exact hfold hne

/-- An admissible owner has a nonzero incarnation, no owner the incarnation 0. -/
theorem ownerAdmissible_incarnation
    (h : ownerAdmissible cfg rt p l = true) : l.owner = none ↔ l.ownerIncarnation = 0 := by
  unfold ownerAdmissible at h
  split at h
  · rename_i w hw
    simp only [Bool.and_eq_true, decide_eq_true_eq] at h
    simp [hw, h.1.1.2]
  · rename_i hnone
    simp only [decide_eq_true_eq] at h
    simp [hnone, h]

theorem projectedRecord_wellFormed
    (hadm : ownerAdmissible cfg rt p l = true) (hdes : desiredState l = some desired) (current : OwnerRecord W)
    (retiring : Bool) : (projectedRecord current l desired retiring).wellFormed = true := by
  have hinc := ownerAdmissible_incarnation hadm
  unfold desiredState at hdes
  unfold OwnerRecord.wellFormed projectedRecord
  by_cases hown : l.owner = none
  · have h0 := hinc.mp hown
    split at hdes <;> simp [hown] at hdes <;> subst hdes <;> simp [hown, h0]
  · have h0 : l.ownerIncarnation ≠ 0 := fun h => hown (hinc.mpr h)
    split at hdes <;> simp [hown] at hdes <;> subst hdes <;> simp [hown, h0]

/-- A record that already is the projection of its lease. -/
theorem projectionChanged_false (h : projectionChanged cfg rt p desired = false) :
    (rt.record p).wellFormed = true ∧ (rt.record p).ownerM = (rt.lease p).owner ∧
      (rt.record p).workerIncarnation = (rt.lease p).ownerIncarnation ∧
      ∀ w, (rt.lease p).owner = some w → (rt.workers w).currentP = some p := by
  unfold projectionChanged at h
  simp only [Bool.or_eq_false_iff, Bool.not_eq_false', decide_eq_false_iff_not, ne_eq, not_not] at h
  obtain ⟨⟨⟨⟨⟨⟨hwf, hown⟩, hinc⟩, -⟩, -⟩, -⟩, hmis⟩ := h
  refine ⟨hwf, hown, hinc, fun w hw => ?_⟩
  unfold currentPMismatch at hmis
  simp only [Bool.or_eq_false_iff] at hmis
  obtain ⟨⟨⟨hdes, -⟩, -⟩, -⟩ := hmis
  have hw' : (rt.shards p).lease.owner = some w := hw
  simpa [hw'] using hdes

/-- The owner of a lease that composes may own the processor. -/
theorem ownerAdmissible_canOwn (h : ownerAdmissible cfg rt p l = true) {w : W} (hw : l.owner = some w) :
    cfg.canOwn w p = true ∧ ((rt.workers w).currentP = none ∨ (rt.workers w).currentP = some p) := by
  simp only [ownerAdmissible, hw, Bool.and_eq_true, Bool.or_eq_true, decide_eq_true_eq] at h
  exact ⟨h.1.1.1, h.2⟩

/-- A retiring owner is the owner there was, at the last generation but one. -/
theorem retiringOwner_spec (h : retiringOwner cfg rt p desired = true) :
    (rt.record p).pGeneration = sizeMax - 1 ∧ (rt.record p).ownerM = (rt.lease p).owner := by
  cases hown : (rt.lease p).owner with
  | none =>
    have hown' : (rt.shards p).lease.owner = none := hown
    simp [retiringOwner, hown'] at h
  | some w =>
    have hown' : (rt.shards p).lease.owner = some w := hown
    simp only [retiringOwner, hown', Bool.and_eq_true, decide_eq_true_eq] at h
    obtain ⟨⟨⟨⟨⟨⟨⟨⟨⟨-, hgen⟩, -⟩, -⟩, -⟩, hm⟩, -⟩, -⟩, -⟩, -⟩ := h
    exact ⟨hgen, hm⟩

/-- At the last generation an owner stays only while it retires, and past it there is none. -/
theorem commit_tombstone {retiring : Bool} (hbound : (rt.record p).pGeneration ≤ sizeMax)
    (hlast : (rt.lease p).owner ≠ none → sizeMax - 1 ≤ (rt.record p).pGeneration → retiring = true)
    (hret : retiring = true → retiringOwner cfg rt p desired = true) :
    (projectedRecord (rt.record p) (rt.lease p) desired retiring).pGeneration ≤ sizeMax ∧
      ((projectedRecord (rt.record p) (rt.lease p) desired retiring).pGeneration = sizeMax →
        (rt.lease p).owner = none) := by
  have hM : sizeMax = 18446744073709551615 := rfl
  have hretgen : retiring = true → (rt.record p).pGeneration = sizeMax - 1 := fun h => (retiringOwner_spec (hret h)).1
  unfold projectedRecord
  cases retiring with
  | true =>
    have := hretgen rfl
    simp only [Bool.not_true, Bool.and_false, Bool.false_eq_true, if_false]
    exact ⟨hbound, fun h => by omega⟩
  | false =>
    have hown : sizeMax - 1 ≤ (rt.record p).pGeneration → (rt.lease p).owner = none := by
      intro h
      by_contra hne
      cases hlast hne h
    simp only [Bool.not_false, Bool.and_true, decide_eq_true_eq]
    split
    · exact ⟨by omega, fun h => hown (by omega)⟩
    · exact ⟨hbound, fun h => hown (by omega)⟩

/-- **A projection that is not refused restores agreement.** -/
theorem compose_agrees (h : Pending cfg rt p) (hc : composePairLocked cfg rt p = some rt') : Agrees cfg rt' := by
  obtain ⟨hadm, desired, hdes, ⟨hsame, rfl⟩ | ⟨retiring, rfl, hlast, hret⟩⟩ := compose_cases hc
  · obtain ⟨hwf, hown, hinc, hcur⟩ := projectionChanged_false hsame
    refine ⟨fun q => ?_, fun q => ?_, h.wellFormed, fun q w => ?_, h.canOwn, h.bounded, h.tombstone⟩
    · by_cases hq : q = p
      · rw [hq, hown]
      · exact h.owner q hq
    · by_cases hq : q = p
      · rw [hq, hinc]
      · exact h.incarnation q hq
    · by_cases hq : q = p
      · rw [hq, hown]
        refine ⟨fun hw => ?_, hcur w⟩
        rcases h.here w hw with hprev | hdes
        · rw [← hown]; exact hprev
        · exact hdes
      · exact h.current q w hq
  · have hwf := projectedRecord_wellFormed hadm hdes (rt.record p) retiring
    have htomb := commit_tombstone (h.bounded p) hlast hret
    refine ⟨fun q => ?_, fun q => ?_, fun q => ?_, fun q w => ?_, fun q w hw => ?_, fun q => ?_, fun q hq => ?_⟩
    · rw [commitProjection_lease, commitProjection_record]
      split
      · rename_i hq; rw [hq]; rfl
      · rename_i hq; exact h.owner q hq
    · rw [commitProjection_lease, commitProjection_record]
      split
      · rename_i hq; rw [hq]; rfl
      · rename_i hq; exact h.incarnation q hq
    · rw [commitProjection_record]
      split
      · exact hwf
      · exact h.wellFormed q
    · rw [commitProjection_currentP h, commitProjection_record]
      by_cases hown : (rt.lease p).owner = some w
      · -- the new owner sits on `p` and was idle or on `p` before
        rw [if_pos hown]
        by_cases hq : q = p
        · subst hq; simp [projectedRecord, hown]
        rw [if_neg hq]
        have hcur := h.current q w hq
        refine ⟨fun heq => absurd (Option.some.inj heq).symm hq, fun hrec => ?_⟩
        have hcq := hcur.mpr hrec
        rcases (ownerAdmissible_canOwn hadm hown).2 with hnone | hp
        · rw [hnone] at hcq; cases hcq
        · rw [hp] at hcq; exact hcq
      · rw [if_neg hown]
        by_cases hq : q = p
        · subst hq
          rw [if_pos rfl]
          refine ⟨fun heq => ?_, fun heq => absurd heq hown⟩
          split at heq
          · cases heq
          · rename_i hne; exact absurd heq hne
        · rw [if_neg hq, ← h.current q w hq]
          by_cases hp : (rt.workers w).currentP = some p
          · rw [if_pos hp, hp]
            exact ⟨nofun, fun heq => absurd (Option.some.inj heq).symm hq⟩
          · rw [if_neg hp]
    · rw [commitProjection_record] at hw
      split at hw
      · rename_i hq
        rw [hq]
        exact (ownerAdmissible_canOwn hadm hw).1
      · exact h.canOwn q w hw
    · rw [commitProjection_record]
      split
      · exact htomb.1
      · exact h.bounded q
    · rw [commitProjection_record] at hq ⊢
      split at hq
      · rename_i heq
        rw [if_pos heq]
        exact htomb.2 hq
      · rename_i hne
        rw [if_neg hne]
        exact h.tombstone q hq

/-! ## Generations -/

/-- No ownership generation decreases, and an owner changes only with a higher generation. -/
def Advances (rt rt' : Runtime P W) : Prop :=
  ∀ p, (rt.record p).pGeneration ≤ (rt'.record p).pGeneration ∧
    ((rt'.record p).ownerM ≠ (rt.record p).ownerM → (rt.record p).pGeneration < (rt'.record p).pGeneration)

theorem Advances.refl (rt : Runtime P W) : Advances rt rt := fun _ => ⟨Nat.le_refl _, fun h => absurd rfl h⟩

theorem Advances.trans {a b c : Runtime P W} (h : Advances a b) (h' : Advances b c) : Advances a c := by
  intro p
  obtain ⟨hle, hlt⟩ := h p
  obtain ⟨hle', hlt'⟩ := h' p
  refine ⟨Nat.le_trans hle hle', fun hne => ?_⟩
  by_cases hab : (b.record p).ownerM = (a.record p).ownerM
  · exact Nat.lt_of_le_of_lt hle (hlt' (by rw [hab]; exact hne))
  · exact Nat.lt_of_lt_of_le (hlt hab) hle'

theorem Advances.of_records (h : ∀ p, rt'.record p = rt.record p) : Advances rt rt' := by
  intro p
  rw [h p]
  exact ⟨Nat.le_refl _, fun hne => absurd rfl hne⟩

/-- **A projection advances the generation with the owner.** -/
theorem compose_advances (h : Pending cfg rt p) (hc : composePairLocked cfg rt p = some rt') : Advances rt rt' := by
  obtain ⟨-, desired, -, ⟨-, rfl⟩ | ⟨retiring, rfl, hlast, hret⟩⟩ := compose_cases hc
  · exact Advances.refl rt'
  intro q
  rw [commitProjection_record]
  split
  · rename_i hq
    subst hq
    unfold projectedRecord
    cases retiring with
    | true =>
      have hown := (retiringOwner_spec (hret rfl)).2
      simp only [Bool.not_true, Bool.and_false, Bool.false_eq_true, if_false]
      exact ⟨Nat.le_refl _, fun hne => absurd hown.symm hne⟩
    | false =>
      split
      · exact ⟨Nat.le_succ _, fun _ => Nat.lt_succ_self _⟩
      -- at the tombstone there was no owner and none is admitted
      rename_i hmax
      have hmax' : (rt.record q).pGeneration = sizeMax := by simpa using hmax
      have hnone := h.tombstone q hmax'
      refine ⟨Nat.le_refl _, fun hne => ?_⟩
      have hsome : (rt.lease q).owner ≠ none := fun heq => hne (heq.trans hnone.symm)
      cases hlast hsome (by omega)
  · exact ⟨Nat.le_refl _, fun hne => absurd rfl hne⟩

/-- A lease without an owner in a registered state is never refused. -/
theorem compose_ownerless (hmode : cfg.mode = .registered)
    (hown : (rt.lease p).owner = none) (hinc : (rt.lease p).ownerIncarnation = 0)
    (hstate : (rt.lease p).state = .registeredFree ∨ (rt.lease p).state = .stopping) :
    ∃ rt', composePairLocked cfg rt p = some rt' := by
  have hown' : (rt.shards p).lease.owner = none := hown
  have hinc' : (rt.shards p).lease.ownerIncarnation = 0 := hinc
  have hm : LeaseState.matchesMode cfg.mode (rt.shards p).lease.state = true := by
    rcases hstate with h | h <;>
    · have h' : (rt.shards p).lease.state = _ := h
      rw [hmode, h']
      rfl
  have hdes : ∃ desired, desiredState (rt.shards p).lease = some desired := by
    unfold desiredState
    rcases hstate with h | h <;>
    · have h' : (rt.shards p).lease.state = _ := h
      rw [h']
      simp [hown']
  obtain ⟨desired, hdes⟩ := hdes
  unfold composePairLocked
  simp only [hm, ownerAdmissible, hown', hinc', hdes, Bool.not_true, Bool.false_or, decide_true, Bool.false_eq_true,
    if_false, ne_eq, not_true_eq_false, decide_false, Bool.and_false, Bool.false_and]
  split <;> exact ⟨_, rfl⟩

end Llam.Lease
