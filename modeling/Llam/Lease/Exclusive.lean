import Llam.Lease.Projection

/-!
# Exclusive processor ownership

Every step is a write of one lease followed by a projection of it. One that commits keeps agreement and the order of the
ownership generations (`Keeps`), and one that is refused has undone its write (`claimLocked_spec`,
`claimDrainLocked_spec`, `returnLocked_spec`). Over runs this gives exclusive ownership, and tickets that never validate
again (`exclusive_processor_ownership`).
-/

namespace Llam.Lease

open Llam.Lib

variable {P W : Type} [DecidableEq P] [DecidableEq W] {cfg : Config P W}

/-! ## Steps -/

/-- What every step keeps: agreement, and the order of generations. -/
def Keeps (cfg : Config P W) (rt rt' : Runtime P W) : Prop := Agrees cfg rt' ∧ Advances rt rt'

variable {rt rt' : Runtime P W} {p : P} {acts : List (Action P W)}

theorem Keeps.refl (h : Agrees cfg rt) : Keeps cfg rt rt := ⟨h, Advances.refl rt⟩

theorem Keeps.trans {a b c : Runtime P W} (h : Keeps cfg a b) (h' : Keeps cfg b c) : Keeps cfg a c :=
  ⟨h'.1, h.2.trans h'.2⟩

section

variable (h : Agrees cfg rt)

include h

theorem compose_setLease {l : LegacyLease W}
    (hc : composePairLocked cfg (rt.setLease p l) p = some rt') : Keeps cfg rt rt' := by
  have hpend := h.setLease p l
  refine ⟨compose_agrees hpend hc, Advances.trans (Advances.of_records fun q => ?_) (compose_advances hpend hc)⟩
  exact setLease_record rt p q l

/-- **Granting an unowned processor**: refused without a trace, or committed in agreement. -/
theorem grant_spec (hfree : (rt.record p).ownerM = none) (w : W) (incarnation : Nat) (state : LeaseState) :
    Keeps cfg rt (grant cfg rt p w incarnation state).1 ∧
      ((grant cfg rt p w incarnation state).2 = false → (grant cfg rt p w incarnation state).1 = rt) := by
  unfold grant
  dsimp only
  split
  · exact ⟨Keeps.refl h, fun _ => rfl⟩
  rename_i hidle
  have hidle' : (rt.workers w).currentP = none := by simpa using hidle
  split
  · rename_i rt' hc
    refine ⟨?_, fun hf => (by cases hf)⟩
    have hpend := h.reserve hidle' hfree (l := { (rt.shards p).lease with
      owner := some w
      ownerIncarnation := incarnation
      epoch := (rt.shards p).lease.epoch + 1
      state := state }) rfl
    refine ⟨compose_agrees hpend hc, Advances.trans (Advances.of_records fun q => ?_) (compose_advances hpend hc)⟩
    rw [setLease_record]
    rfl
  · have hrest : ∀ l : LegacyLease W, (((rt.setCurrentP w (some p)).setLease p l).setLease p (rt.shards p).lease).setCurrentP
        w none = rt := by
      intro l
      have hl := setLease_restore (rt.setCurrentP w (some p)) p l
      have hlease : (rt.setCurrentP w (some p)).lease p = (rt.shards p).lease := rfl
      rw [hlease] at hl
      rw [hl]
      exact setCurrentP_restore rt w (some p) hidle'
    rw [hrest]
    exact ⟨Keeps.refl h, fun _ => rfl⟩

theorem claimLocked_spec (p : P) (w : W) (incarnation : Nat) (caller : Caller) :
    Keeps cfg rt (claimLocked cfg rt p w incarnation caller).1 ∧
      ((claimLocked cfg rt p w incarnation caller).2 = false →
        (claimLocked cfg rt p w incarnation caller).1 = rt) := by
  unfold claimLocked
  dsimp only
  split
  · exact ⟨Keeps.refl h, fun _ => rfl⟩
  split
  · exact ⟨Keeps.refl h, fun _ => rfl⟩
  rename_i hguard
  simp only [Bool.or_eq_true, not_or, decide_eq_true_eq, ne_eq, not_not] at hguard
  exact grant_spec h hguard.1.2 w incarnation .registeredOwned

theorem claimDrainLocked_spec (p : P) (w : W) (incarnation : Nat) (caller : Caller) :
    Keeps cfg rt (claimDrainLocked cfg rt p w incarnation caller).1 ∧
      ((claimDrainLocked cfg rt p w incarnation caller).2 = false →
        (claimDrainLocked cfg rt p w incarnation caller).1 = rt) := by
  unfold claimDrainLocked
  dsimp only
  generalize (if (rt.shards p).lease.state = .stopping then OwnerState.stopping else .free) = expected
  split
  · exact ⟨Keeps.refl h, fun _ => rfl⟩
  split
  · exact ⟨Keeps.refl h, fun _ => rfl⟩
  rename_i hguard
  simp only [Bool.or_eq_true, not_or, decide_eq_true_eq, ne_eq, not_not] at hguard
  exact grant_spec h hguard.1.1.1.1.1.2 w incarnation .stopping

/-- **Clearing the owner is never refused**, and leaves the processor without one. -/
theorem clearOwner_spec (hmode : cfg.mode = .registered) (p : P) :
    Keeps cfg rt (clearOwner cfg rt p).1 ∧ (clearOwner cfg rt p).2 = true ∧
      ((clearOwner cfg rt p).1.record p).ownerM = none := by
  unfold clearOwner
  dsimp only
  generalize hl : ({ (rt.shards p).lease with
    owner := none
    ownerIncarnation := 0
    epoch := if (rt.shards p).lease.epoch ≠ sizeMax then (rt.shards p).lease.epoch + 1 else (rt.shards p).lease.epoch
    state := if (rt.shards p).lease.state ≠ .stopping then .registeredFree else .stopping } : LegacyLease W) = l
  have hown : l.owner = none := by rw [← hl]
  have hstate : l.state = .registeredFree ∨ l.state = .stopping := by
    rw [← hl]
    dsimp only
    split
    · exact .inl rfl
    · exact .inr rfl
  have hlease := setLease_lease_self rt p l
  obtain ⟨rt', hc⟩ := compose_ownerless hmode (by rw [hlease]; exact hown) (by rw [hlease, ← hl])
    (by rw [hlease]; exact hstate)
  rw [hc]
  have hkeep := compose_setLease h hc
  refine ⟨hkeep, rfl, ?_⟩
  rw [← hkeep.1.owner p]
  obtain ⟨-, desired, -, ⟨-, rfl⟩ | ⟨retiring, rfl, -, -⟩⟩ := compose_cases hc
  · rw [setLease_lease_self]; exact hown
  · rw [commitProjection_lease, setLease_lease_self]; exact hown

end

@[simp] theorem clearMirror_shutdown (p : P) (desired m : Option W) (rt : Runtime P W) :
    (clearMirror cfg p desired rt m).shutdownRequested = rt.shutdownRequested := by
  unfold clearMirror
  split
  · rfl
  split
  · rfl
  · split <;> rfl

theorem commitProjection_shutdown (rt : Runtime P W) (p : P) (desired : OwnerState) (retiring : Bool) :
    (commitProjection cfg rt p desired retiring).shutdownRequested = rt.shutdownRequested := by
  have hfold : ∀ (ms : List (Option W)) (o : Option W) (rt : Runtime P W),
      (ms.foldl (clearMirror cfg p o) rt).shutdownRequested = rt.shutdownRequested := by
    intro ms o
    induction ms with
    | nil => intro rt; rfl
    | cons m ms ih => intro rt; rw [List.foldl_cons, ih, clearMirror_shutdown]
  unfold commitProjection
  dsimp only
  split <;> exact hfold _ _ rt

section

variable (h : Agrees cfg rt)

include h

/-- When the owner has closed the stop gap itself, the drain checks that follow are met. -/
theorem closeStopGap_spec {w : W} {incarnation : Nat} (hc : closeStopGap cfg rt p w incarnation = some rt') :
    Keeps cfg rt rt' ∧ (rt' = rt ∨ (rt'.lease p).state = .stopping ∧ rt'.shutdownRequested = true ∧
      (rt'.record p).names (rt'.lease p) w incarnation .stopping = true) := by
  unfold closeStopGap at hc
  dsimp only at hc
  split at hc
  · rename_i hgap
    simp only [Bool.and_eq_true, decide_eq_true_eq] at hgap
    split at hc
    · cases hc
    rename_i hnames
    refine ⟨compose_setLease h hc, .inr ?_⟩
    have hn : (rt.record p).names (rt.lease p) w incarnation .owned = true := by simpa using hnames
    simp only [OwnerRecord.names, Bool.and_eq_true, decide_eq_true_eq] at hn
    obtain ⟨⟨⟨⟨⟨-, hst⟩, hm⟩, hinc⟩, -⟩, hep⟩ := hn
    obtain ⟨hadm, desired, hdes, ⟨hsame, -⟩ | ⟨retiring, rfl, -, -⟩⟩ := compose_cases hc
    · -- the record says OWNED, so the projection to STOPPING changes it
      rw [setLease_lease_self] at hdes
      cases hdes
      unfold projectionChanged at hsame
      simp only [Bool.or_eq_false_iff, decide_eq_false_iff_not, ne_eq, not_not] at hsame
      have hst' := hsame.1.2
      have hrec : ((rt.setLease p { (rt.shards p).lease with state := .stopping }).shards p).ownerRecord = rt.record p :=
        setLease_record rt p p _
      rw [hrec, hst] at hst'
      cases hst'
    · have hwf := projectedRecord_wellFormed hadm hdes
        ((rt.setLease p { (rt.shards p).lease with state := .stopping }).record p) retiring
      rw [setLease_lease_self] at hdes hwf
      cases hdes
      have hown : (rt.shards p).lease.owner = some w := (h.owner p).trans hm
      have hinc' : (rt.shards p).lease.ownerIncarnation = incarnation := (h.incarnation p).trans hinc
      refine ⟨?_, ?_, ?_⟩
      · rw [commitProjection_lease, setLease_lease_self]
      · rw [commitProjection_shutdown]
        exact hgap.2
      · rw [commitProjection_lease, commitProjection_record, if_pos rfl, setLease_lease_self]
        simp only [OwnerRecord.names, hwf, Bool.true_and, Bool.and_eq_true, decide_eq_true_eq]
        exact ⟨⟨⟨⟨rfl, hown⟩, hinc'⟩, rfl⟩, rfl⟩
  · cases hc
    exact ⟨Keeps.refl h, .inl rfl⟩

/-- **Returning a processor**: refused without a trace, or committed in agreement and without an owner. -/
theorem returnLocked_spec (p : P) (w : W) (ticket : Option (Ticket P W)) (caller : Caller) :
    Keeps cfg rt (returnLocked cfg rt p w ticket caller).1 ∧
      ((returnLocked cfg rt p w ticket caller).2 = false → (returnLocked cfg rt p w ticket caller).1 = rt) ∧
      ((returnLocked cfg rt p w ticket caller).2 = true →
        ((returnLocked cfg rt p w ticket caller).1.record p).ownerM = none) := by
  have hsame : Keeps cfg rt rt ∧ (false = false → rt = rt) ∧ (false = true → (rt.record p).ownerM = none) :=
    ⟨Keeps.refl h, fun _ => rfl, nofun⟩
  unfold returnLocked
  dsimp only
  split
  · exact hsame
  rename_i hnative
  have hmode : cfg.mode = .registered := by
    simp only [nativeOwner, Bool.or_eq_true, Bool.not_eq_true', not_or, Bool.not_eq_false, Bool.and_eq_true,
      decide_eq_true_eq] at hnative
    exact hnative.2.1.1.1
  split
  · exact hsame
  split
  · split
    · exact hsame
    · obtain ⟨hkeep, hok, hnone⟩ := clearOwner_spec h hmode p
      exact ⟨hkeep, fun hf => absurd (hok.symm.trans hf) (by simp), fun _ => hnone⟩
  split
  · exact hsame
  rename_i rt' hgap
  obtain ⟨hkeep, hcase⟩ := closeStopGap_spec h hgap
  split
  · rename_i hbad
    rcases hcase with rfl | ⟨hstop, hshut, hnames⟩
    · exact hsame
    exact absurd hbad (by
      have hstop' : (rt'.shards p).lease.state = .stopping := hstop
      have hnames' : (rt'.shards p).ownerRecord.names (rt'.shards p).lease w (rt.workers w).bindingIncarnation
        .stopping = true := hnames
      simp [hstop', hshut, hnames'])
  · obtain ⟨hkeep', hok, hnone⟩ := clearOwner_spec hkeep.1 hmode p
    exact ⟨hkeep.trans hkeep', fun hf => absurd (hok.symm.trans hf) (by simp), fun _ => hnone⟩

theorem composeOrRestore_spec (p : P) (l : LegacyLease W) :
    Keeps cfg rt (composeOrRestore cfg (rt.setLease p l) p (rt.lease p)).1 := by
  unfold composeOrRestore
  split
  · rename_i rt' hc
    exact compose_setLease h hc
  · rw [setLease_restore]
    exact Keeps.refl h

/-- Steps that touch neither a lease, a record nor a `current_p`. -/
theorem Agrees.of_same (hlease : ∀ p, rt'.lease p = rt.lease p) (hrecord : ∀ p, rt'.record p = rt.record p)
    (hcur : ∀ w, (rt'.workers w).currentP = (rt.workers w).currentP) : Keeps cfg rt rt' := by
  refine ⟨⟨fun p => ?_, fun p => ?_, fun p => ?_, fun p w => ?_, fun p w hw => ?_, fun p => ?_, fun p hp => ?_⟩,
    Advances.of_records hrecord⟩
  · rw [hlease, hrecord]; exact h.owner p
  · rw [hlease, hrecord]; exact h.incarnation p
  · rw [hrecord]; exact h.wellFormed p
  · rw [hrecord, hcur]; exact h.current p w
  · rw [hrecord] at hw; exact h.canOwn p w hw
  · rw [hrecord]; exact h.bounded p
  · rw [hrecord] at hp ⊢; exact h.tombstone p hp

/-- Binding and unbinding a worker do not move it. -/
theorem Agrees.setWorker {w : W} {worker : Worker P}
    (hcur : worker.currentP = (rt.workers w).currentP) : Keeps cfg rt (rt.setWorker w worker) := by
  refine h.of_same (fun _ => rfl) (fun _ => rfl) fun x => ?_
  rw [setWorker_currentP]
  split
  · rename_i hx; rw [hx, hcur]
  · rfl

theorem Agrees.setShard {shard : Shard W}
    (hlease : shard.lease = rt.lease p) (hrecord : shard.ownerRecord = rt.record p) :
    Keeps cfg rt { rt with shards := Function.update rt.shards p shard } := by
  refine h.of_same (fun q => ?_) (fun q => ?_) fun _ => rfl
  · by_cases hq : q = p
    · subst hq; simpa [Runtime.lease] using hlease
    · simp [Runtime.lease, hq]
  · by_cases hq : q = p
    · subst hq; simpa [Runtime.record] using hrecord
    · simp [Runtime.record, hq]

/-- **Every step keeps agreement and the order of generations.** -/
theorem perform_keeps (a : Action P W) : Keeps cfg rt (perform cfg rt a).1 := by
  cases a with
  | claim p w incarnation caller => exact (claimLocked_spec h p w incarnation caller).1
  | claimDrain p w incarnation caller => exact (claimDrainLocked_spec h p w incarnation caller).1
  | giveBack p w ticket caller => exact (returnLocked_spec h p w ticket caller).1
  | requestShutdown => exact h.of_same (fun _ => rfl) (fun _ => rfl) fun _ => rfl
  | beginStop p | finalizeStop p => exact composeOrRestore_spec h p _
  | bind w =>
    show Keeps cfg rt (bindRegistered cfg rt w).1
    unfold bindRegistered
    dsimp only
    split
    · exact h.setWorker rfl
    · exact Keeps.refl h
  | unbind w =>
    show Keeps cfg rt (unbindRegistered cfg rt w).1
    unfold unbindRegistered
    dsimp only
    split
    · exact h.setWorker rfl
    · exact Keeps.refl h
  | setOnline p online | setMergePause p requested => exact h.setShard rfl rfl

end

/-! ## Runs -/

theorem init_agrees (cfg : Config P W) : Agrees cfg (Runtime.init cfg) where
  owner _ := rfl
  incarnation _ := rfl
  wellFormed _ := by simp [Runtime.init, OwnerRecord.wellFormed]
  current _ _ := by simp [Runtime.init]
  canOwn _ _ h := by simp [Runtime.init] at h
  bounded _ := by simp [Runtime.init]
  tombstone _ _ := rfl

theorem step_some {a : Action P W} (h : step cfg rt a = some rt') : rt' = (perform cfg rt a).1 := by
  cases h; rfl

theorem run_agrees (h : Agrees cfg rt) (hrun : run (step cfg) rt acts = some rt') : Agrees cfg rt' := by
  refine run_induction (fun s a s' hs ha => ?_) h hrun
  rw [step_some ha]
  exact (perform_keeps hs a).1

theorem run_advances (h : Agrees cfg rt) (hrun : run (step cfg) rt acts = some rt') : Advances rt rt' := by
  refine run_trans (I := Agrees cfg) Advances.refl (fun _ _ _ => Advances.trans) (fun s a s' hs ha => ?_)
    (fun s a s' hs ha => ?_) h hrun
  · rw [step_some ha]; exact (perform_keeps hs a).1
  · rw [step_some ha]; exact (perform_keeps hs a).2

theorem ticketSnapshot_record {t : Ticket P W} (h : ticketSnapshot cfg rt p = some t) :
    t.processor = p ∧ (rt.record p).ownerM = some t.ownerM ∧ (rt.record p).pGeneration = t.pGeneration := by
  unfold ticketSnapshot at h
  dsimp only at h
  split at h
  · cases h
  rename_i w hw
  split at h
  · cases h
    exact ⟨rfl, hw, rfl⟩
  · cases h

/-- **A ticket dies with the ownership it was taken under.** -/
theorem ticket_dead {rt'' : Runtime P W} {q : P} {t : Ticket P W} {acts' : List (Action P W)}
    (h : Agrees cfg rt) (ht : ticketSnapshot cfg rt p = some t) (hrun : run (step cfg) rt acts = some rt')
    (hgone : (rt'.record p).ownerM ≠ some t.ownerM) (hrun' : run (step cfg) rt' acts' = some rt'') :
    ticketValidate cfg rt'' q t = false := by
  obtain ⟨hp, hown, hgen⟩ := ticketSnapshot_record ht
  have hlt := (run_advances h hrun p).2 (by rw [hown]; exact hgone)
  have hle := (run_advances (run_agrees h hrun) hrun' p).1
  cases hv : ticketValidate cfg rt'' q t with
  | false => rfl
  | true =>
    have hsnap : ticketSnapshot cfg rt'' q = some t := by simpa [ticketValidate] using hv
    obtain ⟨hq, -, hgen'⟩ := ticketSnapshot_record hsnap
    rw [← hq, hp] at hgen'
    omega

/-- **Exclusive processor ownership.** In every state that any interleaving of the steps reaches: lease, owner record and
worker name the same owners, so that a worker's current processor is `p` exactly when the record of `p` names it, and no
worker owns two processors. From there every step lets a generation grow, strictly where the owner changes, up to the
tombstone, at which there is no owner; a claim or a return that fails changes nothing; a return that succeeds leaves no
owner; and a ticket never validates again once its owner has ceased to own the processor. -/
theorem exclusive_processor_ownership (cfg : Config P W) {rt : Runtime P W}
    (hreach : Reachable (step cfg) (Runtime.init cfg) rt) :
    (∀ p, (rt.lease p).owner = (rt.record p).ownerM) ∧
    (∀ p w, (rt.workers w).currentP = some p ↔ (rt.record p).ownerM = some w) ∧
    (∀ p q w, (rt.record p).ownerM = some w → (rt.record q).ownerM = some w → p = q) ∧
    (∀ p, (rt.record p).pGeneration ≤ sizeMax ∧ ((rt.record p).pGeneration = sizeMax → (rt.record p).ownerM = none)) ∧
    (∀ a p, (rt.record p).pGeneration ≤ ((perform cfg rt a).1.record p).pGeneration ∧
      (((perform cfg rt a).1.record p).ownerM ≠ (rt.record p).ownerM →
        (rt.record p).pGeneration < ((perform cfg rt a).1.record p).pGeneration)) ∧
    (∀ p w incarnation ticket caller,
      ((claimLocked cfg rt p w incarnation caller).2 = false →
        (claimLocked cfg rt p w incarnation caller).1 = rt) ∧
      ((claimDrainLocked cfg rt p w incarnation caller).2 = false →
        (claimDrainLocked cfg rt p w incarnation caller).1 = rt) ∧
      ((returnLocked cfg rt p w ticket caller).2 = false → (returnLocked cfg rt p w ticket caller).1 = rt) ∧
      ((returnLocked cfg rt p w ticket caller).2 = true →
        ((returnLocked cfg rt p w ticket caller).1.record p).ownerM = none)) ∧
    (∀ p t acts rt' acts' rt'', ticketSnapshot cfg rt p = some t → run (step cfg) rt acts = some rt' →
      (rt'.record p).ownerM ≠ some t.ownerM → run (step cfg) rt' acts' = some rt'' →
      ∀ q, ticketValidate cfg rt'' q t = false) := by
  have h : Agrees cfg rt := hreach.induction (init_agrees cfg) fun s a s' hs ha => by
    rw [step_some ha]
    exact (perform_keeps hs a).1
  refine ⟨h.owner, h.current, fun p q w hp hq => ?_, fun p => ⟨h.bounded p, h.tombstone p⟩,
    fun a p => (perform_keeps h a).2 p, fun p w incarnation ticket caller => ?_, ?_⟩
  · have hwp := (h.current p w).mpr hp
    have hwq := (h.current q w).mpr hq
    exact Option.some.inj (hwp.symm.trans hwq)
  · exact ⟨(claimLocked_spec h p w incarnation caller).2, (claimDrainLocked_spec h p w incarnation caller).2,
      (returnLocked_spec h p w ticket caller).2⟩
  · intro p t acts rt' acts' rt'' ht hrun hgone hrun' q
    exact ticket_dead h ht hrun hgone hrun'

/-- Two processors and two workers, all registered. -/
def pairConfig : Config (Fin 2) (Fin 2) where
  mode := .registered
  registered _ := true
  role _ := .managed
  managedPolicyPools := false
  portable _ := true
  home w := w
  primaryWorker p := p
  opaqueHelperWorker p := p

/-- The runtime `pairConfig` reaches by `acts`. -/
def pairAfter (acts : List (Action (Fin 2) (Fin 2))) : Runtime (Fin 2) (Fin 2) :=
  acts.foldl (fun rt a => (perform pairConfig rt a).1) (Runtime.init pairConfig)

/-- Worker 0 owns processor 0, returns it with its ticket and claims it again: the ticket was good, and is not. -/
theorem exclusive_processor_ownership_reclaim :
    let acts := [.bind 0, .setOnline 0 true, .claim 0 0 1 ⟨true, true⟩]
    let ticket : Ticket (Fin 2) (Fin 2) := ⟨0, 0, 1, 1, 1, .registeredOwned, .owned⟩
    let more := [.giveBack 0 0 (some ticket) ⟨true, true⟩]
    let again := [.claim 0 0 1 ⟨true, true⟩]
    ticketSnapshot pairConfig (pairAfter acts) 0 = some ticket ∧
      ((pairAfter (acts ++ more ++ again)).record 0).ownerM = some 0 ∧
      ((pairAfter acts).workers 0).currentP = some 0 ∧
      ∀ q, ticketValidate pairConfig (pairAfter (acts ++ more ++ again)) q ticket = false := by
  intro acts ticket more again
  have h := exclusive_processor_ownership pairConfig (show Reachable (step pairConfig) (Runtime.init pairConfig) (pairAfter acts) from ⟨acts, rfl⟩)
  obtain ⟨-, hcur, -, -, -, -, hticket⟩ := h
  refine ⟨by decide, by decide, (hcur 0 0).mpr (by decide), ?_⟩
  exact hticket 0 ticket more (pairAfter (acts ++ more)) again _ (by decide) rfl (by decide) rfl

end Llam.Lease
