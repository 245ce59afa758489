import Llam.Broker.Authority

/-!
# Revocation

Once a token is revoked it never validates again (`revocation_is_permanent`), whatever happens to its object, its slot and
the epoch afterwards, and an operation that presents it fails and changes nothing (`perform_refused`). In the terminal
epoch no token validates at all.
-/

namespace Llam.Broker

open Llam.Lib Slot

variable {n : Nat}

/-! ## Tokens that are refused -/

/-- The token validates for no right. -/
def Control.Refuses (b : Control) (subject epoch : UInt64) (t : Token) : Prop :=
  ∀ required, b.validateCap subject epoch t required ≠ .ok ()

namespace Control

variable {b : Control} {subject epoch : UInt64} {load : Nat → UInt64} {t : Token} {required : Rights} {f : Family}
  {env : Env} {o : Op}

theorem Refuses.validateCap (h : b.Refuses subject epoch t) (required : Rights) :
    ∃ e, b.validateCap subject epoch t required = .error e := by
  cases hvalid : b.validateCap subject epoch t required with
  | error e => exact ⟨e, rfl⟩
  | ok u => exact absurd hvalid (h required)

theorem Refuses.findObject (h : b.Refuses subject epoch t) (f : Family) (required : Rights) :
    ∃ e, b.findObject f subject epoch t required = .error e := by
  obtain ⟨e, he⟩ := h.validateCap required
  exact ⟨e, by rw [Control.findObject, he]⟩

/-- An operation failed and changed nothing. -/
def Failed (b : Control) (r : Control × Outcome) : Prop := r.1 = b ∧ r.2.token = none ∧ ∃ e, r.2.status = .error e

theorem Failed.fail (e : Errno) : b.Failed (b, .fail e) := ⟨rfl, rfl, e, rfl⟩

theorem Failed.failClear (length : Nat) (e : Errno) : b.Failed (b, .failClear length e) := ⟨rfl, rfl, e, rfl⟩

theorem perform_refused (h : b.Refuses subject (load 0) t) (ho : o.presents = some t) :
    b.Failed (b.perform subject load o env) := by
  cases o with
  | registerBuffer | registerHandle | createChannel => cases ho
  | validate u required =>
    cases ho
    obtain ⟨e, he⟩ := h.validateCap required
    rw [perform, Control.validate, he]
    cases env.refused <;> exact .fail _
  | attenuate u subset =>
    cases ho
    obtain ⟨e, he⟩ := h.validateCap subset
    rw [perform, attenuateCap, he]
    split
    · exact .fail _
    · cases env.refused <;> exact .fail _
  | revoke u replacement =>
    cases ho
    obtain ⟨e, he⟩ := h.validateCap .DESTROY
    rw [perform, revokeObjectCap, he]
    split
    · exact .fail _
    · cases env.refused <;> exact .fail _
  | readBuffer u offset length =>
    cases ho
    obtain ⟨e, he⟩ := h.findObject .BUFFER .READ
    rw [perform, readBuffer, he]
    split
    · exact .fail _
    · cases env.refused <;> exact .failClear _ _
  | writeBuffer u offset bytes =>
    cases ho
    obtain ⟨e, he⟩ := h.findObject .BUFFER .WRITE
    rw [perform, writeBuffer, he]
    split
    · exact .fail _
    · cases env.refused <;> exact .fail _
  | readHandle u length =>
    cases ho
    obtain ⟨e, he⟩ := h.findObject .DESCRIPTOR .READ
    rw [perform, readHandle, duplicateDescriptor, he]
    split
    · exact .fail _
    · cases env.refused <;> exact .failClear _ _
  | writeHandle u bytes =>
    cases ho
    obtain ⟨e, he⟩ := h.findObject .DESCRIPTOR .WRITE
    rw [perform, writeHandle, duplicateDescriptor, he]
    split
    · exact .fail _
    · cases env.refused <;> exact .fail _
  | channelSend u bytes =>
    cases ho
    obtain ⟨e, he⟩ := h.findObject .CHANNEL .SEND
    rw [perform, channelSend, he]
    split
    · exact .fail _
    · cases env.refused <;> exact .fail _
  | channelRecv u capacity =>
    cases ho
    obtain ⟨e, he⟩ := h.findObject .CHANNEL .RECV
    rw [perform, channelRecv, he]
    split
    · exact .fail _
    · cases env.refused <;> exact .failClear _ _
  | channelClose u =>
    cases ho
    obtain ⟨e, he⟩ := h.findObject .CHANNEL .CLOSE
    rw [perform, channelClose, he]
    cases env.refused <;> exact .fail _
  | driveAllowed u =>
    cases ho
    obtain ⟨e, he⟩ := h.findObject .TASK .JOIN
    rw [perform, Control.driveAllowed, findTask, he]
    cases env.refused <;> exact .fail _
  | joinTask u =>
    cases ho
    obtain ⟨e, he⟩ := h.findObject .TASK .JOIN
    rw [perform, joinTask, findTask, he]
    cases env.refused <;> exact .fail _
  | detachTask u =>
    cases ho
    obtain ⟨e, he⟩ := h.findObject .TASK .DETACH
    rw [perform, detachTask, findTask, he]
    cases env.refused <;> exact .fail _

end Control

/-! ## Permanence -/

/-- The registry does not honour the token. -/
def State.Dead (s : State n) (t : Token) : Prop := ∀ f, t.family = f.code → ¬ s.registry.Honours (t.ticket f)

theorem honours_iff {s : State n} {f : Family} {t : Token} : s.registry.Honours (t.ticket f) ↔
    epochRank t.revocationEpoch = epochRank s.control.epoch ∧
      ∃ i, (s.control.slots f i).named t = true ∧ (s.control.slots f i).rights ≠ ⊥ := by
  refine and_congr_right fun _ => ⟨?_, ?_⟩
  · rintro ⟨i, g, hg, hid, hgeneration, hrights⟩
    obtain ⟨hactive, rfl⟩ := grant_eq_some hg
    exact ⟨i, named_iff.mpr ⟨hactive, UInt64.toNat_inj.mp hid, UInt64.toNat_inj.mp hgeneration⟩, hrights⟩
  · rintro ⟨i, hnamed, hrights⟩
    obtain ⟨hactive, hid, hgeneration⟩ := named_iff.mp hnamed
    exact ⟨i, _, grant_of_active hactive, congrArg UInt64.toNat hid, congrArg UInt64.toNat hgeneration, hrights⟩

theorem Inv.refuses {s : State n} (hinv : Inv s) {t : Token}
    (ht : ∀ f, t.family = f.code → t.ticket f ∈ s.registry.tickets) (hdead : s.Dead t) (subject : UInt64) (k : Nat) : s.control.Refuses subject (nextEpoch^[k] s.control.epoch) t := by
  intro required hvalid
  obtain ⟨f, i, hfound, -⟩ := Control.validateCap_ok hvalid
  obtain ⟨hactive, hid, hgeneration⟩ := named_iff.mp hfound.named
  have hadvance : Change s.registry _ := changes_advance (epochRank_le_iterate s.control.epoch k)
  exact hadvance.dead hinv.registry (ht f hfound.family) (hdead f hfound.family)
    ⟨congrArg epochRank hfound.current, i, _, grant_of_active hactive, congrArg UInt64.toNat hid,
      congrArg UInt64.toNat hgeneration, hfound.armed⟩

theorem refuses_of_exhausted {b : Control} (h : b.epoch = 0) (subject : UInt64) (t : Token) (k : Nat) :
    b.Refuses subject (nextEpoch^[k] b.epoch) t := by
  intro required hvalid
  obtain ⟨f, i, hfound, -⟩ := Control.validateCap_ok hvalid
  refine hfound.lasting ?_
  rw [h, nextEpoch_iterate_zero]

/-- The step revokes the token: a revocation of its object, a step that removes its object, a reclaim of its subject, or a
revocation of all tokens. -/
inductive Revokes (a : Action n) (s' : State n) (out : Option Outcome) (t : Token) : Prop
  | object {subject value : UInt64} {u : Token} {replacement : Rights} {overtakes : Nat → Nat} {env : Env}
      (haction : a = .op subject (.revoke u replacement) overtakes env)
      (hsucceeds : out.map Outcome.status = some (.ok value)) (hfamily : t.family = u.family) (hslot : t.slot = u.slot) :
    Revokes a s' out t
  | removal {f : Family} (hfamily : t.family = f.code)
      (hremoved : ∀ i, (s'.control.slots f i).active = true → (s'.control.slots f i).id ≠ t.slot) : Revokes a s' out t
  | reclaim {f : Family} {subject : UInt64} (haction : a = .reclaim f subject) (hsubject : subject ≠ 0)
      (hfamily : t.family = f.code) (htoken : t.subjectId = subject) : Revokes a s' out t
  | all {epoch : UInt64} (haction : a = .revokeAll) (hsucceeds : out.map Outcome.status = some (.ok epoch)) :
    Revokes a s' out t

section Revokes

variable {s s' : State n} {t u : Token} {f : Family} {i : Fin slotCount}

theorem Inv.generation_le (hinv : Inv s) (ht : t ∈ s.minted) (hf : t.family = f.code)
    (hactive : (s.control.slots f i).active = true) (hid : (s.control.slots f i).id = t.slot) :
    t.generation.toNat ≤ (s.control.slots f i).generation.toNat := by
  have hbacks := hinv.registry.backed _ (ticket_mem ht hf) i _ (grant_of_active hactive) (congrArg UInt64.toNat hid)
  rcases hbacks with hlt | ⟨heq, -⟩
  · exact Nat.le_of_lt hlt
  · exact Nat.le_of_eq heq

variable {b : Control} {subject : UInt64} {replacement : Rights}

theorem rotate_status {epoch : UInt64} {entropy : Option (UInt64 × UInt64)}
    (h : (b.rotate f i subject epoch u replacement entropy).2.token = none) :
    ∃ e, (b.rotate f i subject epoch u replacement entropy).2.status = .error e := by
  unfold Control.rotate at h ⊢
  dsimp only at h ⊢
  split
  · exact ⟨_, rfl⟩
  split
  · exact ⟨_, rfl⟩
  split
  · exact ⟨_, rfl⟩
  split
  · exact ⟨_, rfl⟩
  rename_i hlast hsome hle _ _ hissue
  rw [if_neg hlast, if_neg hsome, if_neg hle, hissue] at h
  cases h

theorem revokeObjectCap_status {load : Nat → UInt64} {env : Env}
    (h : (b.revokeObjectCap subject load u replacement env).2.token = none) :
    ∃ e, (b.revokeObjectCap subject load u replacement env).2.status = .error e := by
  have hfound : ∀ f, (b.revokeFound f subject load u replacement env.entropy).2.token = none →
      ∃ e, (b.revokeFound f subject load u replacement env.entropy).2.status = .error e := by
    intro f h
    unfold Control.revokeFound at h ⊢
    cases hfind : b.findObject f subject (load 1) u .DESTROY with
    | error e => exact ⟨e, rfl⟩
    | ok i =>
      rw [hfind] at h
      exact rotate_status h
  have hdescriptor : (b.revokeDescriptor subject load u replacement env.entropy).2.token = none →
      ∃ e, (b.revokeDescriptor subject load u replacement env.entropy).2.status = .error e := by
    intro h
    unfold Control.revokeDescriptor at h ⊢
    cases hfirst : b.first .DESCRIPTOR fun s => s.named u with
    | none => exact ⟨_, rfl⟩
    | some i =>
      rw [hfirst] at h
      dsimp only at h ⊢
      split
      · exact ⟨_, rfl⟩
      rename_i hdestroy
      rw [if_neg hdestroy] at h
      exact rotate_status h
  unfold Control.revokeObjectCap at h ⊢
  split
  · exact ⟨_, rfl⟩
  rename_i hsome
  rw [if_neg hsome] at h
  split
  · exact ⟨_, rfl⟩
  · exact ⟨_, rfl⟩
  rename_i hrefused hvalid
  simp only [hrefused, hvalid] at h
  split
  · rename_i hfamily
    simp only [hfamily] at h
    exact hfound .BUFFER h
  · rename_i hfamily
    simp only [hfamily] at h
    exact hdescriptor h
  · rename_i hfamily
    simp only [hfamily] at h
    exact hfound .CHANNEL h
  · exact ⟨_, rfl⟩

theorem Inv.dead_of_later {s' : State n} (hinv : Inv s) (hinv' : Inv s') (ht : t ∈ s.minted) (hfamily : t.family = f.code)
    (hactive : (s.control.slots f i).active = true) (hid : (s.control.slots f i).id = t.slot)
    (hactive' : (s'.control.slots f i).active = true) (hid' : (s'.control.slots f i).id = t.slot)
    (hlater : (s.control.slots f i).generation.toNat < (s'.control.slots f i).generation.toNat) : s'.Dead t := by
  intro g hg
  obtain rfl : g = f := Family.code_inj (hg.symm.trans hfamily)
  exact hinv'.registry.dead_of_later (grant_of_active hactive') (congrArg UInt64.toNat hid')
    (Nat.lt_of_le_of_lt (hinv.generation_le ht hfamily hactive hid) hlater)

theorem revoke_rotates {b' : Control} {load : Nat → UInt64} {u' : Token}
    (h : b.Effect subject load (.revoke u replacement) b' (some u')) :
    ∃ f i rights, u.family = f.code ∧ (b.slots f i).named u = true ∧ (b.slots f i).generation ≠ wordMax ∧
      b'.slots f i = { b.slots f i with generation := (b.slots f i).generation + 1, rights := rights } := by
  cases h with
  | attenuate hop => cases hop
  | create hcreates => cases hcreates
  | @rotate f i t t' rights k hpresents hk hfound hrights hsome hlast htoken htask =>
    cases hpresents
    exact ⟨f, i, rights, hfound.family, hfound.named, hlast, Control.setSlot_self b f i _⟩

theorem dead_of_object (hinv : Inv s) {value : UInt64} {overtakes : Nat → Nat} {env : Env}
    (hunforged : (Op.revoke u replacement).presents.all s.unforged = true) (ht : t ∈ s.minted)
    (hfamily : t.family = u.family) (hslot : t.slot = u.slot)
    (hsucceeds : (s.performOp subject (.revoke u replacement) overtakes env).2.status = .ok value) :
    (s.performOp subject (.revoke u replacement) overtakes env).1.Dead t := by
  have hkeeps : Keeps s (s.performOp subject (.revoke u replacement) overtakes env).1 := performOp_keeps hinv hunforged
  have hinv' : Inv (s.performOp subject (.revoke u replacement) overtakes env).1 :=
    ⟨hkeeps.changes.ok hinv.registry, hkeeps.tasks⟩
  have heffect : s.control.Effect subject (s.load overtakes) (.revoke u replacement) _
      (s.control.perform subject (s.load overtakes) (.revoke u replacement) env).2.token := Control.perform_effect _
  cases htoken : (s.control.perform subject (s.load overtakes) (.revoke u replacement) env).2.token with
  | none =>
    obtain ⟨e, he⟩ := revokeObjectCap_status htoken
    cases he.symm.trans hsucceeds
  | some u' =>
    rw [htoken] at heffect
    obtain ⟨f, i, rights, hf, hnamed, hlast, hself⟩ := revoke_rotates heffect
    obtain ⟨hactive, hid, -⟩ := named_iff.mp hnamed
    refine hinv.dead_of_later hinv' ht (hfamily.trans hf) hactive (hid.trans hslot.symm) ?_ ?_ ?_
    · exact (congrArg Slot.active hself).trans hactive
    · exact (congrArg Slot.id hself).trans (hid.trans hslot.symm)
    · refine Nat.lt_of_lt_of_eq ?_ (congrArg (fun x => (Slot.generation x).toNat) hself).symm
      rw [toNat_add_one hlast]
      exact Nat.lt_succ_self _

theorem Slot.reclaimed_cases (f : Family) (x : Slot (Body f)) :
    Slot.reclaimed f x = .cleared f ∨ (Slot.reclaimed f x).rights = ⊥ := by
  cases f with
  | TASK =>
    rcases abandoned_cases x with ⟨-, heq⟩ | ⟨-, heq⟩
    · exact .inr (congrArg Slot.rights heq)
    · exact .inl heq
  | BUFFER | DESCRIPTOR | CHANNEL => exact .inl rfl

theorem reclaimSubject_self (b : Control) (f : Family) (i : Fin slotCount) (h : subject ≠ 0) :
    ((b.reclaimSubject f subject).slots f i = b.slots f i ∧
      ((b.slots f i).active = true → (b.slots f i).subjectId ≠ subject)) ∨
    (b.reclaimSubject f subject).slots f i = Slot.reclaimed f (b.slots f i) := by
  unfold Control.reclaimSubject
  rw [if_neg h]
  dsimp only
  rw [Function.update_self]
  split
  · exact .inr rfl
  rename_i hne
  rw [Bool.and_eq_true, beq_iff_eq, not_and] at hne
  exact .inl ⟨rfl, hne⟩

theorem dead_of_reclaim (hinv : Inv s) (hsubject : subject ≠ 0) (ht : t ∈ s.minted)
    (hfamily : t.family = f.code) (htoken : t.subjectId = subject) :
    ({ s with control := s.control.reclaimSubject f subject } : State n).Dead t := by
  intro g hg hhonours
  obtain rfl : g = f := Family.code_inj (hg.symm.trans hfamily)
  obtain ⟨-, i, hnamed, hrights⟩ := honours_iff.mp hhonours
  rcases reclaimSubject_self s.control g i hsubject with ⟨hsame, hother⟩ | hreclaimed
  · -- a slot that was left alone is another subject's
    rw [hsame] at hnamed
    exact hother (named_iff.mp hnamed).1 ((hinv.named_subject ht hfamily hnamed).trans htoken)
  rw [hreclaimed] at hnamed hrights
  rcases reclaimed_cases g (s.control.slots g i) with hcleared | hnone
  · rw [hcleared] at hnamed
    cases (named_iff.mp hnamed).1
  · exact hrights hnone

theorem dead_of_all (hinv : Inv s) (ht : t ∈ s.minted) (hlast : nextEpoch s.control.epoch ≠ 0) :
    ({ s with control := { s.control with epoch := nextEpoch s.control.epoch } } : State n).Dead t := by
  intro f hf
  refine Registry.dead_of_epoch (Nat.ne_of_lt ?_)
  have hepoch : s.control.epoch ≠ 0 := by
    intro hzero
    rw [hzero] at hlast
    exact hlast nextEpoch_zero
  exact Nat.lt_of_le_of_lt (hinv.registry.ticket _ (ticket_mem ht hf)).2 (epochRank_lt_next hepoch)

theorem Revokes.dead (hinv : Inv s) {a : Action n} {out : Option Outcome} (hexec : s.exec a = some (s', out))
    (ht : t ∈ s.minted) (h : Revokes a s' out t) : s'.Dead t := by
  cases h with
  | object haction hsucceeds hfamily hslot =>
    subst haction
    cases State.exec_executes hexec with
    | op hunforged => exact dead_of_object hinv hunforged ht hfamily hslot (Option.some.inj hsucceeds)
  | removal hfamily hremoved =>
    intro g hg hhonours
    obtain rfl := Family.code_inj (hg.symm.trans hfamily)
    obtain ⟨-, i, hnamed, -⟩ := honours_iff.mp hhonours
    obtain ⟨hactive, hid, -⟩ := named_iff.mp hnamed
    exact hremoved i hactive hid
  | reclaim haction hsubject hfamily htoken =>
    subst haction
    cases State.exec_executes hexec
    exact dead_of_reclaim hinv hsubject ht hfamily htoken
  | all haction hsucceeds =>
    subst haction
    cases hexec
    refine dead_of_all hinv ht fun hzero => ?_
    rw [if_pos hzero] at hsucceeds
    cases hsucceeds

end Revokes

theorem revocation_is_permanent {runtimeId : UInt64} {key : Key} {s s' s'' : State n}
    (hs : Reachable step (State.init n runtimeId key) s) {a : Action n} {out : Option Outcome}
    (hexec : s.exec a = some (s', out)) {as : List (Action n)} (hrun : run step s' as = some s'') :
    (∀ t ∈ s.minted, Revokes a s' out t → ∀ k subject required,
      s''.control.validateCap subject (nextEpoch^[k] s''.control.epoch) t required ≠ .ok ()) ∧
    (s'.control.epoch = 0 → ∀ t k subject required,
      s''.control.validateCap subject (nextEpoch^[k] s''.control.epoch) t required ≠ .ok ()) := by
  have hinv := reachable_inv hs
  have hkeeps : Keeps s s' := exec_keeps hinv hexec
  have hinv' : Inv s' := ⟨hkeeps.changes.ok hinv.registry, hkeeps.tasks⟩
  obtain ⟨hinv'', hchanges⟩ := run_changes hinv' hrun
  refine ⟨fun t ht hrevokes k subject => ?_, fun hzero t k subject => ?_⟩
  · have hticket : ∀ f, t.family = f.code → t.ticket f ∈ s'.registry.tickets := fun f hf =>
      hkeeps.changes.tickets (ticket_mem ht hf)
    have hdead := hrevokes.dead hinv hexec ht
    exact hinv''.refuses (fun f hf => hchanges.tickets (hticket f hf))
      (fun f hf => hchanges.dead hinv'.registry (hticket f hf) (hdead f hf)) subject k
  · -- no epoch comes after the terminal one
    refine refuses_of_exhausted (epochRank_inj (Nat.le_antisymm ?_ ?_)) subject t k
    · exact epochRank_le_last _
    · exact hzero ▸ hchanges.epoch_le

set_option maxRecDepth 100000 in
theorem revocation_is_permanent_reused : ∃ (s s'' : State 1) (t : Token), t ∈ s.minted ∧
    run step s [.reclaim .BUFFER 7, .op 8 (.registerBuffer [3] .READ) (fun _ => 0) .plain] = some s'' ∧
    ∀ required, s''.control.validateCap 7 s''.control.epoch t required ≠ .ok () := by
  obtain ⟨s, hs, hf⟩ := exists_reachable step (State.init 1 1 ⟨1, 2, 3, 4⟩)
    (fun s => (s.minted.map fun t => (t.family, t.subjectId),
      (run step s [.reclaim .BUFFER 7, .op 8 (.registerBuffer [3] .READ) (fun _ => 0) .plain]).isSome))
    [.op 7 (.registerBuffer [1, 2] (.READ ||| .DESTROY)) (fun _ => 0) .plain] (b := ([(8, 7)], true)) (by decide +kernel)
  obtain ⟨hminted, hrun⟩ := Prod.mk.inj hf
  obtain ⟨t, ht, hfields⟩ := List.map_eq_singleton_iff.mp hminted
  obtain ⟨hfamily, hsubject⟩ := Prod.mk.inj hfields
  obtain ⟨s'', hs''⟩ := Option.isSome_iff_exists.mp hrun
  obtain ⟨s', hstep, hrest⟩ := run_cons.mp hs''
  obtain ⟨r, hexec, rfl⟩ := Option.map_eq_some_iff.mp hstep
  have hmem : t ∈ s.minted := ht ▸ List.mem_singleton_self t
  have hrevoked := (revocation_is_permanent hs hexec hrest).1 t hmem (.reclaim rfl (by decide) hfamily hsubject) 0 7
  exact ⟨s, s'', t, hmem, hs'', hrevoked⟩

end Llam.Broker
