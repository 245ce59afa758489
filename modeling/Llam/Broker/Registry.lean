import Llam.Lib.Grants
import Llam.Broker.Effect

/-!
# The broker as a registry of grants

The tables of the broker, read as a registry (`registry`): the active slots are the grants, the tokens of the history are
the tickets. Epochs are ordered by `epochRank`, where the terminal epoch 0 is the last one. An operation whose token was
issued before changes the registry as registries change (`Effect.changes`), if it finds it well-formed.
-/

namespace Llam.Broker

open Llam.Lib Function

/-! ## Epochs -/

/-- The position of an epoch: 0 comes last. -/
def epochRank (epoch : UInt64) : Nat := if epoch = 0 then 2 ^ 64 else epoch.toNat

theorem epochRank_zero : epochRank 0 = 2 ^ 64 := if_pos rfl

theorem epochRank_of_ne {epoch : UInt64} (h : epoch ≠ 0) : epochRank epoch = epoch.toNat := if_neg h

theorem toNat_add_one {x : UInt64} (h : x ≠ wordMax) : (x + 1).toNat = x.toNat + 1 := by
  have hlt := x.toNat_lt
  have hne : x.toNat ≠ 2 ^ 64 - 1 := fun hx => h (UInt64.toNat_inj.mp (hx.trans (by decide)))
  rw [UInt64.toNat_add, UInt64.toNat_one]
  omega

theorem epochRank_inj {d e : UInt64} (h : epochRank d = epochRank e) : d = e := by
  have hd := d.toNat_lt
  have he := e.toNat_lt
  unfold epochRank at h
  split at h <;> split at h
  · simp_all
  · omega
  · omega
  · exact UInt64.toNat_inj.mp h

theorem epochRank_le_last (epoch : UInt64) : epochRank epoch ≤ epochRank 0 := by
  rw [epochRank_zero, epochRank]
  split
  · exact Nat.le_refl _
  · exact Nat.le_of_lt epoch.toNat_lt

theorem epochRank_lt_next {epoch : UInt64} (h : epoch ≠ 0) : epochRank epoch < epochRank (nextEpoch epoch) := by
  have hlt := epoch.toNat_lt
  rw [epochRank_of_ne h]
  unfold nextEpoch
  split
  · exact hlt
  rename_i hne
  have hsucc := toNat_add_one fun hmax => hne (.inr hmax)
  have hpos : epoch + 1 ≠ 0 := by
    intro hzero
    rw [hzero] at hsucc
    exact absurd hsucc (by simp)
  rw [epochRank_of_ne hpos, hsucc]
  exact Nat.lt_succ_self _

theorem nextEpoch_zero : nextEpoch 0 = 0 := rfl

theorem epochRank_le_next (epoch : UInt64) : epochRank epoch ≤ epochRank (nextEpoch epoch) := by
  by_cases h : epoch = 0
  · rw [h, nextEpoch_zero]
  · exact Nat.le_of_lt (epochRank_lt_next h)

theorem epochRank_le_iterate (epoch : UInt64) (k : Nat) : epochRank epoch ≤ epochRank (nextEpoch^[k] epoch) := by
  induction k with
  | zero => exact Nat.le_refl _
  | succ k ih =>
    rw [Function.iterate_succ_apply']
    exact Nat.le_trans ih (epochRank_le_next _)

theorem nextEpoch_iterate_zero (k : Nat) : nextEpoch^[k] 0 = 0 := Function.iterate_fixed nextEpoch_zero k

theorem State.load_le {n : Nat} (s : State n) (overtakes : Nat → Nat) {k l : Nat} (h : k ≤ l) :
    epochRank (s.load overtakes k) ≤ epochRank (s.load overtakes l) := by
  obtain ⟨d, rfl⟩ := Nat.exists_eq_add_of_le h
  clear h
  induction d with
  | zero => exact Nat.le_refl _
  | succ d ih =>
    refine Nat.le_trans ih ?_
    have hrange : List.range (k + (d + 1) + 1) = List.range (k + d + 1) ++ [k + d + 1] := List.range_succ
    unfold State.load
    rw [hrange, List.map_append, List.sum_append, Nat.add_comm (List.sum _), Function.iterate_add_apply]
    exact epochRank_le_iterate _ _

theorem State.epoch_le_load {n : Nat} (s : State n) (overtakes : Nat → Nat) (k : Nat) :
    epochRank s.control.epoch ≤ epochRank (s.load overtakes k) := epochRank_le_iterate _ _

/-! ## The registry -/

def Slot.grant {α : Type} (x : Slot α) : Option (Grant UInt64 Rights) :=
  if x.active then some ⟨x.id.toNat, x.generation.toNat, x.rights, x.subjectId⟩ else none

theorem Slot.grant_of_active {α : Type} {x : Slot α} (h : x.active = true) :
    x.grant = some ⟨x.id.toNat, x.generation.toNat, x.rights, x.subjectId⟩ := if_pos h

theorem Slot.grant_eq_some {α : Type} {x : Slot α} {g : Grant UInt64 Rights} (h : x.grant = some g) :
    x.active = true ∧ g = ⟨x.id.toNat, x.generation.toNat, x.rights, x.subjectId⟩ := by
  unfold Slot.grant at h
  split at h
  · rename_i hactive
    exact ⟨hactive, (Option.some.inj h).symm⟩
  · cases h

@[simp] theorem Slot.grant_cleared (f : Family) : (Slot.cleared f).grant = none := rfl

def Token.ticket (f : Family) (t : Token) : Ticket Family UInt64 Rights :=
  ⟨f, t.slot.toNat, t.generation.toNat, t.rights, t.subjectId, epochRank t.revocationEpoch⟩

/-- The registry of the broker with the tokens of the history. -/
def registry (b : Control) (minted : List Token) (created : Family → Nat → Option Rights) :
    Registry Family (Fin slotCount) UInt64 Rights where
  slots f i := (b.slots f i).grant
  next f := (b.next f).toNat
  epoch := epochRank b.epoch
  tickets := {k | ∃ f t, t ∈ minted ∧ t.family = f.code ∧ k = t.ticket f}
  created := created

def State.registry {n : Nat} (s : State n) : Registry Family (Fin slotCount) UInt64 Rights :=
  Broker.registry s.control s.minted s.created

section Registry

variable {b : Control} {minted : List Token} {created : Family → Nat → Option Rights} {f : Family} {i : Fin slotCount}

theorem ticket_mem {t : Token} (ht : t ∈ minted) (hf : t.family = f.code) :
    t.ticket f ∈ (registry b minted created).tickets := ⟨f, t, ht, hf, rfl⟩

theorem registry_setSlot (x : Slot (Body f)) :
    registry (b.setSlot f i x) minted created = (registry b minted created).setSlot f i x.grant := by
  refine Registry.ext ?_ rfl rfl rfl rfl
  funext g j
  by_cases h : g = f ∧ j = i
  · obtain ⟨rfl, rfl⟩ := h
    rw [Registry.setSlot_self]
    exact congrArg Slot.grant (Control.setSlot_self b g j x)
  · rw [Registry.setSlot_of_ne h]
    exact congrArg Slot.grant (Control.setSlot_of_ne h)

theorem registry_same {x : Slot (Body f)} (h : x.grant = (b.slots f i).grant) :
    registry (b.setSlot f i x) minted created = registry b minted created := by
  rw [registry_setSlot, h]
  unfold Registry.setSlot
  have hslot : (b.slots f i).grant = (registry b minted created).slots f i := rfl
  rw [hslot, update_eq_self, update_eq_self]

@[simp] theorem registry_setBody (x : Body f) : registry (b.setBody f i x) minted created = registry b minted created :=
  registry_same rfl

theorem registry_epoch (epoch : UInt64) : registry { b with epoch := epoch } minted created =
      { registry b minted created with epoch := epochRank epoch } := rfl

theorem registry_minted {t : Token} (hf : t.family = f.code) : registry b (minted ++ [t]) created =
      { registry b minted created with tickets := insert (t.ticket f) (registry b minted created).tickets } := by
  refine Registry.ext rfl rfl rfl (Set.ext fun k => ⟨?_, ?_⟩) rfl
  · rintro ⟨g, u, hu, hg, rfl⟩
    rcases List.mem_append.mp hu with hu | hu
    · exact .inr ⟨g, u, hu, hg, rfl⟩
    · cases List.mem_singleton.mp hu
      exact .inl (Family.code_inj (hg.symm.trans hf) ▸ rfl)
  · rintro (rfl | ⟨g, u, hu, hg, rfl⟩)
    · exact ⟨f, t, List.mem_append_right _ (List.mem_singleton_self t), hf, rfl⟩
    · exact ⟨g, u, List.mem_append_left _ hu, hg, rfl⟩

theorem validateNextObjectId_ok {next : UInt64} (h : Control.validateNextObjectId next = .ok ()) : next ≠ wordMax := by
  unfold Control.validateNextObjectId at h
  split at h
  · cases h
  split at h
  · cases h
  · assumption

variable {rights : Rights} {body : Body f} {subject : UInt64}

theorem Control.allot_next : (b.allot f i subject rights body).next f = b.next f + 1 := by
  simp [Control.allot]

theorem Control.allot_self : (b.allot f i subject rights body).slots f i = ⟨b.next f, 1, rights, subject, true, body⟩ :=
  Control.setSlot_self b f i _

theorem registry_allot (hnext : Control.validateNextObjectId (b.next f) = .ok ()) :
    registry (b.allot f i subject rights body) minted
        (update created f (update (created f) (b.next f).toNat (some rights))) =
      (registry b minted created).create f i 1 rights subject := by
  refine Registry.ext ?_ ?_ rfl rfl rfl
  · have hslot : registry (b.setSlot f i ⟨b.next f, 1, rights, subject, true, body⟩) minted created = _ :=
      registry_setSlot _
    have hslots := congrArg Registry.slots hslot
    exact hslots
  · funext g
    show (update b.next f (b.next f + 1) g).toNat =
      update (fun f => (b.next f).toNat) f ((b.next f).toNat + 1) g
    rcases eq_or_ne g f with rfl | hg
    · rw [update_self, update_self, toNat_add_one (validateNextObjectId_ok hnext)]
    · rw [update_of_ne hg, update_of_ne hg]

theorem changes_allot (hnext : Control.validateNextObjectId (b.next f) = .ok ()) :
    Change (registry b minted created) (registry (b.allot f i subject rights body) minted
      (update created f (update (created f) (b.next f).toNat (some rights)))) := by
  rw [registry_allot hnext]
  exact .create _ f i 1 rights subject

/-! ## Operations change the registry -/

variable {subject epoch : UInt64} {t : Token}

theorem Control.Found.authority (hfound : b.Found f i subject epoch t) (hok : (registry b minted created).Ok)
    (ht : t ∈ minted) : t.rights ≤ (b.slots f i).rights ∧ (b.slots f i).subjectId = subject ∧
      ∃ r, created f (b.slots f i).id.toNat = some r ∧ (b.slots f i).rights ≤ r := by
  obtain ⟨hactive, hid, hgeneration⟩ := Slot.named_iff.mp hfound.named
  obtain ⟨hrights, hsubject, r, hr, hle⟩ := hok.honoured (ticket_mem ht hfound.family) (Slot.grant_of_active hactive)
    (congrArg UInt64.toNat hid) (congrArg UInt64.toNat hgeneration) hfound.armed
  refine ⟨hrights, hsubject.symm.trans hfound.audience, r, ?_, hle⟩
  rw [hid]
  exact hr

theorem changes_advance {b : Control} (h : epochRank b.epoch ≤ epochRank epoch) :
    Change (registry b minted created) (registry { b with epoch := epoch } minted created) := .advance _ h

theorem changes_weaken {x : Slot (Body f)} (hactive : (b.slots f i).active = true) (hactive' : x.active = true)
    (hid : x.id = (b.slots f i).id) (hsubject : x.subjectId = (b.slots f i).subjectId)
    (hrights : x.rights ≤ (b.slots f i).rights) (hlater : (b.slots f i).generation.toNat < x.generation.toNat ∨
      x.generation = (b.slots f i).generation ∧ x.rights = ⊥) :
    Change (registry b minted created) (registry (b.setSlot f i x) minted created) := by
  rw [registry_setSlot, Slot.grant_of_active hactive', hid, hsubject]
  have hslot : (registry b minted created).slots f i = some _ := Slot.grant_of_active hactive
  refine .weaken x.generation.toNat x.rights hslot hrights ?_
  rcases hlater with hlater | ⟨hsame, hnone⟩
  · exact .inl hlater
  · exact .inr ⟨congrArg UInt64.toNat hsame, hnone⟩

theorem changes_clear : Change (registry b minted created) (registry (b.clearSlot f i) minted created) := by
  rw [Control.clearSlot, registry_setSlot]
  exact .clear _ f i

theorem changes_detach (hactive : (b.slots .TASK i).active = true) :
    Change (registry b minted created) (registry (b.detachSlot i) minted created) :=
  changes_weaken (x := { b.slots .TASK i with rights := ⊥, body := _ }) hactive hactive rfl rfl bot_le (.inr ⟨rfl, rfl⟩)

theorem changes_issue {b₀ : Control} {id generation : UInt64}
    (htoken : b₀.TokenFor f id generation rights subject epoch t) (hactive : (b.slots f i).active = true)
    (hid : id = (b.slots f i).id) (hgeneration : generation = (b.slots f i).generation)
    (hsubject : subject = (b.slots f i).subjectId) (hrights : rights ≤ (b.slots f i).rights)
    (hepoch : epochRank epoch ≤ epochRank b.epoch) :
    Change (registry b minted created) (registry b (minted ++ [t]) created) := by
  rw [registry_minted htoken.family]
  refine .issue (t.ticket f) (Slot.grant_of_active hactive) ?_ ?_ ?_ (.inl ?_) ?_
  · exact congrArg UInt64.toNat (htoken.number.trans hid)
  · exact congrArg UInt64.toNat (htoken.version.trans hgeneration)
  · exact htoken.audience.trans hsubject
  · exact le_of_eq_of_le htoken.gives hrights
  · exact le_of_eq_of_le (congrArg epochRank htoken.issued) hepoch

end Registry

namespace State

variable {n : Nat} {s : State n} {b : Control} {f : Family} {i : Fin slotCount} {subject : UInt64} {rights : Rights}
  {o : Op} {overtakes : Nat → Nat} {t : Token}

theorem record_same (h : b.next f = s.control.next f) : s.record b f rights = s.created := if_pos h

theorem record_allot {body : Body f} (hnext : Control.validateNextObjectId (s.control.next f) = .ok ()) :
    s.record (s.control.allot f i subject rights body) f rights =
      update s.created f (update (s.created f) (s.control.next f).toNat (some rights)) := by
  refine if_neg fun h => ?_
  rw [Control.allot_next] at h
  have hnat := congrArg UInt64.toNat h
  rw [toNat_add_one (validateNextObjectId_ok hnext)] at hnat
  exact Nat.succ_ne_self _ hnat

theorem recorded_same (h : b.next = s.control.next) : s.recorded o b = s.created := by
  unfold recorded
  split
  · rfl
  · exact record_same (congrFun h _)

theorem recorded_allot {body : Body f} (hcreates : o.creates = some (f, rights))
    (hnext : Control.validateNextObjectId (s.control.next f) = .ok ()) :
    s.recorded o (s.control.allot f i subject rights body) =
      update s.created f (update (s.created f) (s.control.next f).toNat (some rights)) := by
  unfold recorded
  rw [hcreates]
  exact record_allot hnext

theorem mem_minted (h : o.presents.all s.unforged = true) (ht : o.presents = some t)
    (hmac : t.mac = capMac s.control.key t) : t ∈ s.minted := by
  rw [ht, Option.all_some, unforged, Bool.or_eq_true, decide_eq_true_eq] at h
  rcases h with h | h
  · exact absurd hmac h
  · rw [known, Bool.and_eq_true, decide_eq_true_eq] at h
    exact h.1

theorem effect_changes {token : Option Token} (h : s.control.Effect subject (s.load overtakes) o b token)
    (hok : s.registry.Ok) (hunforged : o.presents.all s.unforged = true) : Changes s.registry
      (Broker.registry { b with epoch := s.load overtakes 2 } (s.minted ++ token.toList) (s.recorded o b)) := by
  have hepoch := s.epoch_le_load overtakes 2
  cases h with
  | same =>
    rw [recorded_same rfl, Option.toList_none, List.append_nil]
    exact .single (changes_advance hepoch)
  | attenuate hop hfound hrights hsame htoken =>
    rw [recorded_same rfl]
    have hpresents := congrArg Op.presents hop
    obtain ⟨hactive, hid, hgeneration⟩ := Slot.named_iff.mp hfound.named
    obtain ⟨hle, hsubject, -⟩ := hfound.authority hok (mem_minted hunforged hpresents hfound.mac)
    refine .tail (.single (changes_advance hepoch)) ?_
    exact changes_issue htoken hactive hid.symm hgeneration.symm hsubject.symm (le_trans hrights hle)
      (s.load_le overtakes (by decide))
  | @rotate f i t t' rights k hpresents hk hfound hrights hsome hlast htoken htask =>
    rw [recorded_same (b := s.control.setSlot _ _ _) rfl]
    obtain ⟨hactive, hid, hgeneration⟩ := Slot.named_iff.mp hfound.named
    obtain ⟨hle, hsubject, -⟩ := hfound.authority hok (mem_minted hunforged hpresents hfound.mac)
    have hlater : (s.control.slots f i).generation.toNat < ((s.control.slots f i).generation + 1).toNat := by
      rw [toNat_add_one hlast]
      exact Nat.lt_succ_self _
    have hweaken : Change s.registry (Broker.registry (s.control.setSlot f i { s.control.slots f i with
        generation := (s.control.slots f i).generation + 1, rights := rights }) s.minted s.created) :=
      changes_weaken hactive hactive rfl rfl (le_trans hrights hle) (.inl hlater)
    refine .tail (.tail (.single hweaken) (changes_advance hepoch)) (changes_issue (i := i) htoken ?_ ?_ ?_ ?_ ?_ ?_)
    all_goals dsimp only; try rw [Control.setSlot_self]
    · exact hactive
    · exact hid.symm
    · exact congrArg (· + 1) hgeneration.symm
    · exact hsubject.symm
    · exact s.load_le overtakes (by decide)
  | @create f i t' rights body hcreates hfree hnext htoken htask =>
    rw [recorded_allot hcreates hnext]
    refine .tail (.tail (.single (changes_allot hnext)) (changes_advance hepoch))
      (changes_issue (i := i) htoken ?_ ?_ ?_ ?_ ?_ ?_)
    all_goals dsimp only; try rw [Control.allot_self]
    · exact s.load_le overtakes (by decide)
  | @burn f i rights body hcreates hfree hnext htask =>
    have hrecorded : s.recorded o ((s.control.allot f i subject rights body).clearSlot f i) =
        s.recorded o (s.control.allot f i subject rights body) := rfl
    rw [hrecorded, recorded_allot hcreates hnext, Option.toList_none, List.append_nil]
    exact .tail (.tail (.single (changes_allot hnext)) changes_clear) (changes_advance hepoch)
  | body x hpresents hfound hwrites htask =>
    rw [recorded_same (b := s.control.setBody _ _ _) rfl, Option.toList_none, List.append_nil]
    refine .single ?_
    rw [registry_epoch, registry_setBody]
    exact changes_advance hepoch
  | clear hpresents hfound hcompleted =>
    rw [recorded_same (b := s.control.clearSlot _ _) rfl, Option.toList_none, List.append_nil]
    exact .tail (.single changes_clear) (changes_advance hepoch)
  | @detach i t hpresents hfound hspawned =>
    rw [recorded_same (b := s.control.detachSlot _) rfl, Option.toList_none, List.append_nil]
    exact .tail (.single (changes_detach (Slot.named_iff.mp hfound.named).1)) (changes_advance hepoch)

end State

end Llam.Broker
