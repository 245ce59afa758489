import Llam.Broker.Invariant

/-!
# Authority

No operation amplifies rights (`no_rights_amplification`): a token that validates says no more than the slot of its object,
which says no more than the object was created with and belongs to the token's subject; and attenuation gives tokens with
fewer rights for the same object.
-/

namespace Llam.Broker

open Llam.Lib

variable {n : Nat}

theorem attenuateCap_token {b : Control} {subject : UInt64} {load : Nat → UInt64} {t t' : Token} {subset : Rights}
    {env : Env} (h : (b.attenuateCap subject load t subset env).token = some t') :
    ∃ entropy, capabilityAttenuate b.key t subset (load 1) entropy = .ok t' := by
  unfold Control.attenuateCap at h
  split at h
  · cases h
  split at h
  · cases h
  · cases h
  cases hattenuate : capabilityAttenuate b.key t subset (load 1) env.entropy with
  | error e =>
    rw [hattenuate] at h
    cases h
  | ok u =>
    rw [hattenuate] at h
    cases h
    exact ⟨env.entropy, hattenuate⟩

theorem no_rights_amplification {runtimeId : UInt64} {key : Key} {s : State n}
    (hs : Reachable step (State.init n runtimeId key) s) {t : Token}
    (hunforged : t.mac = capMac s.control.key t → t ∈ s.minted) {subject epoch : UInt64} {required : Rights}
    (hvalid : s.control.validateCap subject epoch t required = .ok ()) :
    (∃ f i, t.family = f.code ∧ (s.control.slots f i).named t = true ∧ t.rights ≤ (s.control.slots f i).rights ∧
      (∃ rights, s.created f (s.control.slots f i).id.toNat = some rights ∧ (s.control.slots f i).rights ≤ rights) ∧
      t.subjectId = (s.control.slots f i).subjectId) ∧
    ∀ load subset env t', (s.control.attenuateCap subject load t subset env).token = some t' →
      t'.rights ≤ t.rights ∧ t'.runtimeId = t.runtimeId ∧ t'.family = t.family ∧ t'.slot = t.slot ∧
        t'.generation = t.generation ∧ t'.subjectId = t.subjectId := by
  refine ⟨?_, fun load subset env t' ht' => ?_⟩
  · obtain ⟨f, i, hfound, -⟩ := Control.validateCap_ok hvalid
    obtain ⟨hrights, hsubject, hcreated⟩ := hfound.authority (reachable_inv hs).registry (hunforged hfound.mac)
    exact ⟨f, i, hfound.family, hfound.named, hrights, hcreated, hfound.audience.trans hsubject.symm⟩
  · obtain ⟨entropy, hattenuate⟩ := attenuateCap_token ht'
    obtain ⟨hle, -, hfamily, hruntime, hslot, hgeneration, hrights, -, hsubject, -⟩ := capabilityAttenuate_ok hattenuate
    exact ⟨hrights ▸ hle, hruntime, hfamily, hslot, hgeneration, hsubject⟩

/-- The answers of a system in which nothing fails. -/
def Env.plain : Env := ⟨none, some (0, 0), false, none, none, fun _ _ => .ok [], fun _ bytes => .ok bytes.length, none⟩

set_option maxRecDepth 100000 in
theorem no_rights_amplification_buffer : ∃ (s : State 1) (t : Token),
    Reachable step (State.init 1 1 ⟨1, 2, 3, 4⟩) s ∧ s.control.validateCap 7 1 t .READ = .ok () ∧
      ∃ f i, t.family = f.code ∧ (s.control.slots f i).named t = true ∧ t.rights ≤ (s.control.slots f i).rights := by
  obtain ⟨s, hs, hf⟩ := exists_reachable step (State.init 1 1 ⟨1, 2, 3, 4⟩)
    (fun s => s.minted.map fun t => decide (s.control.validateCap 7 1 t .READ = .ok ()))
    [.op 7 (.registerBuffer [1, 2] (.READ ||| .DESTROY)) (fun _ => 0) .plain] (b := [true]) (by decide +kernel)
  obtain ⟨t, ht, hvalid⟩ := List.map_eq_singleton_iff.mp hf
  have hvalid := of_decide_eq_true hvalid
  obtain ⟨⟨f, i, hfamily, hnamed, hrights, -⟩, -⟩ :=
    no_rights_amplification hs (fun _ => ht ▸ List.mem_singleton_self t) hvalid
  exact ⟨s, t, hs, hvalid, f, i, hfamily, hnamed, hrights⟩

end Llam.Broker
