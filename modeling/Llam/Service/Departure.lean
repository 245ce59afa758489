import Llam.Broker.Isolation
import Llam.Service.Batches
import Llam.Service.Calls

/-!
# Objects of a subject that is gone

What is left of a subject in a table after a reclaim (`Control.Clean`): nothing, apart from tasks that their trampolines
still run. No step brings more, unless it is one for the subject itself (`exec_clean`).
-/

namespace Llam.Service

open Llam.Lib Llam.Broker Llam.Ring

variable {n : Nat}

/-- A task that waits for its trampoline and for nobody else. -/
def Left : (f : Family) → Slot (Body f) → Prop
  | .TASK, x => x.body.state = .DETACHED ∧ x.rights = ⊥
  | _, _ => False

/-- Nothing of the subject is in the table, apart from tasks that are left to their trampolines. -/
def Clean (b : Control) (A : UInt64) (f : Family) : Prop :=
  ∀ i, (b.slots f i).active = true → (b.slots f i).subjectId = A → Left f (b.slots f i)

section Clean

variable {b b' : Control} {f g : Family} {A B : UInt64} {i : Fin slotCount} {s s' : State n} {out : Option Outcome}

/-- What a slot comes to that is taken from its owner. -/
theorem left_abandoned (x : Slot Task) (h : (Slot.abandoned x).active = true) : Left .TASK (Slot.abandoned x) := by
  rcases Slot.abandoned_cases x with ⟨-, heq⟩ | ⟨-, heq⟩
  · rw [heq]
    exact ⟨rfl, rfl⟩
  · rw [heq] at h
    cases h

theorem left_reclaimed (x : Slot (Body f)) (h : (Slot.reclaimed f x).active = true) : Left f (Slot.reclaimed f x) := by
  cases f with
  | TASK => exact left_abandoned x h
  | BUFFER | DESCRIPTOR | CHANNEL => cases h

/-- Slots stay as they are, go to other subjects, or are left. -/
theorem Clean.step (h : Clean b A f) (hslots : ∀ i, b'.slots f i = b.slots f i ∨
    ((b'.slots f i).active = true → (b'.slots f i).subjectId = A → Left f (b'.slots f i))) : Clean b' A f := by
  intro i hactive hsubject
  rcases hslots i with heq | hleft
  · rw [heq] at hactive hsubject ⊢
    exact h i hactive hsubject
  · exact hleft hactive hsubject

/-- **A reclaim** leaves the table clean. -/
theorem reclaim_clean (hA : A ≠ 0) (hexec : s.exec (.reclaim f A) = some (s', out)) : Clean s'.control A f := by
  cases State.exec_executes hexec
  intro i hactive hsubject
  rcases reclaimSubject_self s.control f i hA with ⟨hsame, hother⟩ | hreclaimed
  · rw [hsame] at hactive hsubject
    exact absurd hsubject (hother hactive)
  · rw [hreclaimed] at hactive ⊢
    exact left_reclaimed _ hactive

theorem Clean.reclaim (h : Clean s.control A g) (hexec : s.exec (.reclaim f B) = some (s', out)) : Clean s'.control A g := by
  cases State.exec_executes hexec
  refine h.step fun i => ?_
  rcases Control.reclaimSubject_cases (b := s.control) (f := f) g i B with hsame | ⟨-, -, -, hreclaimed⟩
  · exact .inl hsame
  refine .inr fun hactive _ => ?_
  rw [hreclaimed] at hactive ⊢
  exact left_reclaimed _ hactive

theorem Clean.rollback (h : Clean s.control A f) {t : Token} (hexec : s.exec (.rollback t) = some (s', out)) :
    Clean s'.control A f := by
  cases State.exec_executes hexec
  unfold Control.rollbackToken
  split
  · exact h
  rename_i g hg
  split
  · exact h
  rename_i i hi
  refine h.step fun j => ?_
  by_cases hsame : f = g ∧ j = i
  · obtain ⟨rfl, rfl⟩ := hsame
    rw [Control.setSlot_self]
    cases f with
    | TASK =>
      have hrolled : Control.rolledBack .TASK (s.control.slots .TASK j) = Slot.withdrawn (s.control.slots .TASK j) := rfl
      rw [hrolled]
      rcases Slot.withdrawn_cases (s.control.slots .TASK j) with heq | heq
      · rw [heq]
        exact .inr fun hactive _ => left_abandoned _ hactive
      · exact .inl heq
    | BUFFER | DESCRIPTOR | CHANNEL => exact .inr (by intros; contradiction)
  · exact .inl (Control.setSlot_of_ne hsame)

theorem Clean.fiber (h : Clean s.control A f) (hinv : Inv s) {p : Nat} {slept : Option Errno}
    (hexec : s.exec (.fiber p slept) = some (s', out)) : Clean s'.control A f := by
  cases State.exec_executes hexec
  rename_i y hy
  -- the slot of the trampoline: a detached task stays detached, or its slot is free
  have hslot : ∀ (x : Slot Task), (x.active = true → x.subjectId = (s.control.tasks y.index).subjectId ∧
      (s.control.tasks y.index).active = true ∧ (Left .TASK (s.control.tasks y.index) → Left .TASK x)) →
      Clean (s.control.setSlot .TASK y.index x) A f := by
    intro x hx
    refine h.step fun j => ?_
    by_cases hsame : f = .TASK ∧ j = y.index
    · obtain ⟨rfl, rfl⟩ := hsame
      rw [Control.setSlot_self]
      refine .inr fun hactive hsubject => ?_
      obtain ⟨hsubject', hactive', hleft⟩ := hx hactive
      exact hleft (h y.index hactive' (hsubject'.symm.trans hsubject))
    · exact .inl (Control.setSlot_of_ne hsame)
  have hfiber := hinv.tasks.fiber y (List.mem_of_getElem? hy)
  unfold State.fiberStep
  split
  · exact hslot _ fun hactive => ⟨rfl, hactive, fun h => h⟩
  · dsimp only
    split
    · rename_i hspawned
      refine hslot _ fun hactive => ⟨rfl, hactive, fun hleft => ?_⟩
      cases hspawned.symm.trans hleft.1
    · exact h
    · exact h
  · exact hslot _ nofun

/-- **Steps for others** keep tables clean. -/
theorem exec_clean (h : Clean s.control A f) (hinv : Inv s) {a : Action n} (hexec : s.exec a = some (s', out))
    (hother : ofCall a = true ∨ (∃ B o overtakes env, a = .op B o overtakes env) → a.subject s ≠ some A) :
    Clean s'.control A f := by
  have htouches : ∀ {B : UInt64}, a.subject s = some B → B ≠ A → Clean s'.control A f := by
    intro B hsubject hne
    refine h.step fun i => ?_
    rcases exec_touches hinv hexec hsubject f i with hsame | ⟨-, howns⟩
    · exact .inl hsame
    · exact .inr fun hactive hA => absurd ((howns hactive).symm.trans hA) hne
  have hcall : ∀ k, ofThread k a = true → a.subject s = (s.calls k).map Call.subject → ofCall a = true →
      Clean s'.control A f := by
    intro k hthread hsubject hofCall
    obtain ⟨c, hc, -⟩ := exec_thread_calls hthread hexec
    rw [hc] at hsubject
    exact htouches hsubject fun heq => hother (.inl hofCall) (hsubject.trans (congrArg some heq))
  cases a with
  | op B o overtakes env =>
    exact htouches rfl fun heq => hother (.inr ⟨B, o, overtakes, env, rfl⟩) (congrArg some heq)
  | spawn k B code arg0 rights env => exact htouches rfl fun heq => hother (.inl rfl) (congrArg some heq)
  | issue k | finish k | store k => exact hcall k (beq_self_eq_true k) rfl rfl
  | fiber p slept => exact h.fiber hinv hexec
  | revokeAll =>
    cases hexec
    exact h
  | reclaim g B => exact h.reclaim hexec
  | rollback t => exact h.rollback hexec

end Clean

end Llam.Service
