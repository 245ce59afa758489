import Llam.Broker.Agreement

/-!
# Isolation of subjects

What the broker does for a subject touches only slots of that subject and slots that are free (`exec_touches`), where a
channel that is closed and drained counts as free for a new channel. With `exec_agree` this makes `subject_isolation`: the
objects of other subjects are neither changed nor read. One thing about them does show: how many of their tasks are
pending sleeps (`sleeps_of_others_show`).
-/

namespace Llam.Broker

open Llam.Lib Control

variable {n : Nat}

/-! ## What is touched -/

/-- A slot before and after a step for a subject: the same, a slot of the subject, or a free slot that the subject gets. A
slot that is not empty is free only to a step that recycles. -/
def Touches (recycles : Bool) (subject : UInt64) (f : Family) (x x' : Slot (Body f)) : Prop :=
  x' = x ∨
    (x.active = true ∧ x.subjectId = subject ∨ Control.reusable f x = true ∧ (x.active = true → recycles = true)) ∧
      (x'.active = true → x'.subjectId = subject)

/-- A new channel may take the slot of an old one. -/
def Op.recycles : Op → Bool
  | .createChannel _ _ => true
  | _ => false

def Action.recycles : Action n → Bool
  | .op _ o _ _ => o.recycles
  | _ => false

section Touches

variable {s : State n} {b : Control} {f g : Family} {i j : Fin slotCount} {subject : UInt64} {x : Slot (Body f)}
  {recycles : Bool}

theorem touches_setSlot (h : Touches recycles subject f (b.slots f i) x) (g : Family) (j : Fin slotCount) :
    Touches recycles subject g (b.slots g j) ((b.setSlot f i x).slots g j) := by
  by_cases hsame : g = f ∧ j = i
  · obtain ⟨rfl, rfl⟩ := hsame
    rw [setSlot_self]
    exact h
  · rw [setSlot_of_ne hsame]
    exact .inl rfl

theorem touches_own (hactive : (b.slots f i).active = true) (hsubject : (b.slots f i).subjectId = subject)
    (hx : x.active = true → x.subjectId = subject) (g : Family) (j : Fin slotCount) :
    Touches recycles subject g (b.slots g j) ((b.setSlot f i x).slots g j) :=
  touches_setSlot (.inr ⟨.inl ⟨hactive, hsubject⟩, hx⟩) g j

theorem Control.reusable_of_ne (h : f ≠ .CHANNEL) (x : Slot (Body f)) : Control.reusable f x = !x.active := by
  cases f with
  | CHANNEL => exact absurd rfl h
  | BUFFER | DESCRIPTOR | TASK => rfl

theorem recycles_of_creates {o : Op} {rights : Rights} (hcreates : o.creates = some (f, rights))
    (hfree : Control.reusable f x = true) (hactive : x.active = true) : o.recycles = true := by
  cases o with
  | createChannel => rfl
  | registerBuffer | registerHandle =>
    cases hcreates
    rw [reusable_of_ne (by decide), hactive] at hfree
    cases hfree
  | _ => cases hcreates

theorem effect_touches {load : Nat → UInt64} {o : Op} {token : Option Token}
    (h : s.control.Effect subject load o b token) (hinv : Inv s) (hunforged : o.presents.all s.unforged = true)
    (g : Family) (j : Fin slotCount) : Touches o.recycles subject g (s.control.slots g j) (b.slots g j) := by
  -- the slot that the token finds is the subject's
  have hown : ∀ {f : Family} {i : Fin slotCount} {epoch : UInt64} {t : Token}, o.presents = some t →
      s.control.Found f i subject epoch t →
      (s.control.slots f i).active = true ∧ (s.control.slots f i).subjectId = subject := by
    intro f i epoch t hpresents hfound
    exact ⟨(Slot.named_iff.mp hfound.named).1,
      (hfound.authority hinv.registry (State.mem_minted hunforged hpresents hfound.mac)).2.1⟩
  cases h with
  | same | attenuate => exact .inl rfl
  | rotate hpresents hk hfound | body x hpresents hfound | detach hpresents hfound =>
    obtain ⟨hactive, hsubject⟩ := hown hpresents hfound
    exact touches_own hactive hsubject (by exact fun _ => hsubject) g j
  | create hcreates hfree =>
    exact touches_setSlot (.inr ⟨.inr ⟨hfree, recycles_of_creates hcreates hfree⟩, fun _ => rfl⟩) g j
  | @burn f i rights body hcreates hfree =>
    by_cases hsame : g = f ∧ j = i
    · obtain ⟨rfl, rfl⟩ := hsame
      rw [Control.clearSlot, setSlot_self]
      exact .inr ⟨.inr ⟨hfree, recycles_of_creates hcreates hfree⟩, by intros; contradiction⟩
    · rw [Control.clearSlot, setSlot_of_ne hsame]
      exact .inl (setSlot_of_ne hsame)
  | clear hpresents hfound =>
    obtain ⟨hactive, hsubject⟩ := hown hpresents hfound
    exact touches_own hactive hsubject (by intros; contradiction) g j

theorem Slot.abandoned_subject (x : Slot Task) (h : (Slot.abandoned x).active = true) :
    (Slot.abandoned x).subjectId = x.subjectId := by
  rcases Slot.abandoned_cases x with ⟨-, heq⟩ | ⟨-, heq⟩
  · rw [heq]
  · rw [heq] at h
    cases h

theorem Slot.reclaimed_subject (x : Slot (Body f)) (h : (Slot.reclaimed f x).active = true) :
    (Slot.reclaimed f x).subjectId = x.subjectId := by
  cases f with
  | TASK => exact Slot.abandoned_subject x h
  | BUFFER | DESCRIPTOR | CHANNEL => cases h

theorem Slot.rolledBack_subject (x : Slot (Body f)) (h : (Control.rolledBack f x).active = true) :
    (Control.rolledBack f x).subjectId = x.subjectId := by
  cases f with
  | TASK =>
    have heq : Control.rolledBack .TASK x = Slot.withdrawn x := rfl
    rw [heq] at h ⊢
    rcases Slot.withdrawn_cases x with heq | heq <;> rw [heq] at h ⊢
    exact Slot.abandoned_subject x h
  | BUFFER | DESCRIPTOR | CHANNEL => cases h

theorem exec_touches {a : Action n} {r : State n × Option Outcome} (hinv : Inv s) (hexec : s.exec a = some r)
    (hsubject : a.subject s = some subject) (g : Family) (j : Fin slotCount) :
    Touches a.recycles subject g (s.control.slots g j) (r.1.control.slots g j) := by
  obtain ⟨s', out⟩ := r
  have howned : ∀ {k : Fin n} {c : Call}, s.calls k = some c → (s.calls k).map Call.subject = some subject →
      (s.control.tasks c.index).active = true ∧ (s.control.tasks c.index).subjectId = subject := by
    intro k c hc hsubject
    rw [hc] at hsubject
    exact ⟨(hinv.tasks.call k c hc).active, (hinv.tasks.call k c hc).subject.trans (Option.some.inj hsubject)⟩
  cases State.exec_executes hexec with
  | op hunforged =>
    cases hsubject
    exact effect_touches (perform_effect _) hinv hunforged g j
  | @reserved k _ _ _ _ _ _ i hk hreserve =>
    cases hsubject
    obtain ⟨hfree, -⟩ := spawnReserve_ok hreserve
    have hfree' : Control.reusable .TASK (s.control.slots .TASK i) = true := (Bool.not_eq_true' _).mpr hfree
    refine touches_setSlot (.inr ⟨.inr ⟨hfree', fun hactive => ?_⟩, fun _ => rfl⟩) g j
    cases hactive.symm.trans hfree
  | unissued hc | unstarted hc =>
    obtain ⟨hactive, howner⟩ := howned hc hsubject
    exact touches_own hactive howner (by intros; contradiction) g j
  | computed hc =>
    obtain ⟨hactive, howner⟩ := howned hc hsubject
    rw [setTaskState_setResult]
    exact touches_own hactive howner (by exact fun _ => howner) g j
  | stored hc =>
    obtain ⟨hactive, howner⟩ := howned hc hsubject
    exact touches_own hactive howner (by exact fun _ => howner) g j
  | @fiber p slept y hy =>
    have hfiber := hinv.tasks.fiber y (List.mem_of_getElem? hy)
    obtain rfl : y.subject = subject := by simpa [Action.subject, hy] using hsubject
    unfold State.fiberStep
    split
    · exact touches_own hfiber.active hfiber.subject (by exact fun _ => hfiber.subject) g j
    · dsimp only
      split
      · exact touches_own hfiber.active hfiber.subject (by exact fun _ => hfiber.subject) g j
      · exact .inl rfl
      · exact .inl rfl
    · exact touches_own hfiber.active hfiber.subject (by intros; contradiction) g j
  | @reclaimed f A =>
    cases hsubject
    rcases reclaimSubject_cases (b := s.control) (f := f) g j subject with hsame | ⟨-, hactive, howner, heq⟩
    · exact .inl hsame
    refine .inr ⟨.inl ⟨hactive, howner⟩, fun h => ?_⟩
    rw [heq] at h ⊢
    exact (Slot.reclaimed_subject _ h).trans howner
  | @rolledBack t hknown =>
    cases hsubject
    unfold Control.rollbackToken
    split
    · exact .inl rfl
    rename_i f hf
    split
    · exact .inl rfl
    rename_i i hi
    have hnamed := first_some hi
    have howner := hinv.named_subject (known_iff.mp hknown).1 (Family.ofCode_eq_some.mp hf) hnamed
    exact touches_own (Slot.named_iff.mp hnamed).1 howner (fun h => (Slot.rolledBack_subject _ h).trans howner) g j
  | refused | issued | started | revokedAll => exact .inl rfl

end Touches

/-! ## Isolation -/

/-- The slot holds an object of the subject. -/
def Control.Owns (b : Control) (subject : UInt64) (f : Family) (i : Fin slotCount) : Prop :=
  (b.slots f i).active = true ∧ (b.slots f i).subjectId = subject

/-- The slot holds a channel that is closed and drained. -/
def Control.Drained (b : Control) (f : Family) (i : Fin slotCount) : Prop :=
  f = .CHANNEL ∧ (b.channels i).body.closed = true ∧ (b.channels i).body.count = 0

theorem Control.drained_of_reusable {b : Control} {f : Family} {i : Fin slotCount}
    (h : Control.reusable f (b.slots f i) = true) (hactive : (b.slots f i).active = true) : b.Drained f i := by
  by_cases hf : f = .CHANNEL
  · subst hf
    rw [Control.reusable, hactive, Bool.not_true, Bool.false_or, Bool.and_eq_true, beq_iff_eq] at h
    exact ⟨rfl, h⟩
  · rw [reusable_of_ne hf, hactive] at h
    cases h

instance : Fintype Family := ⟨{.BUFFER, .DESCRIPTOR, .CHANNEL, .TASK}, fun f => by cases f <;> decide⟩

instance (b : Control) (subject : UInt64) (f : Family) (i : Fin slotCount) : Decidable (b.Owns subject f i) :=
  inferInstanceAs (Decidable (_ ∧ _))

theorem subject_isolation {runtimeId : UInt64} {key : Key} {s s' : State n}
    (hs : Reachable step (State.init n runtimeId key) s) {a : Action n} {out : Option Outcome}
    (hexec : s.exec a = some (s', out)) {A B : UInt64} (hsubject : a.subject s = some A) (hAB : A ≠ B) :
    (∀ f i, s.control.Owns B f i ∨ s'.control.Owns B f i →
      s'.control.slots f i = s.control.slots f i ∨ a.recycles = true ∧ s.control.Drained f i) ∧
    ∀ s₂ s₂' out₂, Reachable step (State.init n runtimeId key) s₂ → Agree A s s₂ →
      s.control.longSleepTaskCount = s₂.control.longSleepTaskCount → s₂.exec a = some (s₂', out₂) → out = out₂ := by
  have hinv := reachable_inv hs
  refine ⟨fun f i howns => ?_, fun s₂ s₂' out₂ hs₂ hagree hsleeps hexec₂ => ?_⟩
  · rcases exec_touches hinv hexec hsubject f i with hsame | ⟨hold, hnew⟩
    · exact .inl hsame
    rcases howns with ⟨hactive, hB⟩ | ⟨hactive, hB⟩
    · rcases hold with ⟨-, hown⟩ | ⟨hfree, hrecycles⟩
      · exact absurd (hown.symm.trans hB) hAB
      · exact .inr ⟨hrecycles hactive, drained_of_reusable hfree hactive⟩
    · exact absurd ((hnew hactive).symm.trans hB) hAB
  · exact exec_agree hagree hinv (reachable_inv hs₂) hsleeps hexec hexec₂ hsubject

set_option maxRecDepth 100000 in
theorem subject_isolation_buffers : ∃ s s' : State 1, s.control.Owns 2 .BUFFER 0 ∧
    step s (.op 1 (.registerBuffer [7] .READ) (fun _ => 0) .plain) = some s' ∧
    s'.control.slots .BUFFER 0 = s.control.slots .BUFFER 0 := by
  obtain ⟨s, hs, h⟩ := exists_reachable step (State.init 1 1 ⟨1, 2, 3, 4⟩)
    (fun s => decide (s.control.Owns 2 .BUFFER 0 ∧
      (s.exec (.op 1 (.registerBuffer [7] .READ) (fun _ => 0) .plain)).isSome))
    [.op 2 (.registerBuffer [1, 2] .READ) (fun _ => 0) .plain] (b := true) (by decide +kernel)
  obtain ⟨howns, hsome⟩ := of_decide_eq_true h
  obtain ⟨⟨s', out⟩, hexec⟩ := Option.isSome_iff_exists.mp hsome
  have hisolated := (subject_isolation hs hexec rfl (by decide : (1 : UInt64) ≠ 2)).1 .BUFFER 0 (.inl howns)
  refine ⟨s, s', howns, congrArg (Option.map Prod.fst) hexec, hisolated.resolve_right ?_⟩
  rintro ⟨-, hdrained, -⟩
  cases hdrained

/-- Subject 1 has nothing, and 16 tasks are all that the broker has. -/
def State.Sixteen (s : State 1) : Prop :=
  (s.control.runtimeId = 1 ∧ s.control.key = ⟨1, 2, 3, 4⟩ ∧ s.control.epoch = 1) ∧
    (∀ f, s.control.next f = (if f = .TASK then 17 else 1) ∧ s.control.inUse f = (if f = .TASK then 16 else 0)) ∧
    (∀ f i, ¬ s.control.Owns 1 f i) ∧ s.calls 0 = none

instance (s : State 1) : Decidable s.Sixteen := inferInstanceAs (Decidable (_ ∧ _ ∧ _ ∧ _))

theorem State.Sixteen.agree {s₁ s₂ : State 1} (h₁ : s₁.Sixteen) (h₂ : s₂.Sixteen) : Agree 1 s₁ s₂ := by
  obtain ⟨⟨hruntime₁, hkey₁, hepoch₁⟩, hcount₁, hnone₁, hcall₁⟩ := h₁
  obtain ⟨⟨hruntime₂, hkey₂, hepoch₂⟩, hcount₂, hnone₂, hcall₂⟩ := h₂
  refine ⟨hruntime₁.trans hruntime₂.symm, hkey₁.trans hkey₂.symm, hepoch₁.trans hepoch₂.symm,
    funext fun f => (hcount₁ f).1.trans (hcount₂ f).1.symm, fun f x hactive hsubject => ?_, fun k => ?_,
    fun f => (hcount₁ f).2.trans (hcount₂ f).2.symm⟩
  · constructor
    · rintro ⟨i, rfl⟩
      exact absurd ⟨hactive, hsubject⟩ (hnone₁ f i)
    · rintro ⟨i, rfl⟩
      exact absurd ⟨hactive, hsubject⟩ (hnone₂ f i)
  · obtain rfl : k = 0 := Subsingleton.elim k 0
    rw [State.ownCall, State.ownCall, hcall₁, hcall₂]
    rfl

/-- Subject 1 starts a sleep. -/
def startSleep : Action 1 := .spawn 0 1 4 5 .JOIN .plain

set_option maxRecDepth 100000 in
theorem sleeps_of_others_show : ∃ s₁ s₂ : State 1, Reachable step (State.init 1 1 ⟨1, 2, 3, 4⟩) s₁ ∧
    Reachable step (State.init 1 1 ⟨1, 2, 3, 4⟩) s₂ ∧ Agree 1 s₁ s₂ ∧
    (s₁.exec startSleep).map Prod.snd = some (some (.fail .ENOSPC)) ∧
    (s₂.exec startSleep).map Prod.snd = some none := by
  obtain ⟨s₁, hs₁, h₁⟩ := exists_reachable step (State.init 1 1 ⟨1, 2, 3, 4⟩)
    (fun s => decide (s.Sixteen ∧ (s.exec startSleep).map Prod.snd = some (some (.fail .ENOSPC))))
    (List.replicate 16 [.spawn 0 2 4 5 .JOIN .plain, .issue 0 (fun _ => 0) .plain, .finish 0 (.ok 0), .store 0]).flatten
    (b := true) (by decide +kernel)
  obtain ⟨s₂, hs₂, h₂⟩ := exists_reachable step (State.init 1 1 ⟨1, 2, 3, 4⟩)
    (fun s => decide (s.Sixteen ∧ (s.exec startSleep).map Prod.snd = some none))
    (List.replicate 16 [.spawn 0 2 1 5 .JOIN .plain, .issue 0 (fun _ => 0) .plain, .finish 0 (.ok 0)]).flatten
    (b := true) (by decide +kernel)
  obtain ⟨hsixteen₁, hr₁⟩ := of_decide_eq_true h₁
  obtain ⟨hsixteen₂, hr₂⟩ := of_decide_eq_true h₂
  exact ⟨s₁, s₂, hs₁, hs₂, hsixteen₁.agree hsixteen₂, hr₁, hr₂⟩

end Llam.Broker
