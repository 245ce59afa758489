import Llam.Broker.Authority

/-!
# What a result depends on

Two states look the same to a subject if it has the same objects in both, in whichever slots, and as many slots are in use
(`Agree`). A step for the subject returns the same in both (`exec_agree`), if in addition as many sleeps are pending.
-/

namespace Llam.Broker

open Llam.Lib Control

variable {n : Nat}

/-! ## Agreement -/

/-- The number of slots in use. -/
def Control.inUse (b : Control) (f : Family) : Nat :=
  (List.finRange slotCount).countP fun i => !Control.reusable f (b.slots f i)

/-- What a subject's own spawn on a thread is about: the call, whatever its slot, and the contents of the slot. -/
def State.ownCall (s : State n) (A : UInt64) (k : Fin n) : Option (Call × Slot Task) :=
  (s.calls k).bind fun c => if c.subject = A then some ({ c with index := 0 }, s.control.tasks c.index) else none

/-- The states look the same to subject `A`: it has the same objects, in whichever slots, and as many slots are in use. -/
structure Agree (A : UInt64) (s₁ s₂ : State n) : Prop where
  runtimeId : s₁.control.runtimeId = s₂.control.runtimeId
  key : s₁.control.key = s₂.control.key
  epoch : s₁.control.epoch = s₂.control.epoch
  next : s₁.control.next = s₂.control.next
  own : ∀ (f : Family) (x : Slot (Body f)), x.active = true → x.subjectId = A →
    ((∃ i, s₁.control.slots f i = x) ↔ ∃ i, s₂.control.slots f i = x)
  calls : ∀ k, s₁.ownCall A k = s₂.ownCall A k
  inUse : ∀ f, s₁.control.inUse f = s₂.control.inUse f

section Agree

variable {s₁ s₂ : State n} {A : UInt64} {f : Family} {t : Token} {required : Rights}

theorem Agree.symm (h : Agree A s₁ s₂) : Agree A s₂ s₁ :=
  ⟨h.runtimeId.symm, h.key.symm, h.epoch.symm, h.next.symm, fun f x hactive hsubject => (h.own f x hactive hsubject).symm,
    fun k => (h.calls k).symm, fun f => (h.inUse f).symm⟩

theorem Control.first_isSome {b : Control} {p : Slot (Body f) → Bool} :
    (b.first f p).isSome = true ↔ ∃ i, p (b.slots f i) = true := by
  unfold Control.first
  rw [List.find?_isSome]
  exact ⟨fun ⟨i, _, hi⟩ => ⟨i, hi⟩, fun ⟨i, hi⟩ => ⟨i, List.mem_finRange i, hi⟩⟩

theorem Control.first_reusable {b : Control} :
    (b.first f (Control.reusable f)).isSome = true ↔ b.inUse f ≠ slotCount := by
  have hfull : b.inUse f = slotCount ↔ ∀ i, (!Control.reusable f (b.slots f i)) = true := by
    have := List.countP_eq_length (p := fun i => !Control.reusable f (b.slots f i)) (l := List.finRange slotCount)
    exact this.trans ⟨fun h i => h i (List.mem_finRange i), fun h i _ => h i⟩
  rw [first_isSome, Ne, hfull, not_forall]
  simp

theorem Agree.room (h : Agree A s₁ s₂) (f : Family) :
    (s₁.control.first f (Control.reusable f)).isSome = (s₂.control.first f (Control.reusable f)).isSome := by
  rw [Bool.eq_iff_iff, first_reusable, first_reusable, h.inUse f]

theorem Agree.named (h : Agree A s₁ s₂) (hinv₁ : Inv s₁) (ht₁ : t ∈ s₁.minted) (hfamily : t.family = f.code)
    (hsubject : t.subjectId = A) {i : Fin slotCount} (hi : (s₁.control.slots f i).named t = true) :
    ∃ j, s₂.control.slots f j = s₁.control.slots f i :=
  (h.own f _ (Slot.named_iff.mp hi).1 ((hinv₁.named_subject ht₁ hfamily hi).trans hsubject)).mp ⟨i, rfl⟩

/-- A lookup fails in both states or finds the same object in both. -/
def FindsSame (b₁ b₂ : Control) (f : Family) (A epoch : UInt64) (t : Token) (required : Rights) : Prop :=
  (∃ e, b₁.findObject f A epoch t required = .error e ∧ b₂.findObject f A epoch t required = .error e) ∨
    ∃ i j, b₁.findObject f A epoch t required = .ok i ∧ b₂.findObject f A epoch t required = .ok j ∧
      b₁.slots f i = b₂.slots f j ∧ (b₁.slots f i).named t = true

theorem Agree.first (h : Agree A s₁ s₂) (hinv₁ : Inv s₁) (hinv₂ : Inv s₂) (ht₁ : t ∈ s₁.minted) (ht₂ : t ∈ s₂.minted)
    (hfamily : t.family = f.code) (hsubject : t.subjectId = A) :
    (s₁.control.first f (fun s => s.named t) = none ∧ s₂.control.first f (fun s => s.named t) = none) ∨
    ∃ i j, s₁.control.first f (fun s => s.named t) = some i ∧ s₂.control.first f (fun s => s.named t) = some j ∧
      s₁.control.slots f i = s₂.control.slots f j ∧ (s₁.control.slots f i).named t = true := by
  cases hi : s₁.control.first f fun s => s.named t with
  | none =>
    cases hj : s₂.control.first f fun s => s.named t with
    | none => exact .inl ⟨rfl, rfl⟩
    | some j =>
      -- what is found in the second state would be found in the first
      obtain ⟨i, hslot⟩ := h.symm.named hinv₂ ht₂ hfamily hsubject (first_some hj)
      have hnone := first_none hi i
      have hnamed := first_some hj
      rw [← hslot, hnone] at hnamed
      cases hnamed
  | some i =>
    obtain ⟨j, hslot⟩ := h.named hinv₁ ht₁ hfamily hsubject (first_some hi)
    have hnamed := first_some hi
    cases hj : s₂.control.first f fun s => s.named t with
    | none =>
      have hnone := first_none hj j
      rw [hslot, hnamed] at hnone
      cases hnone
    | some j' =>
      obtain rfl : j' = j := hinv₂.slot_eq (first_some hj) (hslot ▸ hnamed)
      exact .inr ⟨i, j', rfl, rfl, hslot.symm, hnamed⟩

variable (h : Agree A s₁ s₂) (hinv₁ : Inv s₁) (hinv₂ : Inv s₂)
  (ht₁ : t.mac = capMac s₁.control.key t → t ∈ s₁.minted) (ht₂ : t.mac = capMac s₂.control.key t → t ∈ s₂.minted)
include h hinv₁ hinv₂ ht₁ ht₂

theorem Agree.validateCap (epoch : UInt64) :
    s₁.control.validateCap A epoch t required = s₂.control.validateCap A epoch t required := by
  unfold Control.validateCap
  split
  · rfl
  rw [h.key, h.runtimeId]
  split
  · rfl
  rename_i hvalid
  obtain ⟨-, -, -, -, hsubject, hmac⟩ := validateSubject_ok hvalid
  have hmac₁ := ht₁ (h.key ▸ hmac)
  have hmac₂ := ht₂ hmac
  split
  · rfl
  unfold Control.validateLiveObject
  split
  · rfl
  rename_i f hf
  have hfamily := Family.ofCode_eq_some.mp hf
  have hsame : (s₁.control.first f fun s => s.named t && decide (required ≤ s.rights)).isSome =
      (s₂.control.first f fun s => s.named t && decide (required ≤ s.rights)).isSome := by
    rw [Bool.eq_iff_iff, first_isSome, first_isSome]
    constructor
    · rintro ⟨i, hi⟩
      obtain ⟨j, hj⟩ := h.named hinv₁ hmac₁ hfamily hsubject (Bool.and_eq_true .. ▸ hi).1
      exact ⟨j, hj ▸ hi⟩
    · rintro ⟨i, hi⟩
      obtain ⟨j, hj⟩ := h.symm.named hinv₂ hmac₂ hfamily hsubject (Bool.and_eq_true .. ▸ hi).1
      exact ⟨j, hj ▸ hi⟩
  rw [hsame]

theorem Agree.findObject (f : Family) (required : Rights) (epoch : UInt64) :
    FindsSame s₁.control s₂.control f A epoch t required := by
  unfold FindsSame Control.findObject
  rw [h.validateCap hinv₁ hinv₂ ht₁ ht₂ epoch]
  split
  · rename_i e _
    exact .inl ⟨e, rfl, rfl⟩
  rename_i hvalid
  obtain ⟨_, _, hfound, -⟩ := validateCap_ok hvalid
  have hmac₁ := ht₁ (h.key ▸ hfound.mac)
  have hmac₂ := ht₂ hfound.mac
  split
  · exact .inl ⟨_, rfl, rfl⟩
  rename_i hfamily
  rw [not_not] at hfamily
  rcases h.first hinv₁ hinv₂ hmac₁ hmac₂ hfamily hfound.audience with ⟨hi, hj⟩ | ⟨i, j, hi, hj, hslot, hnamed⟩
  · rw [hi, hj]
    exact .inl ⟨_, rfl, rfl⟩
  rw [hi, hj]
  dsimp only
  rw [hslot]
  split
  · exact .inr ⟨i, j, rfl, rfl, hslot, hslot ▸ hnamed⟩
  · exact .inl ⟨_, rfl, rfl⟩

end Agree

/-! ## Operations agree -/

section Operations

variable {s₁ s₂ : State n} {A : UInt64} {f : Family} {t : Token} {env : Env} {load : Nat → UInt64}

variable {epoch : UInt64} {rights : Rights} {entropy : Option (UInt64 × UInt64)} {i : Fin slotCount}

section

variable (h : Agree A s₁ s₂)

include h

theorem Agree.issueObjectCap {id generation : UInt64} :
    s₁.control.issueObjectCap f A epoch id generation rights entropy =
      s₂.control.issueObjectCap f A epoch id generation rights entropy := by
  unfold Control.issueObjectCap
  rw [h.key, h.runtimeId]

theorem Agree.createObject {body : Body f} :
    (s₁.control.createObject f body A epoch rights entropy).2 = (s₂.control.createObject f body A epoch rights entropy).2 := by
  have hroom := h.room f
  unfold Control.createObject
  rw [h.next, h.issueObjectCap]
  cases hi : s₁.control.first f (Control.reusable f) with
  | none =>
    rw [hi] at hroom
    rw [Option.isSome_eq_false_iff.mp hroom.symm |> Option.isNone_iff_eq_none.mp]
  | some i =>
    rw [hi] at hroom
    obtain ⟨j, hj⟩ := Option.isSome_iff_exists.mp hroom.symm
    rw [hj]
    dsimp only
    split
    · rfl
    · split <;> rfl

theorem Agree.rotate {j : Fin slotCount} (hslot : s₁.control.slots f i = s₂.control.slots f j) :
    (s₁.control.rotate f i A epoch t rights entropy).2 = (s₂.control.rotate f j A epoch t rights entropy).2 := by
  unfold Control.rotate
  rw [hslot]
  dsimp only
  rw [h.issueObjectCap]
  split
  · rfl
  split
  · rfl
  split
  · rfl
  split <;> rfl

theorem Agree.revokeDescriptor (hinv₁ : Inv s₁) (hinv₂ : Inv s₂) (ht₁ : t ∈ s₁.minted)
    (ht₂ : t ∈ s₂.minted) (hfamily : t.family = Family.DESCRIPTOR.code) (hsubject : t.subjectId = A) :
    (s₁.control.revokeDescriptor A load t rights env.entropy).2 =
      (s₂.control.revokeDescriptor A load t rights env.entropy).2 := by
  unfold Control.revokeDescriptor
  rcases h.first hinv₁ hinv₂ ht₁ ht₂ hfamily hsubject with ⟨hi, hj⟩ | ⟨i, j, hi, hj, hslot, -⟩
  · rw [hi, hj]
  rw [hi, hj]
  dsimp only
  rw [hslot]
  split
  · rfl
  · exact h.rotate hslot

end

theorem FindsSame.duplicateDescriptor {b₁ b₂ : Control} {required : Rights}
    (hfind : FindsSame b₁ b₂ .DESCRIPTOR A epoch t required) :
    b₁.duplicateDescriptor A epoch t required env = b₂.duplicateDescriptor A epoch t required env := by
  unfold Control.duplicateDescriptor
  rcases hfind with ⟨e, h₁, h₂⟩ | ⟨i, j, h₁, h₂, hslot, -⟩
  · rw [h₁, h₂]
    cases env.refused <;> rfl
  have hdescriptor : b₁.descriptors i = b₂.descriptors j := hslot
  rw [h₁, h₂]
  cases env.refused with
  | none => dsimp only; rw [hdescriptor]
  | some e => rfl

theorem Inv.sleep_of_live {s : State n} (hinv : Inv s) (ht : t ∈ s.minted)
    (hknown : ∀ k, (s.calls k).bind Call.token ≠ some t) (hfamily : t.family = Family.TASK.code)
    (hnamed : (s.control.slots .TASK i).named t = true) (hspawned : (s.control.tasks i).body.state = .SPAWNED) :
    (s.control.tasks i).body.kind = some .SLEEP_NS_RETURN_U64 := by
  obtain ⟨hactive, hid, -⟩ := Slot.named_iff.mp hnamed
  rcases hinv.tasks.sleeping i hactive hspawned with hsleep | ⟨k, c, hc, hindex⟩
  · exact hsleep
  · exact absurd hindex (hinv.tasks.index_ne ht hfamily hknown hid hc)

theorem driveAllowed_value {s : State n} (hinv : Inv s) (ht : t ∈ s.minted)
    (hknown : ∀ k, (s.calls k).bind Call.token ≠ some t) (hfamily : t.family = Family.TASK.code)
    (hnamed : (s.control.slots .TASK i).named t = true) : (if (s.control.tasks i).body.state ≠ .SPAWNED ∨
        ((s.control.tasks i).body.kind ≠ some .SLEEP_NS_RETURN_U64 ∧ !s.control.hasPendingSleepTask) then (1 : UInt64)
      else 0) = if (s.control.tasks i).body.state ≠ .SPAWNED then 1 else 0 := by
  by_cases hspawned : (s.control.tasks i).body.state = .SPAWNED
  · have hkind := hinv.sleep_of_live ht hknown hfamily hnamed hspawned
    simp [hspawned, hkind]
  · simp [hspawned]

variable (h : Agree A s₁ s₂)

include h

theorem Agree.perform (hinv₁ : Inv s₁) (hinv₂ : Inv s₂) {o : Op}
    (hu₁ : o.presents.all s₁.unforged = true) (hu₂ : o.presents.all s₂.unforged = true) :
    (s₁.control.perform A load o env).2 = (s₂.control.perform A load o env).2 := by
  have hvalid : ∀ {t : Token} {required : Rights} (epoch : UInt64), o.presents = some t →
      s₁.control.validateCap A epoch t required = s₂.control.validateCap A epoch t required := fun epoch ht =>
    h.validateCap hinv₁ hinv₂ (State.mem_minted hu₁ ht) (State.mem_minted hu₂ ht) epoch
  have hfind : ∀ {t : Token} (f : Family) (required : Rights) (epoch : UInt64), o.presents = some t →
      FindsSame s₁.control s₂.control f A epoch t required := fun f required epoch ht =>
    h.findObject hinv₁ hinv₂ (State.mem_minted hu₁ ht) (State.mem_minted hu₂ ht) f required epoch
  cases o with
  | validate t required =>
    simp only [Control.perform, Control.validate]
    rw [hvalid (load 0) rfl]
  | attenuate t subset =>
    simp only [Control.perform, Control.attenuateCap]
    rw [hvalid (load 0) rfl, h.key]
  | revoke t replacement =>
    have hfound : ∀ f, (s₁.control.revokeFound f A load t replacement env.entropy).2 =
        (s₂.control.revokeFound f A load t replacement env.entropy).2 := by
      intro f
      unfold Control.revokeFound
      rcases hfind f .DESTROY (load 1) rfl with ⟨e, h₁, h₂⟩ | ⟨i, j, h₁, h₂, hslot, -⟩
      · rw [h₁, h₂]
      · rw [h₁, h₂]
        exact h.rotate hslot
    simp only [Control.perform, Control.revokeObjectCap]
    rw [hvalid (load 0) rfl]
    split
    · rfl
    split
    · rfl
    · rfl
    rename_i hok
    split
    · exact hfound .BUFFER
    · rename_i hfamily
      obtain ⟨_, _, hfound₂, -⟩ := validateCap_ok hok
      exact h.revokeDescriptor hinv₁ hinv₂ (State.mem_minted hu₁ rfl (h.key ▸ hfound₂.mac))
        (State.mem_minted hu₂ rfl hfound₂.mac) (Family.ofCode_eq_some.mp hfamily) hfound₂.audience
    · exact hfound .CHANNEL
    · rfl
  | registerBuffer data rights | registerHandle handle rights closeOnDestroy | createChannel capacity rights =>
    simp only [Control.perform, Control.registerBuffer, Control.registerHandle, Control.createChannel]
    split
    · rfl
    split <;> first | rfl | exact h.createObject
  | readBuffer t offset length =>
    simp only [Control.perform, Control.readBuffer]
    rcases hfind .BUFFER .READ (load 0) rfl with ⟨e, h₁, h₂⟩ | ⟨i, j, h₁, h₂, hslot, -⟩
    · rw [h₁, h₂]
      cases env.refused <;> rfl
    have hbuffer : s₁.control.buffers i = s₂.control.buffers j := hslot
    rw [h₁, h₂]
    cases env.refused with
    | none => dsimp only; rw [hbuffer]
    | some e => rfl
  | writeBuffer t offset bytes =>
    simp only [Control.perform, Control.writeBuffer]
    rcases hfind .BUFFER .WRITE (load 0) rfl with ⟨e, h₁, h₂⟩ | ⟨i, j, h₁, h₂, hslot, -⟩
    · rw [h₁, h₂]
      split
      · rfl
      · cases env.refused <;> rfl
    have hbuffer : s₁.control.buffers i = s₂.control.buffers j := hslot
    rw [h₁, h₂]
    split
    · rfl
    cases env.refused with
    | none =>
      dsimp only
      rw [hbuffer]
      split <;> rfl
    | some e => rfl
  | readHandle t length =>
    simp only [Control.perform, Control.readHandle]
    rw [(hfind .DESCRIPTOR .READ (load 0) rfl).duplicateDescriptor]
  | writeHandle t bytes =>
    simp only [Control.perform, Control.writeHandle]
    rw [(hfind .DESCRIPTOR .WRITE (load 0) rfl).duplicateDescriptor]
  | channelSend t bytes =>
    simp only [Control.perform, Control.channelSend]
    rcases hfind .CHANNEL .SEND (load 0) rfl with ⟨e, h₁, h₂⟩ | ⟨i, j, h₁, h₂, hslot, -⟩
    · rw [h₁, h₂]
      split
      · rfl
      · cases env.refused <;> rfl
    have hchannel : s₁.control.channels i = s₂.control.channels j := hslot
    rw [h₁, h₂]
    split
    · rfl
    cases env.refused with
    | none =>
      dsimp only
      rw [hchannel]
      split
      · rfl
      · split <;> rfl
    | some e => rfl
  | channelRecv t capacity =>
    simp only [Control.perform, Control.channelRecv]
    rcases hfind .CHANNEL .RECV (load 0) rfl with ⟨e, h₁, h₂⟩ | ⟨i, j, h₁, h₂, hslot, -⟩
    · rw [h₁, h₂]
      split
      · rfl
      · cases env.refused <;> rfl
    have hchannel : s₁.control.channels i = s₂.control.channels j := hslot
    rw [h₁, h₂]
    split
    · rfl
    cases env.refused with
    | none =>
      dsimp only
      rw [hchannel]
      split
      · rfl
      · split <;> rfl
    | some e => rfl
  | channelClose t =>
    simp only [Control.perform, Control.channelClose]
    rcases hfind .CHANNEL .CLOSE (load 0) rfl with ⟨e, h₁, h₂⟩ | ⟨i, j, h₁, h₂, -⟩
    all_goals
      rw [h₁, h₂]
      cases env.refused <;> rfl
  | driveAllowed t =>
    simp only [Control.perform, Control.driveAllowed, Control.findTask]
    rcases hfind .TASK .JOIN (load 0) rfl with ⟨e, h₁, h₂⟩ | ⟨i, j, h₁, h₂, hslot, hnamed⟩
    · rw [h₁, h₂]
      cases env.refused <;> rfl
    have hfound := (findObject_ok h₁).1
    have hfound₂ := (findObject_ok h₂).1
    obtain ⟨hminted₁, hknown₁⟩ := presents_known hu₁ rfl hfound.mac
    obtain ⟨hminted₂, hknown₂⟩ := presents_known hu₂ rfl hfound₂.mac
    have hvalue := driveAllowed_value hinv₁ hminted₁ hknown₁ hfound.family hnamed
    have hvalue₂ := driveAllowed_value hinv₂ hminted₂ hknown₂ hfound.family (hslot ▸ hnamed)
    have htask : s₁.control.tasks i = s₂.control.tasks j := hslot
    rw [h₁, h₂]
    cases env.refused with
    | none =>
      dsimp only
      rw [hvalue, hvalue₂, htask]
    | some e => rfl
  | joinTask t =>
    simp only [Control.perform, Control.joinTask, Control.findTask]
    rcases hfind .TASK .JOIN (load 0) rfl with ⟨e, h₁, h₂⟩ | ⟨i, j, h₁, h₂, hslot, -⟩
    · rw [h₁, h₂]
      cases env.refused <;> rfl
    have htask : s₁.control.tasks i = s₂.control.tasks j := hslot
    rw [h₁, h₂]
    cases env.refused with
    | none =>
      dsimp only
      rw [htask]
      split
      · rfl
      · split <;> rfl
    | some e => rfl
  | detachTask t =>
    simp only [Control.perform, Control.detachTask, Control.findTask]
    rcases hfind .TASK .DETACH (load 0) rfl with ⟨e, h₁, h₂⟩ | ⟨i, j, h₁, h₂, hslot, -⟩
    · rw [h₁, h₂]
      cases env.refused <;> rfl
    have htask : s₁.control.tasks i = s₂.control.tasks j := hslot
    rw [h₁, h₂]
    cases env.refused with
    | none =>
      dsimp only
      rw [htask]
      split
      · rfl
      · split <;> rfl
      · rfl
    | some e => rfl

theorem Agree.subjectTaskCount (hinv₁ : Inv s₁) (hinv₂ : Inv s₂) :
    s₁.control.subjectTaskCount A = s₂.control.subjectTaskCount A := by
  -- the tasks of the subject, as a list without repetitions
  let owned (b : Control) : List (Slot Task) :=
    ((List.finRange slotCount).filter fun i => (b.tasks i).active && (b.tasks i).subjectId == A).map b.tasks
  have hmem : ∀ (b : Control) x, x ∈ owned b ↔ (x.active = true ∧ x.subjectId = A) ∧ ∃ i, b.slots .TASK i = x := by
    intro b x
    simp only [owned, List.mem_map, List.mem_filter, List.mem_finRange, true_and, Bool.and_eq_true, beq_iff_eq]
    constructor
    · rintro ⟨i, hi, rfl⟩
      exact ⟨hi, i, rfl⟩
    · rintro ⟨hx, i, rfl⟩
      exact ⟨i, hx, rfl⟩
  have hnodup : ∀ s : State n, Inv s → (owned s.control).Nodup := by
    intro s hinv
    refine List.Nodup.map_on (fun i hi j hj heq => ?_) ((List.nodup_finRange slotCount).filter _)
    simp only [List.mem_filter, Bool.and_eq_true] at hi hj
    exact hinv.index_eq hi.2.1 hj.2.1 (congrArg Slot.id heq)
  have hperm : (owned s₁.control).Perm (owned s₂.control) := by
    refine (List.perm_ext_iff_of_nodup (hnodup s₁ hinv₁) (hnodup s₂ hinv₂)).mpr fun x => ?_
    rw [hmem, hmem]
    exact and_congr_right fun hx => h.own .TASK x hx.1 hx.2
  have hlength := hperm.length_eq
  simp only [owned, List.length_map] at hlength
  unfold Control.subjectTaskCount
  split
  · rfl
  · rw [List.countP_eq_length_filter, List.countP_eq_length_filter]
    exact hlength

theorem Agree.spawnReserve (hinv₁ : Inv s₁) (hinv₂ : Inv s₂)
    (hsleeps : s₁.control.longSleepTaskCount = s₂.control.longSleepTaskCount) (env : Env) (code : UInt32) (arg0 : UInt64)
    (rights : Rights) : (∃ e, s₁.control.spawnReserve A code arg0 rights env = .error e ∧
      s₂.control.spawnReserve A code arg0 rights env = .error e) ∨
    ∃ kind i j, s₁.control.spawnReserve A code arg0 rights env = .ok (kind, i) ∧
      s₂.control.spawnReserve A code arg0 rights env = .ok (kind, j) := by
  have hroom : (s₁.control.first .TASK fun s => !s.active).isSome = (s₂.control.first .TASK fun s => !s.active).isSome :=
    h.room .TASK
  unfold Control.spawnReserve
  rw [hsleeps, h.subjectTaskCount hinv₁ hinv₂, h.next]
  split
  · exact .inl ⟨_, rfl, rfl⟩
  split
  · exact .inl ⟨_, rfl, rfl⟩
  · exact .inl ⟨_, rfl, rfl⟩
  split
  · exact .inl ⟨_, rfl, rfl⟩
  split
  · exact .inl ⟨_, rfl, rfl⟩
  split
  · exact .inl ⟨_, rfl, rfl⟩
  split
  · exact .inl ⟨_, rfl, rfl⟩
  cases hi : s₁.control.first .TASK fun s => !s.active with
  | none =>
    rw [hi] at hroom
    rw [Option.isNone_iff_eq_none.mp (Option.isSome_eq_false_iff.mp hroom.symm)]
    exact .inl ⟨_, rfl, rfl⟩
  | some i =>
    rw [hi] at hroom
    obtain ⟨j, hj⟩ := Option.isSome_iff_exists.mp hroom.symm
    rw [hj]
    dsimp only
    split
    · exact .inl ⟨_, rfl, rfl⟩
    · exact .inr ⟨_, i, j, rfl, rfl⟩

theorem Agree.call {k : Fin n} {c : Call} (hc : s₁.calls k = some c) (hsubject : c.subject = A) :
    ∃ j, s₂.calls k = some { c with index := j } ∧ s₂.control.tasks j = s₁.control.tasks c.index := by
  have hown := h.calls k
  unfold State.ownCall at hown
  rw [hc] at hown
  cases hd : s₂.calls k with
  | none =>
    rw [hd] at hown
    simp [hsubject] at hown
  | some d =>
    rw [hd] at hown
    by_cases hd' : d.subject = A
    · simp only [Option.bind_some, hsubject, hd', if_true, Option.some.injEq, Prod.mk.injEq] at hown
      refine ⟨d.index, congrArg some ?_, hown.2.symm⟩
      have hfields := congrArg (fun x : Call => { x with index := d.index }) hown.1
      rw [hsubject, hfields, ← hd']
    · simp [hsubject, hd'] at hown

theorem exec_agree (hinv₁ : Inv s₁) (hinv₂ : Inv s₂)
    (hsleeps : s₁.control.longSleepTaskCount = s₂.control.longSleepTaskCount) {a : Action n}
    {r₁ r₂ : State n × Option Outcome} (h₁ : s₁.exec a = some r₁) (h₂ : s₂.exec a = some r₂)
    (hsubject : a.subject s₁ = some A) : r₁.2 = r₂.2 := by
  have hload : ∀ overtakes, s₁.load overtakes = s₂.load overtakes := by
    intro overtakes
    funext k
    rw [State.load, State.load, h.epoch]
  cases a with
  | op B o overtakes env =>
    cases hsubject
    simp only [State.exec] at h₁ h₂
    split at h₁
    · rename_i hu₁
      split at h₂
      · rename_i hu₂
        cases h₁
        cases h₂
        dsimp only [State.performOp]
        rw [hload, h.perform hinv₁ hinv₂ hu₁ hu₂]
      · cases h₂
    · cases h₁
  | spawn k B code arg0 rights env =>
    cases hsubject
    simp only [State.exec] at h₁ h₂
    cases hk₁ : s₁.calls k with
    | some c =>
      rw [hk₁] at h₁
      cases h₁
    | none =>
      cases hk₂ : s₂.calls k with
      | some c =>
        rw [hk₂] at h₂
        cases h₂
      | none =>
        rcases h.spawnReserve hinv₁ hinv₂ hsleeps env code arg0 rights with ⟨e, he₁, he₂⟩ | ⟨kind, i, j, hok₁, hok₂⟩
        · rw [hk₁, he₁] at h₁
          rw [hk₂, he₂] at h₂
          cases h₁
          cases h₂
          rfl
        · rw [hk₁, hok₁] at h₁
          rw [hk₂, hok₂] at h₂
          cases h₁
          cases h₂
          rfl
  | issue k overtakes env =>
    obtain ⟨c, hc, hA⟩ := Option.map_eq_some_iff.mp hsubject
    obtain ⟨j, hd, hslot⟩ := h.call hc hA
    simp only [State.exec, hc, hd] at h₁ h₂
    split at h₁
    · cases h₁
      rw [if_pos (by assumption)] at h₂
      cases h₂
      have hissue : s₁.control.spawnIssue c.index c.subject (s₁.load overtakes) c.rights env =
          s₂.control.spawnIssue j c.subject (s₂.load overtakes) c.rights env := by
        have hslot' : s₂.control.slots .TASK j = s₁.control.slots .TASK c.index := hslot
        unfold Control.spawnIssue
        rw [hload, hslot', hA, h.issueObjectCap]
      simp only [State.spawnToken, hissue]
      split <;> rfl
    · cases h₁
  | finish k started | store k =>
    obtain ⟨c, hc, hA⟩ := Option.map_eq_some_iff.mp hsubject
    obtain ⟨j, hd, -⟩ := h.call hc hA
    simp only [State.exec, hc, hd] at h₁ h₂
    split at h₁
    · rename_i htoken htask
      simp only [htoken, htask] at h₂
      cases h₁
      cases h₂
      try simp only [State.spawnFinish]
      repeat' split
      all_goals rfl
    · cases h₁
  | fiber p slept =>
    obtain ⟨y, -, rfl⟩ := Option.map_eq_some_iff.mp h₁
    obtain ⟨z, -, rfl⟩ := Option.map_eq_some_iff.mp h₂
    rfl
  | revokeAll => cases hsubject
  | reclaim f B | rollback t =>
    simp only [State.exec] at h₁ h₂
    split at h₁
    · split at h₂
      · cases h₁
        cases h₂
        rfl
      · cases h₂
    · cases h₁

end Operations

end Llam.Broker
