import Llam.Broker.System

/-!
# What an operation does

Every operation does one of eight things (`Effect`, `perform_effect`): nothing, an attenuated token, a rotated slot with a
new token, a new object with its token, a new object that is given up because there is no nonce, new contents of the slot
that the token names, a completed task that is taken out of its slot, or a live task that is left to its trampoline. What
an operation works on, apart from new objects, is the slot that its token names (`Found`).
-/

namespace Llam.Broker

open Function

/-! ## Slots that a token names -/

theorem Family.ofCode_eq_some {code : UInt32} {f : Family} : Family.ofCode code = some f ↔ code = f.code := by
  constructor
  · intro h
    unfold Family.ofCode at h
    repeat' split at h
    all_goals cases h
    all_goals assumption
  · rintro rfl
    cases f <;> rfl

theorem Family.code_inj {f g : Family} (h : f.code = g.code) : f = g :=
  Option.some.inj ((Family.ofCode_eq_some.mpr h).symm.trans (Family.ofCode_eq_some.mpr rfl)) |>.symm

theorem Slot.named_iff {α : Type} {s : Slot α} {t : Token} :
    s.named t = true ↔ s.active = true ∧ s.id = t.slot ∧ s.generation = t.generation := by
  simp [Slot.named, and_assoc]

namespace Control

variable {b b' : Control} {f : Family} {i : Fin slotCount} {subject epoch : UInt64} {t t' : Token} {required : Rights}
  {load : Nat → UInt64} {env : Env} {out : Outcome}

theorem first_some {p : Slot (Body f) → Bool} (h : b.first f p = some i) : p (b.slots f i) = true :=
  List.find?_some (p := fun i => p (b.slots f i)) h

theorem first_none {p : Slot (Body f) → Bool} (h : b.first f p = none) (i : Fin slotCount) : p (b.slots f i) = false := by
  have := List.find?_eq_none.mp h i (List.mem_finRange i)
  simpa using this

@[simp] theorem setSlot_self (b : Control) (f : Family) (i : Fin slotCount) (s : Slot (Body f)) :
    (b.setSlot f i s).slots f i = s := by
  simp [setSlot]

theorem setSlot_of_ne {g : Family} {j : Fin slotCount} {s : Slot (Body f)} (h : ¬ (g = f ∧ j = i)) :
    (b.setSlot f i s).slots g j = b.slots g j := by
  simp only [setSlot]
  rcases eq_or_ne g f with rfl | hg
  · rw [update_self, update_of_ne fun hj => h ⟨rfl, hj⟩]
  · rw [update_of_ne hg]

/-- The token is valid in the epoch, and the slot holds its object. -/
structure Found (b : Control) (f : Family) (i : Fin slotCount) (subject epoch : UInt64) (t : Token) : Prop where
  family : t.family = f.code
  runtimeId : t.runtimeId = b.runtimeId
  named : (b.slots f i).named t = true
  mac : t.mac = capMac b.key t
  audience : t.subjectId = subject
  current : t.revocationEpoch = epoch
  lasting : epoch ≠ 0
  armed : (b.slots f i).rights ≠ ⊥

theorem validateLiveObject_ok (h : b.validateLiveObject t required = .ok ()) :
    ∃ f i, t.family = f.code ∧ (b.slots f i).named t = true ∧ required ≤ (b.slots f i).rights := by
  unfold validateLiveObject at h
  split at h
  · cases h
  rename_i f hf
  split at h
  · rename_i hsome
    obtain ⟨i, hi⟩ := Option.isSome_iff_exists.mp hsome
    have hslot := first_some hi
    rw [Bool.and_eq_true, decide_eq_true_eq] at hslot
    exact ⟨f, i, Family.ofCode_eq_some.mp hf, hslot⟩
  · cases h

theorem validateCap_ok (h : b.validateCap subject epoch t required = .ok ()) :
    ∃ f i, b.Found f i subject epoch t ∧ required ≤ t.rights ∧ required ≤ (b.slots f i).rights ∧ required ≠ ⊥ := by
  unfold validateCap at h
  split at h
  · cases h
  rename_i hrequired
  split at h
  · cases h
  rename_i hsubject
  split at h
  · cases h
  rename_i hruntime
  rw [not_not] at hruntime
  obtain ⟨-, hepoch, hcurrent, hrights, hfor, hmac⟩ := validateSubject_ok hsubject
  obtain ⟨f, i, hfamily, hnamed, hlive⟩ := validateLiveObject_ok h
  exact ⟨f, i, ⟨hfamily, hruntime, hnamed, hmac, hfor, hcurrent, hcurrent ▸ hepoch, Rights.ne_bot_of_le hlive hrequired⟩, hrights,
    hlive, hrequired⟩

theorem findObject_ok (h : b.findObject f subject epoch t required = .ok i) :
    b.Found f i subject epoch t ∧ required ≤ t.rights ∧ required ≤ (b.slots f i).rights := by
  unfold findObject at h
  split at h
  · cases h
  rename_i hvalid
  obtain ⟨g, j, hfound, hrights, -, hrequired⟩ := validateCap_ok hvalid
  split at h
  · cases h
  rename_i hfamily
  rw [not_not] at hfamily
  split at h
  · cases h
  rename_i k hk
  split at h
  · rename_i hle
    cases h
    exact ⟨⟨hfamily, hfound.runtimeId, first_some hk, hfound.mac, hfound.audience, hfound.current, hfound.lasting,
      Rights.ne_bot_of_le hle hrequired⟩, hrights, hle⟩
  · cases h

/-! ## Effects -/

/-- A token of the object in slot `i`. -/
structure TokenFor (b : Control) (f : Family) (id generation : UInt64) (rights : Rights) (subject epoch : UInt64)
    (t : Token) : Prop where
  family : t.family = f.code
  runtimeId : t.runtimeId = b.runtimeId
  number : t.slot = id
  version : t.generation = generation
  gives : t.rights = rights
  audience : t.subjectId = subject
  issued : t.revocationEpoch = epoch
  mac : t.mac = capMac b.key t

/-- **What an operation does** to the tables, and the token that it issues. -/
inductive Effect (b : Control) (subject : UInt64) (load : Nat → UInt64) (o : Op) : Control → Option Token → Prop
  | same : Effect b subject load o b none
  | attenuate {f : Family} {i : Fin slotCount} {t t' : Token} {rights : Rights} (hop : o = .attenuate t rights)
      (hfound : b.Found f i subject (load 0) t) (hrights : rights ≤ t.rights) (hsame : t.revocationEpoch = load 1)
      (htoken : b.TokenFor f t.slot t.generation rights subject (load 1) t') : Effect b subject load o b (some t')
  | rotate {f : Family} {i : Fin slotCount} {t t' : Token} {rights : Rights} {k : Nat} (hpresents : o.presents = some t)
      (hk : k ≤ 1) (hfound : b.Found f i subject (load k) t) (hrights : rights ≤ t.rights) (hsome : rights ≠ ⊥)
      (hlast : (b.slots f i).generation ≠ wordMax)
      (htoken : b.TokenFor f t.slot (t.generation + 1) rights subject (load 2) t') (htask : f ≠ .TASK) :
    Effect b subject load o
      (b.setSlot f i { b.slots f i with generation := (b.slots f i).generation + 1, rights := rights }) (some t')
  | create {f : Family} {i : Fin slotCount} {t' : Token} {rights : Rights} {body : Body f}
      (hcreates : o.creates = some (f, rights))
      (hfree : reusable f (b.slots f i) = true)
      (hnext : validateNextObjectId (b.next f) = .ok ())
      (htoken : b.TokenFor f (b.next f) 1 rights subject (load 0) t') (htask : f ≠ .TASK) :
    Effect b subject load o (b.allot f i subject rights body) (some t')
  | burn {f : Family} {i : Fin slotCount} {rights : Rights} {body : Body f} (hcreates : o.creates = some (f, rights))
      (hfree : reusable f (b.slots f i) = true)
      (hnext : validateNextObjectId (b.next f) = .ok ()) (htask : f ≠ .TASK) :
    Effect b subject load o ((b.allot f i subject rights body).clearSlot f i) none
  | body {f : Family} {i : Fin slotCount} {t : Token} (x : Body f) (hpresents : o.presents = some t)
      (hfound : b.Found f i subject (load 0) t) (hwrites : o.writes = some f) (htask : f ≠ .TASK) :
    Effect b subject load o (b.setBody f i x) none
  | clear {i : Fin slotCount} {t : Token} (hpresents : o.presents = some t) (hfound : b.Found .TASK i subject (load 0) t)
      (hcompleted : (b.tasks i).body.state = .COMPLETED) : Effect b subject load o (b.clearSlot .TASK i) none
  | detach {i : Fin slotCount} {t : Token} (hpresents : o.presents = some t) (hfound : b.Found .TASK i subject (load 0) t)
      (hspawned : (b.tasks i).body.state = .SPAWNED) : Effect b subject load o (b.detachSlot i) none

theorem issueObjectCap_ok {id generation : UInt64} {rights : Rights} {entropy : Option (UInt64 × UInt64)}
    (h : b.issueObjectCap f subject epoch id generation rights entropy = .ok t) :
    b.TokenFor f id generation rights subject epoch t := by
  unfold issueObjectCap at h
  split at h
  · cases h
  · obtain ⟨hfamily, hruntime, hslot, hgeneration, hrights, hepoch, hsubject, hmac⟩ := capabilityIssue_ok h
    exact ⟨hfamily, hruntime, hslot, hgeneration, hrights, hsubject, hepoch, hmac⟩

section Effects

variable {o : Op} {rights : Rights} {entropy : Option (UInt64 × UInt64)}

theorem createObject_effect {body : Body f} (hcreates : o.creates = some (f, rights)) (htask : f ≠ .TASK) :
    b.Effect subject load o (b.createObject f body subject (load 0) rights entropy).1
      (b.createObject f body subject (load 0) rights entropy).2.token := by
  unfold createObject
  split
  · exact .same
  rename_i i hi
  split
  · exact .same
  rename_i hnext
  split
  · exact .burn hcreates (first_some hi) hnext htask
  · rename_i t ht
    exact .create hcreates (first_some hi) hnext (issueObjectCap_ok ht) htask

section

variable (hpresents : o.presents = some t)

include hpresents

theorem rotate_effect {k : Nat} (hk : k ≤ 1) (hfound : b.Found f i subject (load k) t) (htask : f ≠ .TASK) :
    b.Effect subject load o (b.rotate f i subject (load 2) t rights entropy).1
      (b.rotate f i subject (load 2) t rights entropy).2.token := by
  obtain ⟨-, hid, hgeneration⟩ := Slot.named_iff.mp hfound.named
  unfold rotate
  dsimp only
  split
  · exact .same
  rename_i hlast
  split
  · exact .same
  rename_i hsome
  split
  · exact .same
  rename_i hle
  split
  · exact .same
  rename_i t' ht'
  refine .rotate hpresents hk hfound (not_not.mp hle) hsome hlast ?_ htask
  rw [← hid, ← hgeneration]
  exact issueObjectCap_ok ht'

theorem revokeFound_effect (htask : f ≠ .TASK) :
    b.Effect subject load o (b.revokeFound f subject load t rights entropy).1
      (b.revokeFound f subject load t rights entropy).2.token := by
  unfold revokeFound
  split
  · exact .same
  · rename_i i hi
    exact rotate_effect hpresents (Nat.le_refl 1) (findObject_ok hi).1 htask

theorem revokeDescriptor_effect (hfamily : t.family = Family.DESCRIPTOR.code)
    (hvalid : b.validateCap subject (load 0) t required = .ok ()) :
    b.Effect subject load o (b.revokeDescriptor subject load t rights entropy).1
      (b.revokeDescriptor subject load t rights entropy).2.token := by
  obtain ⟨_, _, hfound, -⟩ := validateCap_ok hvalid
  unfold revokeDescriptor
  split
  · exact .same
  rename_i i hi
  split
  · exact .same
  rename_i hdestroy
  rw [not_not] at hdestroy
  refine rotate_effect hpresents (Nat.zero_le 1) ?_ nofun
  exact ⟨hfamily, hfound.runtimeId, first_some hi, hfound.mac, hfound.audience, hfound.current, hfound.lasting,
    Rights.ne_bot_of_le hdestroy (by decide)⟩

theorem revokeObjectCap_effect : b.Effect subject load o (b.revokeObjectCap subject load t rights env).1
      (b.revokeObjectCap subject load t rights env).2.token := by
  unfold revokeObjectCap
  split
  · exact .same
  split
  · exact .same
  · exact .same
  rename_i hvalid
  split
  · exact revokeFound_effect hpresents nofun
  · rename_i hfamily
    exact revokeDescriptor_effect hpresents (Family.ofCode_eq_some.mp hfamily) hvalid
  · exact revokeFound_effect hpresents nofun
  · exact .same

end

theorem attenuateCap_effect (hop : o = .attenuate t rights) :
    b.Effect subject load o b (b.attenuateCap subject load t rights env).token := by
  unfold attenuateCap
  split
  · exact .same
  split
  · exact .same
  · exact .same
  rename_i hvalid
  obtain ⟨f, i, hfound, -, -, -⟩ := validateCap_ok hvalid
  cases h : capabilityAttenuate b.key t rights (load 1) env.entropy with
  | error e => exact .same
  | ok t' =>
    obtain ⟨hle, hepoch, hfamily, hruntime, hslot, hgeneration, hrights, hissued, hsubject, hmac⟩ :=
      capabilityAttenuate_ok h
    exact .attenuate hop hfound hle hepoch ⟨hfamily.trans hfound.family, hruntime.trans hfound.runtimeId, hslot,
      hgeneration, hrights, hsubject.trans hfound.audience, hissued.trans hepoch, hmac⟩

theorem registerBuffer_effect {data : List UInt8} (hcreates : o.creates = some (.BUFFER, rights)) :
    b.Effect subject load o (b.registerBuffer subject load data rights env).1
      (b.registerBuffer subject load data rights env).2.token := by
  unfold registerBuffer
  split
  · exact .same
  split
  · exact .same
  · exact .same
  · exact .same
  · exact createObject_effect hcreates nofun

theorem writeBuffer_effect {offset : UInt64} {bytes : List UInt8} (hpresents : o.presents = some t)
    (hwrites : o.writes = some .BUFFER) : b.Effect subject load o (b.writeBuffer subject load t offset bytes env).1
      (b.writeBuffer subject load t offset bytes env).2.token := by
  unfold writeBuffer
  split
  · exact .same
  split
  · exact .same
  · exact .same
  rename_i i _ hi
  dsimp only
  split
  · exact .same
  · exact .body _ hpresents (findObject_ok hi).1 hwrites nofun

theorem registerHandle_effect {handle : Int} {closeOnDestroy : Bool}
    (hcreates : o.creates = some (.DESCRIPTOR, rights)) :
    b.Effect subject load o (b.registerHandle subject load handle rights closeOnDestroy env).1
      (b.registerHandle subject load handle rights closeOnDestroy env).2.token := by
  unfold registerHandle
  split
  · exact .same
  split
  · exact .same
  · exact .same
  · exact .same
  · exact createObject_effect hcreates nofun

theorem createChannel_effect {capacity : Nat} (hcreates : o.creates = some (.CHANNEL, rights)) :
    b.Effect subject load o (b.createChannel subject load capacity rights env).1
      (b.createChannel subject load capacity rights env).2.token := by
  unfold createChannel
  split
  · exact .same
  split
  · exact .same
  · exact .same
  · exact createObject_effect hcreates nofun

variable (hpresents : o.presents = some t)

include hpresents

theorem channelSend_effect {bytes : List UInt8} (hwrites : o.writes = some .CHANNEL) :
    b.Effect subject load o (b.channelSend subject load t bytes env).1
      (b.channelSend subject load t bytes env).2.token := by
  unfold channelSend
  split
  · exact .same
  split
  · exact .same
  · exact .same
  rename_i i _ hi
  dsimp only
  split
  · exact .same
  split
  · exact .same
  · exact .body _ hpresents (findObject_ok hi).1 hwrites nofun

theorem channelRecv_effect {capacity : UInt64} (hwrites : o.writes = some .CHANNEL) :
    b.Effect subject load o (b.channelRecv subject load t capacity env).1
      (b.channelRecv subject load t capacity env).2.token := by
  unfold channelRecv
  split
  · exact .same
  split
  · exact .same
  · exact .same
  rename_i i _ hi
  dsimp only
  split
  · exact .same
  split
  · exact .same
  · exact .body _ hpresents (findObject_ok hi).1 hwrites nofun

theorem channelClose_effect (hwrites : o.writes = some .CHANNEL) :
    b.Effect subject load o (b.channelClose subject load t env).1 (b.channelClose subject load t env).2.token := by
  unfold channelClose
  split
  · exact .same
  · exact .same
  · rename_i i _ hi
    exact .body _ hpresents (findObject_ok hi).1 hwrites nofun

theorem joinTask_effect :
    b.Effect subject load o (b.joinTask subject load t env).1 (b.joinTask subject load t env).2.token := by
  unfold joinTask
  split
  · exact .same
  · exact .same
  rename_i i _ hi
  dsimp only
  split
  · exact .same
  split
  · exact .same
  rename_i hcompleted
  have hclear : b.Effect subject load o _ none := .clear hpresents (findObject_ok hi).1 (not_not.mp hcompleted)
  split <;> exact hclear

theorem detachTask_effect :
    b.Effect subject load o (b.detachTask subject load t env).1 (b.detachTask subject load t env).2.token := by
  unfold detachTask
  split
  · exact .same
  · exact .same
  rename_i i _ hi
  dsimp only
  split
  · rename_i hcompleted
    have hclear : b.Effect subject load o _ none := .clear hpresents (findObject_ok hi).1 hcompleted
    split <;> exact hclear
  · rename_i hspawned
    split
    · exact .same
    · exact .detach hpresents (findObject_ok hi).1 hspawned
  · exact .same

end Effects

theorem readBuffer_token {offset length : UInt64} : (b.readBuffer subject load t offset length env).token = none := by
  unfold readBuffer
  split
  · rfl
  split
  · rfl
  · rfl
  · dsimp only
    split <;> rfl

theorem readHandle_token {length : UInt64} : (b.readHandle subject load t length env).token = none := by
  unfold readHandle
  repeat' split
  all_goals rfl

theorem writeHandle_token {bytes : List UInt8} : (b.writeHandle subject load t bytes env).token = none := by
  unfold writeHandle
  repeat' split
  all_goals rfl

theorem validate_token : (b.validate subject load t required env).token = none := by
  unfold validate
  split <;> rfl

theorem driveAllowed_token : (b.driveAllowed subject load t env).token = none := by
  unfold driveAllowed
  split <;> rfl

theorem perform_effect (o : Op) :
    b.Effect subject load o (b.perform subject load o env).1 (b.perform subject load o env).2.token := by
  cases o with
  | validate t required => exact validate_token ▸ .same
  | attenuate t subset => exact attenuateCap_effect rfl
  | revoke t replacement => exact revokeObjectCap_effect rfl
  | registerBuffer data rights => exact registerBuffer_effect rfl
  | readBuffer t offset length => exact readBuffer_token ▸ .same
  | writeBuffer t offset bytes => exact writeBuffer_effect rfl rfl
  | registerHandle handle rights closeOnDestroy => exact registerHandle_effect rfl
  | readHandle t length => exact readHandle_token ▸ .same
  | writeHandle t bytes => exact writeHandle_token ▸ .same
  | createChannel capacity rights => exact createChannel_effect rfl
  | channelSend t bytes => exact channelSend_effect rfl rfl
  | channelRecv t capacity => exact channelRecv_effect rfl rfl
  | channelClose t => exact channelClose_effect rfl rfl
  | driveAllowed t => exact driveAllowed_token ▸ .same
  | joinTask t => exact joinTask_effect rfl
  | detachTask t => exact detachTask_effect rfl

end Control

end Llam.Broker
