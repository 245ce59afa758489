import Llam.Broker.Ownership

/-!
# The invariant of the broker

In every reachable state the registry of the broker is well-formed and the slots of tasks have one owner at a time (`Inv`).
Every step changes the registry as registries change (`step_changes`), so that what `Llam.Lib.Change` keeps holds along
every run.
-/

namespace Llam.Broker

open Llam.Lib Function Control Slot

variable {n : Nat}

/-- The invariant. -/
structure Inv (s : State n) : Prop where
  registry : s.registry.Ok
  tasks : TasksOk s.control.tasks s.calls s.fibers s.minted

/-! ## Slots -/

section Slots

variable {b : Control} {f : Family} {i : Fin slotCount} {minted : List Token}
  {created : Family → Nat → Option Rights}

theorem Control.tasks_setSlot (b : Control) (i : Fin slotCount) (x : Slot Task) :
    (b.setSlot .TASK i x).tasks = update b.tasks i x := by
  funext j
  rcases eq_or_ne j i with rfl | hj
  · rw [update_self]
    exact setSlot_self b .TASK j x
  · rw [update_of_ne hj]
    exact setSlot_of_ne fun h => hj h.2

theorem Control.tasks_setSlot_of_ne {x : Slot (Body f)} (h : f ≠ .TASK) : (b.setSlot f i x).tasks = b.tasks := by
  funext j
  exact setSlot_of_ne fun hj => h hj.1.symm

theorem lowers_abandoned (x : Slot Task) : Lowers x.grant (Slot.abandoned x).grant := by
  rcases abandoned_cases x with ⟨-, heq⟩ | ⟨-, heq⟩
  · rw [heq]
    unfold Slot.grant
    split
    · exact .weaken _ ⊥ bot_le (.inr ⟨rfl, rfl⟩)
    · exact .same _
  · rw [heq, grant_cleared]
    exact .clear _

theorem lowers_reclaimed (x : Slot (Body f)) : Lowers x.grant (Slot.reclaimed f x).grant := by
  cases f with
  | TASK => exact lowers_abandoned x
  | BUFFER | DESCRIPTOR | CHANNEL => exact .clear _

theorem Slot.withdrawn_cases (x : Slot Task) : Slot.withdrawn x = Slot.abandoned x ∨ Slot.withdrawn x = x := by
  unfold Slot.withdrawn
  cases x.body.state
  case SPAWNED | COMPLETED => exact .inl rfl
  case EMPTY | JOINED | DETACHED => exact .inr rfl

theorem lowers_rolledBack (x : Slot (Body f)) : Lowers x.grant (Control.rolledBack f x).grant := by
  cases f with
  | TASK =>
    rcases withdrawn_cases x with heq | heq
    · exact (congrArg Slot.grant heq) ▸ lowers_abandoned x
    · exact (congrArg Slot.grant heq) ▸ .same _
  | BUFFER | DESCRIPTOR | CHANNEL => exact .clear _

theorem changes_setSlot {x : Slot (Body f)} (h : Lowers (b.slots f i).grant x.grant) :
    Changes (registry b minted created) (registry (b.setSlot f i x) minted created) := by
  rw [registry_setSlot]
  exact Lowers.changes h

theorem Control.reclaimSubject_cases (g : Family) (i : Fin slotCount) (subject : UInt64) :
    (b.reclaimSubject f subject).slots g i = b.slots g i ∨
      g = f ∧ (b.slots g i).active = true ∧ (b.slots g i).subjectId = subject ∧
        (b.reclaimSubject f subject).slots g i = Slot.reclaimed g (b.slots g i) := by
  unfold Control.reclaimSubject
  split
  · exact .inl rfl
  rcases eq_or_ne g f with rfl | hg
  · dsimp only
    rw [update_self]
    split
    · rename_i h
      rw [Bool.and_eq_true, beq_iff_eq] at h
      exact .inr ⟨rfl, h.1, h.2, rfl⟩
    · exact .inl rfl
  · dsimp only
    rw [update_of_ne hg]
    exact .inl rfl

theorem registry_slots (slots : Fin slotCount → Slot (Body f)) :
    registry { b with slots := update b.slots f slots } minted created =
      { registry b minted created with
        slots := update (registry b minted created).slots f fun i => (slots i).grant } := by
  refine Registry.ext (funext fun g => ?_) rfl rfl rfl rfl
  rcases eq_or_ne g f with rfl | hg
  · simp [registry]
  · simp [registry, hg]

theorem changes_reclaim (f : Family) (subject : UInt64) :
    Changes (registry b minted created) (registry (b.reclaimSubject f subject) minted created) := by
  unfold Control.reclaimSubject
  split
  · exact .refl
  rw [registry_slots]
  refine Changes.lower f fun i => ?_
  split
  · exact lowers_reclaimed _
  · exact .same _

end Slots

/-! ## Steps -/

/-- What every step does. -/
structure Keeps (s s' : State n) : Prop where
  changes : Changes s.registry s'.registry
  tasks : TasksOk s'.control.tasks s'.calls s'.fibers s'.minted

section Steps

variable {s : State n} {t : Token} {o : Op} {k : Fin n} {c : Call}

theorem known_iff : s.known t = true ↔ t ∈ s.minted ∧ ∀ k, (s.calls k).bind Call.token ≠ some t := by
  simp [State.known]

theorem presents_known (h : o.presents.all s.unforged = true) (ht : o.presents = some t)
    (hmac : t.mac = capMac s.control.key t) : t ∈ s.minted ∧ ∀ k, (s.calls k).bind Call.token ≠ some t := by
  rw [ht, Option.all_some, State.unforged, Bool.or_eq_true, decide_eq_true_eq] at h
  exact known_iff.mp (h.resolve_left fun hne => hne hmac)

/-- Task slots are left alone or taken from their owners, but not those of spawns in progress. -/
def Taken (s : State n) (tasks : Fin slotCount → Slot Task) : Prop :=
  ∀ i, tasks i = s.control.tasks i ∨
    tasks i = Slot.abandoned (s.control.tasks i) ∧ ∀ k c, s.calls k = some c → c.index ≠ i

theorem Taken.same : Taken s s.control.tasks := fun _ => .inl rfl

variable {i : Fin slotCount} {subject : UInt64} {load : Nat → UInt64} {b : Control} {env : Env} {rights : Rights}

theorem Taken.one {x : Slot Task} (hx : x = s.control.tasks i ∨ x = Slot.abandoned (s.control.tasks i))
    (hcalls : ∀ k c, s.calls k = some c → c.index ≠ i) : Taken s (update s.control.tasks i x) := by
  intro j
  rcases eq_or_ne j i with rfl | hj
  · rw [update_self]
    exact hx.imp id fun heq => ⟨heq, hcalls⟩
  · rw [update_of_ne hj]
    exact .inl rfl

theorem effect_taken {token : Option Token}
    (h : s.control.Effect subject load o b token) (hinv : Inv s) (hunforged : o.presents.all s.unforged = true) :
    Taken s b.tasks := by
  have hcalls : ∀ {i : Fin slotCount} {t : Token} {epoch : UInt64}, o.presents = some t →
      s.control.Found .TASK i subject epoch t → ∀ k c, s.calls k = some c → c.index ≠ i := by
    intro i t epoch hpresents hfound k c hc
    obtain ⟨hminted, hknown⟩ := presents_known hunforged hpresents hfound.mac
    exact hinv.tasks.index_ne hminted hfound.family hknown (named_iff.mp hfound.named).2.1 hc
  cases h with
  | same | attenuate => exact .same
  | rotate hpresents hk hfound hrights hsome hlast htoken htask =>
    rw [tasks_setSlot_of_ne htask]
    exact .same
  | create hcreates hfree hnext htoken htask => exact (tasks_setSlot_of_ne htask).symm ▸ .same
  | burn hcreates hfree hnext htask =>
    rw [Control.clearSlot, tasks_setSlot_of_ne htask]
    exact (tasks_setSlot_of_ne htask).symm ▸ .same
  | body x hpresents hfound hwrites htask =>
    rw [Control.setBody, tasks_setSlot_of_ne htask]
    exact .same
  | @clear i t hpresents hfound hcompleted =>
    have habandoned : Slot.abandoned (s.control.tasks i) = .cleared .TASK := by
      rcases abandoned_cases (s.control.tasks i) with ⟨hstate, -⟩ | ⟨-, heq⟩
      · rw [hcompleted] at hstate
        rcases hstate with hstate | hstate <;> cases hstate
      · exact heq
    exact .one (.inr habandoned.symm) (hcalls hpresents hfound)
  | @detach i t hpresents hfound hspawned =>
    have habandoned : Slot.abandoned (s.control.tasks i) = _ :=
      ((abandoned_cases (s.control.tasks i)).resolve_right fun h => h.1 (.inl hspawned)).2
    exact .one (.inr habandoned.symm) (hcalls hpresents hfound)

theorem effect_mint {token : Option Token}
    (h : s.control.Effect subject load o b token) (hinv : Inv s) (hunforged : o.presents.all s.unforged = true) :
    TasksOk s.control.tasks s.calls s.fibers (s.minted ++ token.toList) := by
  have htasks := hinv.tasks
  -- tokens for other tables are not secret
  have hother : ∀ {f : Family} {id generation epoch : UInt64} {rights : Rights} {t' : Token}, f ≠ .TASK →
      s.control.TokenFor f id generation rights subject epoch t' →
      TasksOk s.control.tasks s.calls s.fibers (s.minted ++ [t']) := by
    intro f id generation epoch rights t' hf ht'
    exact htasks.mint fun _ _ _ hfamily => absurd (Family.code_inj (ht'.family.symm.trans hfamily)) hf
  cases h with
  | same | burn | body | clear | detach => exact (List.append_nil s.minted).symm ▸ htasks
  | @attenuate f i t t' rights hop hfound hrights hsame htoken =>
    obtain ⟨hminted, hknown⟩ := presents_known hunforged (congrArg Op.presents hop) hfound.mac
    refine htasks.mint fun k c hc hfamily hslot => ?_
    have hf : t.family = Family.TASK.code := (hfound.family.trans htoken.family.symm).trans hfamily
    exact htasks.index_ne hminted hf hknown (hslot.symm.trans htoken.number) hc rfl
  | rotate hpresents hk hfound hrights hsome hlast htoken htask | create hcreates hfree hnext htoken htask =>
    exact hother htask htoken

theorem performOp_keeps {overtakes : Nat → Nat} (hinv : Inv s)
    (hunforged : o.presents.all s.unforged = true) : Keeps s (s.performOp subject o overtakes env).1 := by
  have heffect : s.control.Effect subject (s.load overtakes) o _
      (s.control.perform subject (s.load overtakes) o env).2.token := perform_effect o
  have htaken := effect_taken heffect hinv hunforged
  exact ⟨State.effect_changes heffect hinv.registry hunforged, (effect_mint heffect hinv hunforged).lower htaken⟩

theorem spawnReserve_ok {arg0 : UInt64} {code : UInt32}
    {kind : TaskKind} (h : b.spawnReserve subject code arg0 rights env = .ok (kind, i)) :
    (b.tasks i).active = false ∧ Control.validateNextObjectId (b.next .TASK) = .ok () := by
  unfold Control.spawnReserve at h
  split at h
  · cases h
  split at h
  · cases h
  · cases h
  split at h
  · cases h
  split at h
  · cases h
  split at h
  · cases h
  split at h
  · cases h
  split at h
  · cases h
  rename_i j hj
  split at h
  · cases h
  rename_i hnext
  cases h
  have hfree := first_some hj
  rw [Bool.not_eq_true'] at hfree
  exact ⟨hfree, hnext⟩

theorem reserve_keeps (hinv : Inv s) (hk : s.calls k = none) {arg0 : UInt64}
    {kind : TaskKind} (hfree : (s.control.tasks i).active = false)
    (hnext : Control.validateNextObjectId (s.control.next .TASK) = .ok ()) :
    Keeps s { s.setCall k (some ⟨i, kind, arg0, rights, subject, none, none⟩) with
      control := s.control.reserved i subject kind arg0 rights
      created := s.record (s.control.reserved i subject kind arg0 rights) .TASK rights } := by
  refine ⟨.single ?_, ?_⟩
  · have hallot : Change s.registry (registry (s.control.reserved i subject kind arg0 rights) s.minted _) :=
      changes_allot hnext
    have hrecord : s.record (s.control.reserved i subject kind arg0 rights) .TASK rights = _ := State.record_allot hnext
    rw [← hrecord] at hallot
    exact hallot
  · have htasks : (s.control.reserved i subject kind arg0 rights).tasks = update s.control.tasks i
        ⟨s.control.next .TASK, 1, rights, subject, true, ⟨none, .SPAWNED, some kind, arg0, 0, none⟩⟩ :=
      tasks_setSlot s.control i _
    refine hinv.tasks.reserve (c := ⟨i, kind, arg0, rights, subject, none, none⟩) hk hfree rfl rfl rfl rfl rfl rfl
      fun t ht hfamily hslot => ?_
    -- the number of the new object is on no token
    have hid := (hinv.registry.ticket _ (ticket_mem ht hfamily)).1
    exact Nat.ne_of_lt hid (congrArg UInt64.toNat hslot)

theorem Inv.index_eq (hinv : Inv s) {j : Fin slotCount} (hi : (s.control.tasks i).active = true)
    (hj : (s.control.tasks j).active = true) (hid : (s.control.tasks i).id = (s.control.tasks j).id) : i = j :=
  hinv.registry.unique .TASK i j _ _ (grant_of_active hi) (grant_of_active hj) (congrArg UInt64.toNat hid)

theorem giveUp_keeps (hinv : Inv s) (hc : s.calls k = some c) (htask : c.task = none) :
    Keeps s { s.setCall k none with control := s.control.clearSlot .TASK c.index } := by
  refine ⟨.single changes_clear, ?_⟩
  have htasks : (s.control.clearSlot .TASK c.index).tasks = _ := tasks_setSlot s.control c.index _
  exact hinv.tasks.finish hc (fun y hy heq => absurd heq ((hinv.tasks.call k c hc).alone htask y hy)) nofun

theorem spawnIssue_ok (h : b.spawnIssue i subject load rights env = .ok t) :
    b.TokenFor .TASK (b.tasks i).id (b.tasks i).generation rights subject (load 0) t := by
  unfold Control.spawnIssue at h
  split at h
  · cases h
  · exact issueObjectCap_ok h

theorem Keeps.advance {s' : State n} {epoch : UInt64} (h : Keeps s s')
    (hepoch : epochRank s'.control.epoch ≤ epochRank epoch) :
    Keeps s { s' with control := { s'.control with epoch := epoch } } :=
  ⟨h.changes.tail (changes_advance hepoch), h.tasks⟩

theorem issue_keeps (hinv : Inv s) (hc : s.calls k = some c) (hnone : c.token = none) {overtakes : Nat → Nat}
    (hissue : s.control.spawnIssue c.index c.subject (s.load overtakes) c.rights env = .ok t) :
    Keeps s { (s.setCall k (some { c with token := some t })).after s.control overtakes with
      minted := s.minted ++ [t] } := by
  have hown := hinv.tasks.call k c hc
  have hepoch := s.epoch_le_load overtakes 2
  have htoken := spawnIssue_ok hissue
  refine ⟨.tail (.single (changes_advance hepoch)) (changes_issue htoken hown.active rfl rfl hown.subject.symm ?_ ?_), ?_⟩
  · exact hown.rights.ge
  · exact s.load_le overtakes (by decide)
  · exact hinv.tasks.issue hc hnone fun j hj hid => hinv.index_eq hj hown.active (hid.trans htoken.number)

theorem body_keeps {s' : State n} {x : Task} (hcontrol : s'.control = s.control.setBody .TASK i x)
    (hminted : s'.minted = s.minted) (hcreated : s'.created = s.created)
    (htasks : TasksOk (update s.control.tasks i { s.control.tasks i with body := x }) s'.calls s'.fibers
      s.minted) : Keeps s s' := by
  refine ⟨?_, ?_⟩
  · have hsame : s'.registry = s.registry := by
      unfold State.registry
      rw [hcontrol, hminted, hcreated, registry_setBody]
    rw [hsame]
  · rw [hcontrol, hminted, Control.setBody, tasks_setSlot]
    exact htasks

theorem Control.setTaskState_setResult (b : Control) (i : Fin slotCount) (r : UInt64 × Option Errno)
    (state : TaskState) : (b.setResult i r).setTaskState i state =
      b.setBody .TASK i { (b.tasks i).body with result0 := r.1, errorCode := r.2, state := state } := by
  have hself : (b.setResult i r).slots .TASK i = { b.slots .TASK i with body :=
      ({ (b.tasks i).body with result0 := r.1, errorCode := r.2 } : Task) } := setSlot_self b .TASK i _
  unfold Control.setTaskState Control.tasks Control.setBody
  unfold Control.setResult Control.setBody Control.setSlot
  simp only [update_self, update_idem]
  rfl

theorem store_keeps (hinv : Inv s) (hc : s.calls k = some c) {task : Nat} (htask : c.task = some task) :
    Keeps s { s.setCall k none with control := s.control.setTask c.index task } := by
  have hown := hinv.tasks.call k c hc
  refine body_keeps rfl rfl rfl (hinv.tasks.finish hc (fun y hy heq => ?_) fun _ _ => ?_)
  · have hfiber := hinv.tasks.fiber y hy
    rw [heq] at hfiber
    exact ⟨hfiber.active, hfiber.subject, hfiber.live⟩
  · exact hown.kind.trans (congrArg some (hown.started (htask ▸ nofun)).2)

theorem fiberStep_keeps (hinv : Inv s) {p : Nat} {y : Fiber} (hp : s.fibers[p]? = some y) (slept : Option Errno) :
    Keeps s (s.fiberStep p y slept) := by
  have hfiber := hinv.tasks.fiber y (List.mem_of_getElem? hp)
  unfold State.fiberStep
  split
  · refine body_keeps rfl rfl rfl (hinv.tasks.advance hp rfl ⟨hfiber.active, hfiber.subject, ?_⟩ rfl rfl rfl rfl rfl)
    exact hfiber.live.imp id fun hlive => ⟨hlive.1, nofun⟩
  · dsimp only
    split
    · refine body_keeps rfl rfl rfl (hinv.tasks.leave hp (fun k c hc heq => ?_) nofun)
      -- the spawn that started the task has not returned
      have hown := hinv.tasks.call k c hc
      have htask : c.task ≠ none := fun hnone => hown.alone hnone y (List.mem_of_getElem? hp) heq.symm
      rw [heq] at hown
      exact ⟨hown.active, hown.rights, hown.subject, hown.kind, .inr ⟨rfl, htask⟩, hown.started, hown.secret,
        fun hnone => absurd hnone htask⟩
    · rename_i hdetached
      refine ⟨.refl, ?_⟩
      have hfiber' : FiberOk (s.control.tasks y.index) { y with phase := .detached } :=
        ⟨hfiber.active, hfiber.subject, .inl hdetached⟩
      have hadvance := hinv.tasks.advance hp (by rfl) hfiber' rfl rfl rfl rfl rfl
      rw [update_eq_self] at hadvance
      exact hadvance
    · rename_i hspawned hdetached
      exact absurd hfiber.live (not_or.mpr ⟨hdetached, fun h => hspawned h.1⟩)
  · rename_i hphase
    have hdetached : (s.control.tasks y.index).body.state = .DETACHED := hfiber.live.resolve_right fun h => h.2 hphase
    refine ⟨.single changes_clear, ?_⟩
    have htasks : (s.control.clearSlot .TASK y.index).tasks = _ := tasks_setSlot s.control y.index _
    refine hinv.tasks.leave hp (fun k c hc heq => ?_) nofun
    have hlive := (hinv.tasks.call k c hc).live
    rw [heq, hdetached] at hlive
    rcases hlive with hlive | ⟨hlive, -⟩ <;> cases hlive

theorem reclaim_taken (hinv : Inv s) {f : Family} (hidle : s.idle subject = true) :
    Taken s (s.control.reclaimSubject f subject).tasks := by
  intro i
  rcases reclaimSubject_cases (b := s.control) (f := f) .TASK i subject with hsame | ⟨-, -, hsubject, hreclaimed⟩
  · exact .inl hsame
  refine .inr ⟨hreclaimed, fun k c hc heq => ?_⟩
  rw [State.idle, decide_eq_true_eq] at hidle
  have hown := (hinv.tasks.call k c hc).subject
  rw [heq] at hown
  exact hidle k c hc (hown.symm.trans hsubject)

theorem reclaim_keeps (hinv : Inv s) {f : Family} (hidle : s.idle subject = true) :
    Keeps s { s with control := s.control.reclaimSubject f subject } :=
  ⟨changes_reclaim f subject, hinv.tasks.lower (reclaim_taken hinv hidle)⟩

theorem rollback_taken (hinv : Inv s) (hknown : s.known t = true) : Taken s (s.control.rollbackToken t).tasks := by
  obtain ⟨hminted, hknown⟩ := known_iff.mp hknown
  unfold Control.rollbackToken
  split
  · exact .same
  rename_i f hf
  split
  · exact .same
  rename_i i hi
  by_cases hf' : f = .TASK
  · subst hf'
    refine .one (withdrawn_cases (s.control.tasks i)).symm fun k c hc => ?_
    exact hinv.tasks.index_ne hminted (Family.ofCode_eq_some.mp hf) hknown
      (named_iff.mp (first_some hi)).2.1 hc
  · rw [tasks_setSlot_of_ne hf']
    exact .same

theorem rollback_keeps (hinv : Inv s) (hknown : s.known t = true) :
    Keeps s { s with control := s.control.rollbackToken t } := by
  refine ⟨?_, hinv.tasks.lower (rollback_taken hinv hknown)⟩
  unfold Control.rollbackToken
  split
  · exact .refl
  split
  · exact .refl
  · exact changes_setSlot (lowers_rolledBack _)

theorem exec_keeps (hinv : Inv s) {a : Action n} {r : State n × Option Outcome} (h : s.exec a = some r) : Keeps s r.1 := by
  obtain ⟨s', out⟩ := r
  cases State.exec_executes h with
  | op hunforged => exact performOp_keeps hinv hunforged
  | refused => exact ⟨.refl, hinv.tasks⟩
  | reserved hk hreserve =>
    obtain ⟨hfree, hnext⟩ := spawnReserve_ok hreserve
    exact reserve_keeps hinv hk hfree hnext
  | unissued hc hnone =>
    have htask := (hinv.tasks.call _ _ hc).unstarted hnone
    exact (giveUp_keeps hinv hc htask).advance (s.epoch_le_load _ 2)
  | issued hc hnone hissue => exact issue_keeps hinv hc hnone hissue
  | unstarted hc _ htask => exact giveUp_keeps hinv hc htask
  | started hc htoken htask hkind => exact ⟨.refl, hinv.tasks.start hc htask (htoken ▸ nofun) hkind _⟩
  | computed hc _ htask =>
    refine body_keeps (setTaskState_setResult ..) rfl rfl (hinv.tasks.finish hc (fun y hy heq => ?_) nofun)
    exact absurd heq ((hinv.tasks.call _ _ hc).alone htask y hy)
  | stored hc _ htask => exact store_keeps hinv hc htask
  | fiber hx => exact fiberStep_keeps hinv hx _
  | revokedAll => exact ⟨.single (changes_advance (epochRank_le_next _)), hinv.tasks⟩
  | reclaimed hidle => exact reclaim_keeps hinv hidle
  | rolledBack hknown => exact rollback_keeps hinv hknown

end Steps

/-! ## What tokens name -/

section Names

variable {s : State n} {t : Token} {f : Family} {i : Fin slotCount}

theorem Inv.named_subject (hinv : Inv s) {t : Token} (ht : t ∈ s.minted) (hfamily : t.family = f.code)
    (hnamed : (s.control.slots f i).named t = true) : (s.control.slots f i).subjectId = t.subjectId := by
  obtain ⟨hactive, hid, hgeneration⟩ := named_iff.mp hnamed
  rcases hinv.registry.backed _ (ticket_mem ht hfamily) i _ (grant_of_active hactive) (congrArg UInt64.toNat hid) with
    hlt | ⟨-, howner, -⟩
  · exact absurd (congrArg UInt64.toNat hgeneration).symm (Nat.ne_of_lt hlt)
  · exact howner.symm

theorem Inv.slot_eq (hinv : Inv s) {j : Fin slotCount} (hi : (s.control.slots f i).named t = true)
    (hj : (s.control.slots f j).named t = true) : i = j := by
  obtain ⟨hactive, hid, -⟩ := named_iff.mp hi
  obtain ⟨hactive', hid', -⟩ := named_iff.mp hj
  exact hinv.registry.unique f i j _ _ (grant_of_active hactive) (grant_of_active hactive')
    (congrArg UInt64.toNat (hid.trans hid'.symm))

end Names

/-! ## Runs -/

variable {s : State n}

theorem step_keeps {s' : State n} {a : Action n} (hinv : Inv s) (h : step s a = some s') : Keeps s s' := by
  obtain ⟨r, hr, rfl⟩ := Option.map_eq_some_iff.mp h
  exact exec_keeps hinv hr

theorem step_inv (s : State n) (a : Action n) (s' : State n) (hinv : Inv s) (h : step s a = some s') : Inv s' :=
  ⟨(step_keeps hinv h).changes.ok hinv.registry, (step_keeps hinv h).tasks⟩

theorem init_inv (runtimeId : UInt64) (key : Key) : Inv (State.init n runtimeId key) := by
  refine ⟨⟨nofun, nofun, nofun, ?_, ?_⟩, ⟨nofun, nofun, nofun, List.nodup_nil, nofun⟩⟩
  all_goals
    rintro _ ⟨-, t, ht, -⟩
    cases ht

theorem reachable_inv {runtimeId : UInt64} {key : Key} (h : Reachable step (State.init n runtimeId key) s) : Inv s :=
  h.induction (init_inv runtimeId key) step_inv

theorem run_changes {s' : State n} {as : List (Action n)} (hinv : Inv s) (h : run step s as = some s') :
    Inv s' ∧ Changes s.registry s'.registry :=
  ⟨run_induction step_inv hinv h,
    run_trans (R := fun s s' : State n => Changes s.registry s'.registry) (fun _ => .refl) (fun _ _ _ => .trans) step_inv
      (fun _ _ _ hinv hstep => (step_keeps hinv hstep).changes) hinv h⟩

end Llam.Broker
