import Llam.Broker.TaskSlots

/-!
# Tokens that were issued

Where the tokens of the history come from (`Source`, `exec_minted`): what an operation derives from the token that it
presents, the token of a new object, and the token of a spawn. A client that has a token keeps it (`exec_known`), a spawn in
progress has the token of its own slot (`reachable_callsNamed`), and an object whose only token nobody uses stays as it is
(`Held`, `exec_held`).
-/

namespace Llam.Broker

open Llam.Lib Function Control Slot State

variable {n : Nat}

/-- The token that the step presents. -/
def Action.presents : Action n → Option Token
  | .op _ o _ _ => o.presents
  | _ => none

/-- **Where a token comes from.** -/
inductive Source (s : State n) (a : Action n) (t : Token) : Prop
  /-- The object is that of another token. -/
  | derived {u : Token} (hpresents : a.presents = some u) (hu : u ∈ s.minted) (hfamily : t.family = u.family)
      (hslot : t.slot = u.slot)
  /-- The object is new. -/
  | created {f : Family} (hfamily : t.family = f.code) (hslot : t.slot = s.control.next f)
  /-- The object is the task of a spawn. -/
  | spawned {k : Fin n} {c : Call} (hc : s.calls k = some c) (hnone : c.token = none)
      (hfamily : t.family = Family.TASK.code) (hslot : t.slot = (s.control.tasks c.index).id)

/-! ## The history -/

section History

variable {s s' : State n} {a : Action n} {out : Option Outcome} {t : Token} {k : Fin n} {c : Call}

theorem performOp_minted {A : UInt64} {o : Op} {overtakes : Nat → Nat} {env : Env}
    (hunforged : o.presents.all s.unforged = true) (ht : (s.performOp A o overtakes env).2.token = some t) :
    Source s (.op A o overtakes env) t := by
  have heffect : s.control.Effect A (s.load overtakes) o _
      (s.control.perform A (s.load overtakes) o env).2.token := perform_effect o
  have htoken : (s.control.perform A (s.load overtakes) o env).2.token = some t := ht
  rw [htoken] at heffect
  generalize (s.control.perform A (s.load overtakes) o env).1 = b at heffect
  cases heffect with
  | attenuate hop hfound _ _ htoken =>
    have hpresents := congrArg Op.presents hop
    exact .derived hpresents (mem_minted hunforged hpresents hfound.mac) (htoken.family.trans hfound.family.symm)
      htoken.number
  | rotate hpresents _ hfound _ _ _ htoken =>
    exact .derived hpresents (mem_minted hunforged hpresents hfound.mac) (htoken.family.trans hfound.family.symm)
      htoken.number
  | create _ _ _ htoken => exact .created htoken.family htoken.number

theorem exec_minted (h : s.exec a = some (s', out)) : ∃ new, s'.minted = s.minted ++ new ∧ ∀ t ∈ new, Source s a t := by
  have hnothing : s'.minted = s.minted → ∃ new, s'.minted = s.minted ++ new ∧ ∀ t ∈ new, Source s a t :=
    fun hsame => ⟨[], hsame.trans (List.append_nil _).symm, nofun⟩
  cases exec_executes h with
  | op hunforged => exact ⟨_, rfl, fun t ht => performOp_minted hunforged (Option.mem_toList.mp ht)⟩
  | issued hc hnone hissue =>
    have htoken := spawnIssue_ok hissue
    refine ⟨_, rfl, fun u hu => ?_⟩
    cases List.mem_singleton.mp hu
    exact .spawned hc hnone htoken.family htoken.number
  | fiber => exact hnothing (s.fiberStep_rest _ _ _).2.1
  | _ => exact hnothing rfl

theorem exec_mem_minted (h : s.exec a = some (s', out)) (ht : t ∈ s.minted) : t ∈ s'.minted := by
  obtain ⟨new, hminted, -⟩ := exec_minted h
  rw [hminted]
  exact List.mem_append_left new ht

end History

/-! ## Spawns in progress -/

/-- The token of a spawn in progress names its slot. -/
structure Call.Named (s : State n) (c : Call) (t : Token) : Prop where
  minted : t ∈ s.minted
  family : t.family = Family.TASK.code
  subject : t.subjectId = c.subject
  named : (s.control.tasks c.index).named t = true

def State.CallsNamed (s : State n) : Prop := ∀ k c t, s.calls k = some c → c.token = some t → c.Named s t

section Calls

variable {s s' : State n} {a : Action n} {out : Option Outcome} {t : Token} {k : Fin n} {c : Call}

theorem exec_calls (h : s.exec a = some (s', out)) {l : Fin n} {c' : Call} (hc' : s'.calls l = some c') :
    (∃ c, s.calls l = some c ∧ c'.index = c.index ∧ c'.subject = c.subject ∧ c'.token = c.token) ∨
      s.calls l = none ∧ c'.token = none ∨
      ∃ c t, s.calls l = some c ∧ c.token = none ∧ c' = { c with token := some t } ∧ t ∈ s'.minted ∧
        t.family = Family.TASK.code ∧ t.subjectId = c.subject ∧ t.slot = (s.control.tasks c.index).id ∧
        t.generation = (s.control.tasks c.index).generation ∧ s'.control.tasks = s.control.tasks := by
  have hsame : s'.calls = s.calls →
      ∃ c, s.calls l = some c ∧ c'.index = c.index ∧ c'.subject = c.subject ∧ c'.token = c.token :=
    fun heq => ⟨c', heq ▸ hc', rfl, rfl, rfl⟩
  have hother : ∀ {k : Fin n} {v : Option Call}, l ≠ k → s'.calls = update s.calls k v →
      ∃ c, s.calls l = some c ∧ c'.index = c.index ∧ c'.subject = c.subject ∧ c'.token = c.token := by
    intro k v hne heq
    rw [heq, update_of_ne hne] at hc'
    exact ⟨c', hc', rfl, rfl, rfl⟩
  have hreturns : ∀ {k : Fin n}, s'.calls = update s.calls k none →
      ∃ c, s.calls l = some c ∧ c'.index = c.index ∧ c'.subject = c.subject ∧ c'.token = c.token := by
    intro k heq
    refine hother (k := k) ?_ heq
    rintro rfl
    rw [heq, update_self] at hc'
    cases hc'
  cases exec_executes h with
  | @reserved k _ _ _ _ _ _ _ hk =>
    rcases eq_or_ne l k with rfl | hne
    · dsimp only [State.setCall] at hc'
      rw [update_self] at hc'
      cases hc'
      exact .inr (.inl ⟨hk, rfl⟩)
    · exact .inl (hother hne rfl)
  | @issued k c _ _ t hc hnone hissue =>
    have htoken := spawnIssue_ok hissue
    rcases eq_or_ne l k with rfl | hne
    · dsimp only [State.setCall, State.after] at hc'
      rw [update_self] at hc'
      cases hc'
      exact .inr (.inr ⟨c, t, hc, hnone, rfl, List.mem_append_right _ (List.mem_singleton_self t), htoken.family,
        htoken.audience, htoken.number, htoken.version, rfl⟩)
    · exact .inl (hother hne rfl)
  | @started k c _ _ hc =>
    rcases eq_or_ne l k with rfl | hne
    · dsimp only [State.setCall] at hc'
      rw [update_self] at hc'
      cases hc'
      exact .inl ⟨c, hc, rfl, rfl, rfl⟩
    · exact .inl (hother hne rfl)
  | unissued | unstarted | computed | stored => exact .inl (hreturns rfl)
  | fiber => exact .inl (hsame (s.fiberStep_rest _ _ _).1)
  | op | refused | revokedAll | reclaimed | rolledBack => exact .inl (hsame rfl)

theorem exec_known (hinv : Inv s) (h : s.exec a = some (s', out)) (ht : s.known t = true) : s'.known t = true := by
  obtain ⟨hminted, hcalls⟩ := known_iff.mp ht
  refine known_iff.mpr ⟨exec_mem_minted h hminted, fun l hl => ?_⟩
  obtain ⟨c', hc', htoken⟩ := Option.bind_eq_some_iff.mp hl
  rcases exec_calls h hc' with ⟨c, hc, -, -, hsame⟩ | ⟨-, hnone⟩ | ⟨c, u, hc, hnone, rfl, -, hfamily, -, hslot, -⟩
  · exact hcalls l (Option.bind_eq_some_iff.mpr ⟨c, hc, hsame.symm.trans htoken⟩)
  · cases hnone.symm.trans htoken
  · cases htoken
    cases hnone.symm.trans ((hinv.tasks.call l c hc).secret t hminted hfamily hslot)

theorem exec_callsNamed (hinv : Inv s) (h : s.exec a = some (s', out)) (hs : s.CallsNamed) : s'.CallsNamed := by
  intro l c' t hc' htoken
  have hinv' : Inv s' := ⟨(exec_keeps hinv h).changes.ok hinv.registry, (exec_keeps hinv h).tasks⟩
  rcases exec_calls h hc' with ⟨c, hc, hindex, hsubject, hsame⟩ | ⟨-, hnone⟩ |
    ⟨c, u, hc, hnone, rfl, hminted, hfamily, hsubject, hslot, hgeneration, htasks⟩
  · have hold := hs l c t hc (hsame.symm.trans htoken)
    refine ⟨exec_mem_minted h hold.minted, hold.family, hold.subject.trans hsubject.symm, ?_⟩
    -- the slot of a spawn goes on
    have hactive' := (hinv'.tasks.call l c' hc').active
    rw [hindex] at hactive' ⊢
    obtain ⟨hactive, hid, hgeneration⟩ := named_iff.mp hold.named
    have hcontinues := (exec_moves hinv h).continues hinv hactive hactive'
    exact named_iff.mpr ⟨hactive', hcontinues.id.trans hid, hcontinues.generation.trans hgeneration⟩
  · cases hnone.symm.trans htoken
  · cases htoken
    refine ⟨hminted, hfamily, hsubject, ?_⟩
    rw [htasks]
    exact named_iff.mpr ⟨(hinv.tasks.call l c hc).active, hslot.symm, hgeneration.symm⟩

end Calls

/-! ## Objects with one token -/

/-- The tables leave an object alone that nobody works on: a channel that is not closed, a task that is not detached. -/
def Kept : (f : Family) → Slot (Body f) → Prop
  | .CHANNEL, x => (x.body : Channel).closed = false
  | .TASK, x => (x.body : Task).state = .SPAWNED ∨ (x.body : Task).state = .COMPLETED
  | _, _ => True

/-- The slot holds the object of the token, and there is no other token for it. -/
structure Held (s : State n) (t : Token) (f : Family) (i : Fin slotCount) : Prop where
  known : s.known t = true
  family : t.family = f.code
  named : (s.control.slots f i).named t = true
  sole : ∀ u ∈ s.minted, u.family = f.code → u.slot = t.slot → u = t
  kept : Kept f (s.control.slots f i)

section Held

variable {s s' : State n} {a : Action n} {out : Option Outcome} {t u : Token} {f g : Family} {i j : Fin slotCount}

theorem not_reusable_of_kept {x : Slot (Body f)} (hactive : x.active = true) (hkept : Kept f x) :
    Control.reusable f x = false := by
  cases f with
  | BUFFER | DESCRIPTOR | TASK => exact (Bool.not_eq_false' _).mpr hactive
  | CHANNEL =>
    have hclosed : (x.body : Channel).closed = false := hkept
    rw [Control.reusable, hactive, hclosed]
    rfl

variable (h : Held s t f i)

include h

theorem Held.apart (hu : u ∈ s.minted) (hne : u ≠ t) (hfamily : u.family = g.code)
    (hnamed : (s.control.slots g j).named u = true) : ¬ (f = g ∧ i = j) := by
  rintro ⟨rfl, rfl⟩
  have hid := (named_iff.mp h.named).2.1
  exact hne (h.sole u hu hfamily ((named_iff.mp hnamed).2.1.symm.trans hid))

theorem Held.spawn_apart (hinv : Inv s) {k : Fin n} {c : Call} (hc : s.calls k = some c) :
    ¬ (f = .TASK ∧ i = c.index) := by
  rintro ⟨rfl, rfl⟩
  obtain ⟨hminted, hknown⟩ := known_iff.mp h.known
  exact hinv.tasks.index_ne hminted h.family hknown (named_iff.mp h.named).2.1 hc rfl

/-- The slot after a step. -/
def Held.Slot (t : Token) (f : Family) (x : Broker.Slot (Body f)) : Prop := x.named t = true ∧ Kept f x

theorem Held.setSlot {x : Broker.Slot (Body g)} (hne : ¬ (f = g ∧ i = j)) :
    Held.Slot t f ((s.control.setSlot g j x).slots f i) := by
  rw [setSlot_of_ne hne]
  exact ⟨h.named, h.kept⟩

theorem Held.effect {A : UInt64} {load : Nat → UInt64} {o : Op} {b : Control} {token : Option Token}
    (heffect : s.control.Effect A load o b token) (hunforged : o.presents.all s.unforged = true)
    (hpresents : o.presents ≠ some t) : Held.Slot t f (b.slots f i) := by
  have hactive := (named_iff.mp h.named).1
  have hother : ∀ {g : Family} {j : Fin slotCount} {epoch : UInt64} {u : Token}, o.presents = some u →
      s.control.Found g j A epoch u → ¬ (f = g ∧ i = j) := by
    intro g j epoch u hu hfound
    refine h.apart (mem_minted hunforged hu hfound.mac) ?_ hfound.family hfound.named
    rintro rfl
    exact hpresents hu
  have hfree : ∀ {g : Family} {j : Fin slotCount}, Control.reusable g (s.control.slots g j) = true → ¬ (f = g ∧ i = j) := by
    rintro g j hreusable ⟨rfl, rfl⟩
    cases hreusable.symm.trans (not_reusable_of_kept hactive h.kept)
  cases heffect with
  | same | attenuate => exact ⟨h.named, h.kept⟩
  | rotate hu _ hfound | body x hu hfound | clear hu hfound | detach hu hfound => exact h.setSlot (hother hu hfound)
  | create _ hreusable => exact h.setSlot (hfree hreusable)
  | burn _ hreusable =>
    rw [Control.clearSlot, setSlot_of_ne (hfree hreusable)]
    exact h.setSlot (hfree hreusable)

theorem Held.fiber {p : Nat} {y : Fiber} (slept : Option Errno) (hinv : Inv s)
    (hy : s.fibers[p]? = some y) : Held.Slot t f ((s.fiberStep p y slept).control.slots f i) := by
  have hslot : ∀ {x : Broker.Slot Task}, (f = .TASK ∧ i = y.index →
      (s.control.tasks y.index).body.state = .SPAWNED ∨ (s.control.tasks y.index).body.state = .COMPLETED →
      x.id = (s.control.tasks y.index).id ∧ x.generation = (s.control.tasks y.index).generation ∧
      x.active = (s.control.tasks y.index).active ∧ (x.body.state = .SPAWNED ∨ x.body.state = .COMPLETED)) →
      Held.Slot t f ((s.control.setSlot .TASK y.index x).slots f i) := by
    intro x hx
    by_cases hsame : f = .TASK ∧ i = y.index
    · obtain ⟨hid, hgeneration, hactive, hstate⟩ := hx hsame (by obtain ⟨rfl, rfl⟩ := hsame; exact h.kept)
      obtain ⟨rfl, rfl⟩ := hsame
      rw [setSlot_self]
      obtain ⟨hactive', hid', hgeneration'⟩ := named_iff.mp h.named
      exact ⟨named_iff.mpr ⟨hactive.trans hactive', hid.trans hid', hgeneration.trans hgeneration'⟩, hstate⟩
    · exact h.setSlot hsame
  have hfiber := hinv.tasks.fiber y (List.mem_of_getElem? hy)
  unfold State.fiberStep
  split
  · exact hslot fun _ hstate => ⟨rfl, rfl, rfl, hstate⟩
  · dsimp only
    split
    · exact hslot fun _ _ => ⟨rfl, rfl, rfl, .inr rfl⟩
    · exact ⟨h.named, h.kept⟩
    · exact ⟨h.named, h.kept⟩
  · rename_i hphase
    have hdetached : (s.control.tasks y.index).body.state = .DETACHED := hfiber.live.resolve_right fun h => h.2 hphase
    refine hslot fun _ hstate => ?_
    rw [hdetached] at hstate
    rcases hstate with h | h <;> cases h

/-- The step takes the object away: it presents the token, rolls it back or reclaims its subject. -/
def Action.disposes (a : Action n) (t : Token) : Prop :=
  a.presents = some t ∨ a = .rollback t ∨ ∃ f, a = .reclaim f t.subjectId ∧ t.subjectId ≠ 0

theorem exec_slot (hinv : Inv s) (hexec : s.exec a = some (s', out)) (hkeeps : ¬ a.disposes t) :
    Held.Slot t f (s'.control.slots f i) := by
  unfold Action.disposes at hkeeps
  rw [not_or, not_or] at hkeeps
  obtain ⟨hpresents, hrollback, hreclaim⟩ := hkeeps
  cases exec_executes hexec with
  | @op A o overtakes env hunforged =>
    have heffect : s.control.Effect A (s.load overtakes) o _
        (s.control.perform A (s.load overtakes) o env).2.token := perform_effect o
    have hslot := h.effect heffect hunforged hpresents
    exact hslot
  | reserved hk hreserve =>
    refine h.setSlot ?_
    rintro ⟨rfl, rfl⟩
    cases (spawnReserve_ok hreserve).1.symm.trans (named_iff.mp h.named).1
  | unissued hc | unstarted hc | stored hc => exact h.setSlot (h.spawn_apart hinv hc)
  | computed hc =>
    rw [setTaskState_setResult]
    exact h.setSlot (h.spawn_apart hinv hc)
  | fiber hx => exact h.fiber _ hinv hx
  | @reclaimed g A =>
    rcases reclaimSubject_cases (b := s.control) (f := g) f i A with hsame | ⟨rfl, hactive, howner, -⟩
    · rw [hsame]
      exact ⟨h.named, h.kept⟩
    have hsubject := hinv.named_subject (known_iff.mp h.known).1 h.family h.named
    obtain rfl : A = t.subjectId := howner.symm.trans hsubject
    by_cases hzero : t.subjectId = 0
    · unfold Control.reclaimSubject
      rw [if_pos hzero]
      exact ⟨h.named, h.kept⟩
    · exact absurd ⟨_, rfl, hzero⟩ hreclaim
  | rolledBack hknown =>
    unfold Control.rollbackToken
    split
    · exact ⟨h.named, h.kept⟩
    rename_i g hg
    split
    · exact ⟨h.named, h.kept⟩
    rename_i j hj
    refine h.setSlot (h.apart (known_iff.mp hknown).1 ?_ (Family.ofCode_eq_some.mp hg) (first_some hj))
    rintro rfl
    exact hrollback rfl
  | refused | issued | started | revokedAll => exact ⟨h.named, h.kept⟩

theorem exec_held (hinv : Inv s) (hexec : s.exec a = some (s', out)) (hkeeps : ¬ a.disposes t) : Held s' t f i := by
  obtain ⟨hnamed, hkept⟩ := exec_slot h hinv hexec hkeeps
  refine ⟨exec_known hinv hexec h.known, h.family, hnamed, fun u hu hfamily hslot => ?_, hkept⟩
  obtain ⟨new, hminted, hsource⟩ := exec_minted hexec
  rw [hminted] at hu
  rcases List.mem_append.mp hu with hu | hu
  · exact h.sole u hu hfamily hslot
  obtain ⟨hmem, hknown⟩ := known_iff.mp h.known
  cases hsource u hu with
  | derived hpresents hv hfamily' hslot' =>
    obtain rfl := h.sole _ hv (hfamily'.symm.trans hfamily) (hslot'.symm.trans hslot)
    exact absurd (.inl hpresents) hkeeps
  | @created g hfamily' hslot' =>
    obtain rfl := Family.code_inj (hfamily'.symm.trans hfamily)
    -- the number of the object was used before
    have hlt := (hinv.registry.ticket _ (ticket_mem hmem h.family)).1
    exact absurd (congrArg UInt64.toNat (hslot.symm.trans hslot')) (Nat.ne_of_lt hlt)
  | @spawned k c hc hnone hfamily' hslot' =>
    exact absurd rfl (hinv.tasks.index_ne hmem ((h.family.trans hfamily.symm).trans hfamily') hknown
      (hslot'.symm.trans hslot) hc)

end Held

/-! ## New objects -/

section New

variable {s s' : State n} {out : Outcome} {t : Token} {f : Family} {A : UInt64} {o : Op} {rights : Rights} {k : Fin n}
  {c : Call}

/-- What an operation has done that creates an object and issues its token. -/
structure Control.New (b : Control) (f : Family) (A epoch : UInt64) (rights : Rights) (b' : Control) (t : Token) : Prop where
  token : b.TokenFor f (b.next f) 1 rights A epoch t
  slot : ∃ i body, b' = b.allot f i A rights body ∧ Kept f ⟨b.next f, 1, rights, A, true, body⟩
  other : f ≠ .TASK

theorem Control.createObject_new {b : Control} {body : Body f} {epoch : UInt64} {entropy : Option (UInt64 × UInt64)}
    (hbody : Kept f ⟨b.next f, 1, rights, A, true, body⟩) (hother : f ≠ .TASK)
    (ht : (b.createObject f body A epoch rights entropy).2.token = some t) :
    b.New f A epoch rights (b.createObject f body A epoch rights entropy).1 t := by
  unfold Control.createObject at ht ⊢
  split at ht
  · cases ht
  rename_i i _
  split at ht
  · cases ht
  split at ht
  · cases ht
  rename_i hissue
  cases ht
  exact ⟨issueObjectCap_ok hissue, ⟨i, body, rfl, hbody⟩, hother⟩

theorem Control.perform_new {b : Control} {load : Nat → UInt64} {env : Env} (hcreates : o.creates = some (f, rights))
    (ht : (b.perform A load o env).2.token = some t) : b.New f A (load 0) rights (b.perform A load o env).1 t := by
  cases o with
  | registerBuffer data rights | registerHandle handle rights closeOnDestroy | createChannel capacity rights =>
    cases hcreates
    simp only [Control.perform, Control.registerBuffer, Control.registerHandle, Control.createChannel] at ht ⊢
    split at ht
    · cases ht
    rename_i hvalid
    rw [if_neg hvalid]
    split at ht <;> first | exact createObject_new (by trivial) (by decide) ht | cases ht
  | _ => cases hcreates

theorem exec_op_new (hinv : Inv s) (hcalls : s.CallsNamed) {overtakes : Nat → Nat} {env : Env}
    (hexec : s.exec (.op A o overtakes env) = some (s', some out)) (hcreates : o.creates = some (f, rights))
    (ht : out.token = some t) : (∃ i, Held s' t f i) ∧ t.slot = s.control.next f ∧ t.subjectId = A ∧ t ∉ s.minted := by
  cases exec_executes hexec
  have hnew : s.control.New f A (s.load overtakes 0) rights (s.control.perform A (s.load overtakes) o env).1 t :=
    perform_new hcreates ht
  obtain ⟨i, body, hallot, hkept⟩ := hnew.slot
  have hfresh : ∀ u ∈ s.minted, u.family = f.code → u.slot ≠ t.slot := by
    intro u hu hfamily hslot
    have hlt := (hinv.registry.ticket _ (ticket_mem hu hfamily)).1
    exact Nat.ne_of_lt hlt (congrArg UInt64.toNat (hslot.trans hnew.token.number))
  have hslots : (s.performOp A o overtakes env).1.control.slots f i = ⟨s.control.next f, 1, rights, A, true, body⟩ :=
    (congrArg (fun b : Control => b.slots f i) hallot).trans (setSlot_self s.control f i _)
  have hminted : (s.performOp A o overtakes env).1.minted = s.minted ++ [t] :=
    congrArg (fun u : Option Token => s.minted ++ u.toList) ht
  refine ⟨⟨i, ?_, hnew.token.family, ?_, ?_, ?_⟩, hnew.token.number, hnew.token.audience,
    fun hmem => hfresh t hmem hnew.token.family rfl⟩
  · refine known_iff.mpr ⟨?_, fun l hl => ?_⟩
    · rw [hminted]
      exact List.mem_append_right _ (List.mem_singleton_self t)
    · obtain ⟨c, hc, htoken⟩ := Option.bind_eq_some_iff.mp hl
      exact hnew.other (Family.code_inj (hnew.token.family.symm.trans (hcalls l c t hc htoken).family))
  · rw [hslots]
    exact named_iff.mpr ⟨rfl, hnew.token.number.symm, hnew.token.version.symm⟩
  · intro u hu hfamily hslot
    rw [hminted] at hu
    rcases List.mem_append.mp hu with hu | hu
    · exact absurd hslot (hfresh u hu hfamily)
    · exact List.mem_singleton.mp hu
  · rw [hslots]
    exact hkept

theorem exec_reserve_new {code : UInt32} {arg0 : UInt64} {env : Env}
    (hexec : s.exec (.spawn k A code arg0 rights env) = some (s', none)) :
    ∃ c, s'.calls k = some c ∧ c.subject = A ∧ (s'.control.tasks c.index).id = s.control.next .TASK := by
  cases exec_executes hexec
  refine ⟨_, update_self .., rfl, ?_⟩
  exact congrArg Slot.id (setSlot_self s.control .TASK _ _)

theorem returns_new (hinv : Inv s) (hcalls : s.CallsNamed) (hc : s.calls k = some c) (htoken : c.token = some t)
    (hnone : s'.calls = update s.calls k none) (hminted : s'.minted = s.minted) {x : Task}
    (hcontrol : s'.control = s.control.setBody .TASK c.index x) (hkept : x.state = .SPAWNED ∨ x.state = .COMPLETED) :
    Held s' t .TASK c.index := by
  have hnamed := hcalls k c t hc htoken
  have hid := (named_iff.mp hnamed.named).2.1
  have hslot : s'.control.slots .TASK c.index = { s.control.slots .TASK c.index with body := x } := by
    rw [hcontrol]
    exact setSlot_self s.control .TASK c.index _
  refine ⟨known_iff.mpr ⟨hminted ▸ hnamed.minted, fun l hl => ?_⟩, hnamed.family, ?_, fun u hu hfamily hu' => ?_, ?_⟩
  · obtain ⟨d, hd, hdtoken⟩ := Option.bind_eq_some_iff.mp hl
    rw [hnone] at hd
    rcases eq_or_ne l k with rfl | hne
    · rw [update_self] at hd
      cases hd
    -- spawns have different slots
    rw [update_of_ne hne] at hd
    obtain ⟨hactive', hid', -⟩ := named_iff.mp (hcalls l d t hd hdtoken).named
    have hindex := hinv.index_eq hactive' (named_iff.mp hnamed.named).1 (hid'.trans hid.symm)
    exact hne (hinv.tasks.apart l k d c hd hc hindex)
  · rw [hslot]
    exact hnamed.named
  · rw [hminted] at hu
    exact Option.some.inj (((hinv.tasks.call k c hc).secret u hu hfamily (hu'.trans hid.symm)).symm.trans htoken)
  · rw [hslot]
    exact hkept

theorem exec_spawn_new (hinv : Inv s) (hcalls : s.CallsNamed) {a : Action n} (hexec : s.exec a = some (s', some out))
    (ha : (∃ started, a = .finish k started) ∨ a = .store k) (ht : out.token = some t) :
    ∃ c, s.calls k = some c ∧ c.token = some t ∧ Held s' t .TASK c.index := by
  rcases ha with ⟨started, rfl⟩ | rfl
  · cases exec_executes hexec with
    | unstarted => cases ht
    | computed hc htoken =>
      cases ht
      exact ⟨_, hc, htoken, returns_new hinv hcalls hc htoken rfl rfl (setTaskState_setResult ..) (.inr rfl)⟩
  · cases exec_executes hexec with
    | stored hc htoken =>
      cases ht
      refine ⟨_, hc, htoken, returns_new hinv hcalls hc htoken rfl rfl rfl ?_⟩
      exact (hinv.tasks.call k _ hc).live.imp id And.left

end New

end Llam.Broker
