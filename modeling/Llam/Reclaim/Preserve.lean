import Llam.Reclaim.Outline

/-!
# Every action keeps the invariant

One lemma per section of the source. `Inv.goto` moves one caller; `Inv.hold` is for the actions of the holder, which
leave every other caller outside its claim alone.
-/

namespace Llam.Reclaim

open Llam.Lib Function

variable {C G : Type} [DecidableEq C] [DecidableEq G] {s s' : State C G} {c d : C}

@[simp] theorem setPc_pc_self (s : State C G) (c : C) (pc : Pc G) : (s.setPc c pc).pc c = pc := by
  simp [State.setPc]

@[simp] theorem setPc_pc_other (s : State C G) {c d : C} (pc : Pc G) (h : d ≠ c) : (s.setPc c pc).pc d = s.pc d := by
  simp [State.setPc, h]

/-! ## Moving one caller -/

theorem Tight.refl (s : State C G) (d : C) : Tight s s d where
  registry := Iff.rfl
  task := Iff.rfl
  gen := Nat.le_refl _
  issued _ h := h
  resolved _ := rfl
  holder := rfl
  allocated := rfl
  incarnation := rfl
  handleOf := rfl
  handleGen := rfl
  scopeCompletion := rfl
  detached := rfl
  reclaimer := rfl
  consumers := rfl
  joinWaiters := rfl
  ready h := h

theorem tight_setPc (s : State C G) (c : C) (pc : Pc G) (d : C) : Tight s (s.setPc c pc) d :=
  { Tight.refl s d with }

/-- What the storage asks of the program counter its holder moves to. -/
structure Moves (s : State C G) (c : C) (pc : Pc G) : Prop where
  waiting : c ∉ s.joinWaiters
  responsible : s.holder = some c → s.detached = true → s.reclaimer s.incarnation = none →
    s.sched s.incarnation ≠ .done ∨ ∃ handle, pc = .detachLoad handle ∨ pc = .detachReclaim handle
  reclaiming : s.reclaimer s.incarnation = some (.caller c) → s.allocated = true →
    ∃ call, pc = .invalidate call ∨ pc = .free call ∨ pc = .detachUnlock call.handle true

variable {pc : Pc G} {handle : Nat} {args : JoinArgs G} {env : Env} {call : Call G}

theorem Cell.move (h : Cell s) (hm : Moves s c pc) : Cell (s.setPc c pc) :=
  { h with
    elsewhere := h.keep_elsewhere rfl fun _ _ => ⟨rfl, rfl, rfl, rfl, rfl, rfl⟩
    waiters := by
      rcases h.waiters with hw | ⟨d, args, hw, hd, hpc⟩
      · exact .inl hw
      have hdc : d ≠ c := by
        rintro rfl
        exact hm.waiting (by rw [hw]; exact List.mem_singleton_self d)
      exact .inr ⟨d, args, hw, hd, (setPc_pc_other s pc hdc).trans hpc⟩
    responsible := by
      intro hdet hr
      rcases h.responsible hdet hr with hs | ⟨d, handle, hd, hpc⟩
      · exact .inl hs
      by_cases hdc : d = c
      · subst hdc
        refine (hm.responsible hd hdet hr).imp_right fun ⟨handle, hp⟩ => ⟨d, handle, hd, ?_⟩
        rw [setPc_pc_self]
        exact hp
      · refine .inr ⟨d, handle, hd, ?_⟩
        rw [setPc_pc_other s pc hdc]
        exact hpc
    reclaiming := by
      intro d hr ha
      by_cases hdc : d = c
      · subst hdc
        obtain ⟨call, hp⟩ := hm.reclaiming hr ha
        exact ⟨call, by rw [setPc_pc_self]; exact hp⟩
      · obtain ⟨call, hp⟩ := h.reclaiming d hr ha
        exact ⟨call, by rw [setPc_pc_other s pc hdc]; exact hp⟩ }

/-- A caller moves, and nothing else changes. -/
theorem Inv.goto (h : Inv s) (hm : Moves s c pc) (ho : Outline s c pc) : Inv (s.setPc c pc) := by
  refine ⟨h.cell.move hm, fun d => ?_⟩
  by_cases hdc : d = c
  · subst hdc
    rw [setPc_pc_self]
    exact ho.tight (tight_setPc s d pc d)
  · rw [setPc_pc_other s pc hdc]
    exact (h.outline d).tight (tight_setPc s c pc d)

/-- Outside a claim nothing is asked of a move. -/
theorem Inv.moves_of_unclaimed (h : Inv s) (hc : (s.pc c).claims = false) (pc : Pc G) : Moves s c pc where
  waiting := h.cell.not_waiting fun args hp => by rw [hp] at hc; cases hc
  responsible hh hd hr := by
    refine .inl ?_
    rcases h.cell.responsible hd hr with hs | ⟨e, handle, he, hp⟩
    · exact hs
    rw [hh] at he
    cases he
    rcases hp with hp | hp <;> rw [hp] at hc <;> cases hc
  reclaiming hr ha := by
    obtain ⟨call, hp⟩ := h.cell.reclaiming c hr ha
    rcases hp with hp | hp | hp <;> rw [hp] at hc <;> cases hc

/-- A join that has its claim and does not wait moves freely. -/
theorem Joining.moves (h : Joining s c handle) (hw : s.joinWaiters = []) (pc : Pc G) : Moves s c pc where
  waiting := by simp [hw]
  responsible _ hd := by rw [h.attached] at hd; cases hd
  reclaiming hr := by rw [h.unreclaimed] at hr; cases hr

/-- The callers other than the acting holder are outside their claims. -/
theorem Inv.unclaimed_of_ne (h : Inv s) (hh : s.holder = none ∨ s.holder = some c) (hdc : d ≠ c) :
    (s.pc d).claims = false := by
  cases hp : (s.pc d).claims with
  | false => rfl
  | true =>
    obtain ⟨_, hd⟩ := (h.outline d).held hp
    rcases hh with hh | hh <;> rw [hd.holder] at hh <;> cases hh
    exact absurd rfl hdc

/-- **The holder acts**: the others keep what they rely on, because they are outside their claims. -/
theorem Inv.hold (h : Inv s) (hh : s.holder = none ∨ s.holder = some c) (hpc : s'.pc = s.pc)
    (hl : ∀ d, d ≠ c → Loose s s' d) (hcell : Cell (s'.setPc c pc)) (ho : Outline s' c pc) : Inv (s'.setPc c pc) := by
  refine ⟨hcell, fun d => ?_⟩
  by_cases hdc : d = c
  · subst hdc
    rw [setPc_pc_self]
    exact ho.tight (tight_setPc s' d pc d)
  · rw [setPc_pc_other s' pc hdc, hpc]
    exact ((h.outline d).loose (h.unclaimed_of_ne hh hdc) (hl d hdc)).tight (tight_setPc s' c pc d)

/-- **Anybody acts** on what the others do not read. -/
theorem Inv.beside (h : Inv s) (hpc : s'.pc = s.pc) (ht : ∀ d, d ≠ c → Tight s s' d)
    (hcell : Cell (s'.setPc c pc)) (ho : Outline s' c pc) : Inv (s'.setPc c pc) := by
  refine ⟨hcell, fun d => ?_⟩
  by_cases hdc : d = c
  · subst hdc
    rw [setPc_pc_self]
    exact ho.tight (tight_setPc s' d pc d)
  · rw [setPc_pc_other s' pc hdc, hpc]
    exact ((h.outline d).tight (ht d hdc)).tight (tight_setPc s' c pc d)

/-! ## Join -/

/-- An error return of a call that has no claim. -/
theorem Inv.ret_error (h : Inv s) (hc : (s.pc c).claims = false) (hu : Unlocked s c) (call : Call G) (error : Errno) :
    Inv (s.ret c call (some error)) :=
  h.goto (h.moves_of_unclaimed hc _) hu

/-- Taking the join claim of a task that nobody has. -/
theorem Cell.take_claim (h : Cell s) (hc : s.joinClaimed = false) (hd : s.detached = false) (c : C)
    (lock : Option C) (pc : Pc G) :
    Cell (({ s with taskLock := lock, joinClaimed := true, holder := some c } : State C G).setPc c pc) := by
  obtain ⟨hn, hw, hcons⟩ := h.of_unclaimed hc
  have hr := h.unreclaimed hn hd
  exact { h with
    claimFlag := rfl
    detacherHolds := fun d hdet => nomatch hn.symm.trans (h.detacherHolds d hdet)
    byCaller := fun d hcall => nomatch hr.symm.trans hcall
    elsewhere := h.keep_elsewhere rfl fun _ _ => ⟨rfl, rfl, rfl, rfl, rfl, rfl⟩
    waiters := .inl hw
    consumed := .inl hcons
    responsible := fun hdet => nomatch hd.symm.trans hdet
    reclaiming := fun d hcall => nomatch hr.symm.trans hcall }

section

variable (h : Inv s)

include h

theorem joinClaim_inv (hp : s.pc c = .joinClaim args) (hs : joinClaim s c args = some s') : Inv s' := by
  obtain ⟨hu, hi⟩ := h.here hp
  have hc : (s.pc c).claims = false := by rw [hp]; rfl
  have herr : ∀ error, Inv (s.ret c (.join args) (some error)) := fun error => h.ret_error hc hu _ error
  unfold joinClaim at hs
  split at hs
  · cases hs
  split at hs
  · cases hs; exact herr _
  rename_i hres
  split at hs
  · cases hs; exact herr _
  rename_i hscope
  split at hs
  · cases hs; exact herr _
  rename_i hdet
  split at hs
  · cases hs; exact herr _
  split at hs
  · cases hs; exact herr _
  split at hs
  · cases hs; exact herr _
  split at hs
  · cases hs; exact herr _
  rename_i hjoin
  cases hs
  have hgen : s.handleGen = args.handle := by simpa [State.resolves] using hres
  have hd : s.detached = false := by simpa using hdet
  have hj : s.joinClaimed = false := by simpa using hjoin
  obtain ⟨hn, hw, hcons⟩ := h.cell.of_unclaimed hj
  obtain ⟨hcur, halloc⟩ := h.cell.of_resolves hi hgen
  have hjoining : Joining ({ s with joinClaimed := true, holder := some c } : State C G) c args.handle :=
    ⟨⟨rfl, halloc, hcur, hcons⟩, hu, by simpa using hscope, hd, hgen, h.cell.unreclaimed hn hd⟩
  refine h.hold (.inl hn) rfl (fun d _ => { Tight.refl s d with }) (h.cell.take_claim hj hd c s.taskLock _) ?_
  split <;> exact ⟨hjoining, hw⟩

theorem Inv.join_goto (hj : Joining s c handle ∧ s.joinWaiters = []) (ho : Outline s c pc) : Inv (s.setPc c pc) :=
  h.goto (hj.1.moves hj.2 pc) ho

theorem joinFast_inv (hp : s.pc c = .joinFast args) : Inv (joinFast s c args) := by
  have ho := h.here hp
  unfold joinFast
  split <;> exact h.join_goto ho ho

theorem joinLocked_inv (hp : s.pc c = .joinLocked args) (hs : joinLocked s c args env = some s') : Inv s' := by
  have hj : Joining s c args.handle ∧ s.joinWaiters = [] := h.here hp
  have hgo : ∀ error, Inv (s.setPc c (.joinRelease args error)) := fun _ => h.join_goto hj hj
  unfold joinLocked at hs
  split at hs
  · cases hs
  split at hs
  · cases hs; exact hgo _
  split at hs
  · cases hs; exact h.join_goto hj hj
  split at hs
  · cases hs; exact hgo _
  split at hs
  · cases hs; exact hgo _
  split at hs
  · cases hs; exact hgo _
  -- The caller goes on the list of waiters and parks.
  cases hs
  refine h.hold (.inr hj.1.holder) rfl (fun d _ => { Tight.refl s d with }) ?_ ?_
  · exact { h.cell with
      elsewhere := h.cell.keep_elsewhere rfl fun _ _ => ⟨rfl, rfl, rfl, rfl, rfl, rfl⟩
      waiters := .inr ⟨c, args, by rw [← hj.2]; rfl, hj.1.holder, setPc_pc_self _ _ _⟩
      responsible := fun hdet => nomatch hj.1.attached.symm.trans hdet
      reclaiming := fun d hcall => nomatch hj.1.unreclaimed.symm.trans hcall }
  · exact ⟨{ hj.1 with }, by rw [← hj.2]⟩

theorem joinWoken_inv {wakeError : Option Errno}
    (hp : s.pc c = .joinWoken args wakeError) : Inv (joinWoken s c args wakeError) := by
  have ho := h.here hp
  unfold joinWoken
  split <;> exact h.join_goto ho ho

theorem joinPoll_inv (hp : s.pc c = .joinPoll args) : Inv (joinPoll s c args env) := by
  have hj : Joining s c args.handle ∧ s.joinWaiters = [] := h.here hp
  unfold joinPoll
  split
  · split <;> exact h.join_goto hj hj
  split
  · split <;> exact h.join_goto hj hj
  split
  · exact h.join_goto hj hj
  split
  · exact h.join_goto hj hj
  · exact h

theorem joinPolled_inv (hp : s.pc c = .joinPolled args) : Inv (joinPolled s c args env) := by
  have hj : Joining s c args.handle ∧ s.joinWaiters = [] := h.here hp
  unfold joinPolled
  split
  · exact h.join_goto hj hj
  split <;> exact h.join_goto hj hj

theorem joinRelease_inv {error : Errno} (hp : s.pc c = .joinRelease args error) : Inv (joinRelease s c args error) := by
  have hj : Joining s c args.handle ∧ s.joinWaiters = [] := h.here hp
  refine h.hold (.inr hj.1.holder) rfl (fun d _ => { Tight.refl s d with }) ?_ hj.1.unlocked
  exact { h.cell with
    claimFlag := rfl
    detacherHolds := by
      intro d hdet
      have hflag : s.detached = (some d).isSome := h.cell.detachFlag.trans (congrArg Option.isSome hdet)
      exact nomatch hj.1.attached.symm.trans hflag
    byCaller := fun d hcall => nomatch hj.1.unreclaimed.symm.trans hcall
    elsewhere := h.cell.keep_elsewhere rfl fun _ _ => ⟨rfl, rfl, rfl, rfl, rfl, rfl⟩
    waiters := .inl hj.2
    consumed := .inl hj.1.unconsumed
    responsible := fun hdet => nomatch hj.1.attached.symm.trans hdet
    reclaiming := fun d hcall => nomatch hj.1.unreclaimed.symm.trans hcall }

theorem joinReady_inv (hp : s.pc c = .joinReady args) (hs : joinReady s c args = some s') : Inv s' := by
  have hj : Joining s c args.handle ∧ s.joinWaiters = [] := h.here hp
  unfold joinReady at hs
  split at hs
  · rename_i hr
    cases hs
    exact h.join_goto hj ⟨hj.1, hj.2, hr⟩
  · cases hs

end

/-! ## The reclaim claim -/

theorem Cell.sameAt_claimReclaim (h : Cell s) (ha : s.allocated = true) (a : Actor C) {k : Nat}
    (hk : k ≠ s.incarnation ∨ k = 0) : SameAt s (s.claimReclaim a) k := by
  have hne : k ≠ s.incarnation := by have := (h.live ha).2; omega
  exact ⟨rfl, rfl, rfl, rfl, rfl, update_of_ne hne _ _⟩

@[simp] theorem claimReclaim_reclaimer (s : State C G) (a : Actor C) :
    (s.claimReclaim a).reclaimer s.incarnation = some a := update_self ..

/-- A caller that holds the task takes its reclaim claim, off-stack and not taken yet. -/
theorem Cell.claim_caller (h : Cell s) (hh : s.holder = some c) (ha : s.allocated = true)
    (hr : s.reclaimReady = true) (hn : s.reclaimer s.incarnation = none) (hw : s.joinWaiters = [])
    (hpc : ∃ call, pc = .invalidate call ∨ pc = .free call ∨ pc = .detachUnlock call.handle true) :
    Cell ((s.claimReclaim (.caller c)).setPc c pc) := by
  have hself : ((s.claimReclaim (.caller c)).setPc c pc).reclaimer s.incarnation = some (.caller c) :=
    claimReclaim_reclaimer s _
  exact { h with
    reclaimFlag := (congrArg Option.isSome hself).symm
    reclaimed := fun _ => hr
    byCaller := by
      intro d hd
      have heq := hself.symm.trans hd
      cases heq
      exact hh
    byScheduler := fun k hk => nomatch hself.symm.trans hk
    dead := fun hd => nomatch ha.symm.trans hd
    sched := by
      have hs := h.sched
      show SchedOk _ (s.sched s.incarnation)
      cases hp : s.sched s.incarnation <;> rw [hp] at hs
      case loadDetached | done => exact ⟨hs.1, fun he => nomatch hself.symm.trans he⟩
      case loadReady | claim => exact ⟨hs.1, (fun he => nomatch hself.symm.trans he), hs.2.2⟩
      case invalidate | free => exact nomatch hn.symm.trans hs.2.1
      all_goals exact hs
    elsewhere := h.keep_elsewhere rfl fun k hk => { h.sameAt_claimReclaim ha (.caller c) hk with }
    waiters := .inl hw
    responsible := fun _ hnone => nomatch hself.symm.trans hnone
    reclaiming := by
      intro d hd _
      have heq := hself.symm.trans hd
      cases heq
      obtain ⟨call, hp⟩ := hpc
      exact ⟨call, by rw [setPc_pc_self]; exact hp⟩ }

theorem Cell.reclaimClaimed_iff (h : Cell s) : s.reclaimClaimed = true ↔ s.reclaimer s.incarnation ≠ none := by
  rw [h.reclaimFlag]
  cases s.reclaimer s.incarnation <;> simp

theorem joinReclaim_inv (h : Inv s) (hp : s.pc c = .joinReclaim args) : Inv (joinReclaim s c args) := by
  obtain ⟨hj, hw, hr⟩ := h.here hp
  have hflag : s.reclaimClaimed = false := by
    cases hf : s.reclaimClaimed with
    | false => rfl
    | true => exact absurd hj.unreclaimed (h.cell.reclaimClaimed_iff.mp hf)
  have hcount := h.cell.waiterCount
  -- One joiner can have waited, and the scheduler does not claim an attached task.
  have hgo : ¬ (1 < s.joinWaiterCountAtExit || s.reclaimClaimed) = true := by simp [hflag]; omega
  unfold joinReclaim
  rw [if_neg hgo]
  refine h.hold (.inr hj.holder) rfl (fun d _ => { Tight.refl s d with }) ?_ ?_
  · exact h.cell.claim_caller hj.holder hj.allocated hr hj.unreclaimed hw ⟨.join args, .inl rfl⟩
  · exact { hj with reclaimer := claimReclaim_reclaimer s _ }

/-! ## Detach -/

/-- Both locks are taken from nobody or given back by their owner, so that the others keep theirs. -/
theorem tight_locks (registry task : Option C) (hr : s.registryLock = none ∨ s.registryLock = some c)
    (ht : s.taskLock = none ∨ s.taskLock = some c) (hr' : registry = none ∨ registry = some c)
    (ht' : task = none ∨ task = some c) (hdc : d ≠ c) :
    Tight s { s with registryLock := registry, taskLock := task } d := by
  have hne : ∀ l : Option C, l = none ∨ l = some c → l ≠ some d := by
    rintro l (rfl | rfl) hl
    · cases hl
    · cases hl; exact hdc rfl
  exact { Tight.refl s d with
    registry := ⟨fun h => absurd h (hne _ hr'), fun h => absurd h (hne _ hr)⟩
    task := ⟨fun h => absurd h (hne _ ht'), fun h => absurd h (hne _ ht)⟩
    resolved := fun h => absurd h (hne _ hr) }

theorem detachEnter_inv (h : Inv s) (hp : s.pc c = .detachEnter handle)
    (hs : detachEnter s c handle = some s') : Inv s' := by
  obtain ⟨hu, hi⟩ := h.here hp
  have hc : (s.pc c).claims = false := by rw [hp]; rfl
  unfold detachEnter at hs
  split at hs
  · cases hs
  rename_i hfree
  split at hs
  · cases hs; exact h.ret_error hc hu _ _
  rename_i hres
  split at hs
  · cases hs; exact h.ret_error hc hu _ _
  cases hs
  have hfree : s.registryLock = none := by simpa using hfree
  have hgen : s.handleGen = handle := by simpa [State.resolves] using hres
  have hcur := (h.cell.of_resolves hi hgen).1
  have hm := h.moves_of_unclaimed hc (.detachLock handle)
  refine h.beside rfl (fun d hdc => ?_) ?_ ⟨rfl, hu.2, hgen, hi⟩
  · exact { Tight.refl s d with
      registry := ⟨fun hd => absurd (Option.some.inj hd).symm hdc, fun hd => nomatch hfree.symm.trans hd⟩
      resolved := fun hd => nomatch hfree.symm.trans hd }
  · have hcell := h.cell.move hm
    refine { hcell with
      sched := ?_
      elsewhere := hcell.keep_elsewhere rfl fun _ _ => ⟨rfl, rfl, rfl, rfl, rfl, rfl⟩ }
    -- A scheduler about to free has invalidated the handle, which then did not resolve.
    have hs := h.cell.sched
    show SchedOk _ (s.sched s.incarnation)
    cases hp : s.sched s.incarnation <;> rw [hp] at hs
    case free => have := hs.2.2.2.2; omega
    all_goals exact hs

/-- The locks play no role for the storage, unless they are taken from a scheduler about to free it. -/
theorem Cell.locks (h : Cell s) (registry task : Option C) (hr : registry = none ∨ registry = s.registryLock) :
    Cell ({ s with registryLock := registry, taskLock := task } : State C G) := by
  refine { h with
    sched := ?_
    elsewhere := h.keep_elsewhere rfl fun _ _ => ⟨rfl, rfl, rfl, rfl, rfl, rfl⟩ }
  have hs := h.sched
  cases hp : s.sched s.incarnation <;> rw [hp] at hs
  case free =>
    refine ⟨hs.1, hs.2.1, hs.2.2.1, ?_, hs.2.2.2.2⟩
    rcases hr with hr | hr
    · exact hr
    · exact hr.trans hs.2.2.2.1
  all_goals exact hs

section

variable (h : Inv s)

include h

theorem detachFail_inv {error : Errno} (hc : (s.pc c).claims = false)
    (hr : s.registryLock = some c) (ht : s.taskLock = none) : Inv (detachFail s c handle error) := by
  refine h.beside rfl (fun d hdc => tight_locks none none (.inr hr) (.inl ht) (.inl rfl) (.inl rfl) hdc) ?_
    ⟨nofun, nofun⟩
  refine (h.cell.locks none none (.inl rfl)).move ?_
  exact { h.moves_of_unclaimed hc _ with }

theorem detachLock_inv (hp : s.pc c = .detachLock handle) (hs : detachLock s c handle = some s') : Inv s' := by
  obtain ⟨hr, _, hgen, hi⟩ := h.here hp
  have hc : (s.pc c).claims = false := by rw [hp]; rfl
  unfold detachLock at hs
  split at hs
  · cases hs
  rename_i hfree
  have hfree : s.taskLock = none := by simpa using hfree
  have hfail : ∀ error, Inv (detachFail s c handle error) := fun _ => detachFail_inv h hc hr hfree
  split at hs
  · cases hs; exact hfail _
  rename_i hdet
  split at hs
  · cases hs; exact hfail _
  split at hs
  · cases hs; exact hfail _
  rename_i hjoin
  cases hs
  have hd : s.detached = false := by simpa using hdet
  have hj : s.joinClaimed = false := by simpa using hjoin
  obtain ⟨hn, hw, hcons⟩ := h.cell.of_unclaimed hj
  obtain ⟨hcur, halloc⟩ := h.cell.of_resolves hi hgen
  refine h.hold (.inl hn) rfl (fun d hdc => ?_) (h.cell.take_claim hj hd c (some c) _) ?_
  · exact { tight_locks s.registryLock (some c) (.inr hr) (.inl hfree) (.inr hr) (.inr rfl) hdc with }
  · exact ⟨⟨⟨rfl, halloc, hcur, hcons⟩, ⟨hr, rfl⟩, hd⟩, hgen, h.cell.unreclaimed hn hd⟩

theorem detachInvalidate_inv (hp : s.pc c = .detachInvalidate handle) : Inv (detachInvalidate s c handle) := by
  obtain ⟨hd, hgen, hr⟩ := h.here hp
  refine h.hold (.inr hd.holder) rfl (fun d hdc => ?_) ?_ ?_
  · exact { Tight.refl s d with
      gen := Nat.le_succ _
      resolved := fun hl => absurd (Option.some.inj (hd.locked.1.symm.trans hl)).symm hdc }
  · refine { h.cell with
      dead := fun ha => nomatch hd.allocated.symm.trans ha
      handles := fun k hk hkn => ⟨Nat.le_succ_of_le (h.cell.handles k hk hkn).1, (h.cell.handles k hk hkn).2⟩
      sched := ?_
      elsewhere := h.cell.keep_elsewhere rfl fun _ _ => ⟨rfl, rfl, rfl, rfl, rfl, rfl⟩
      waiters := .inl (h.cell.no_waiters hd.holder fun args he => nomatch hp.symm.trans he)
      responsible := fun hdet => nomatch hd.detached.symm.trans hdet
      reclaiming := fun d hcall => nomatch hr.symm.trans hcall }
    have hs := h.cell.sched
    show SchedOk _ (s.sched s.incarnation)
    cases hp : s.sched s.incarnation <;> rw [hp] at hs
    case free => exact nomatch hd.locked.1.symm.trans hs.2.2.2.1
    all_goals exact hs
  · exact ⟨{ hd with }, by show handle < s.handleGen + 1; omega, hr⟩

theorem detachStore_inv (hp : s.pc c = .detachStore handle) : Inv (detachStore s c handle) := by
  obtain ⟨hd, hgen, hr⟩ := h.here hp
  have hself : update s.detacher s.incarnation (some c) s.incarnation = some c := update_self ..
  refine h.hold (.inr hd.holder) rfl (fun d hdc => { Tight.refl s d with }) ?_ ?_
  · refine { h.cell with
      detachFlag := (congrArg Option.isSome hself).symm
      detacherHolds := fun d hdet => hd.holder.trans (hself.symm.trans hdet)
      byScheduler := fun k hk => nomatch hr.symm.trans hk
      sched := ?_
      elsewhere := h.cell.keep_elsewhere rfl fun k hk => ?_
      waiters := .inl (h.cell.no_waiters hd.holder fun args he => nomatch hp.symm.trans he)
      responsible := fun _ _ => .inr ⟨c, handle, hd.holder, .inl (setPc_pc_self _ _ _)⟩
      reclaiming := fun d hcall => nomatch hr.symm.trans hcall }
    · have hs := h.cell.sched
      show SchedOk _ (s.sched s.incarnation)
      cases hp : s.sched s.incarnation <;> rw [hp] at hs
      case loadReady | claim => exact ⟨hs.1, hs.2.1, rfl⟩
      all_goals exact hs
    · have hne : k ≠ s.incarnation := by have := (h.cell.live hd.allocated).2; omega
      exact ⟨rfl, rfl, rfl, rfl, update_of_ne hne _ _, rfl⟩
  · exact ⟨{ hd with detached := rfl }, hgen, fun he => nomatch hr.symm.trans he⟩

theorem detachLoad_inv (hp : s.pc c = .detachLoad handle) : Inv (detachLoad s c handle) := by
  obtain ⟨hd, hgen, hr⟩ := h.here hp
  have hw : c ∉ s.joinWaiters := h.cell.not_waiting fun args he => nomatch hp.symm.trans he
  unfold detachLoad
  split
  · rename_i hready
    refine h.goto ⟨hw, ?_, fun hc => absurd hc hr⟩ ⟨hd, hgen, hr, hready⟩
    exact fun _ _ _ => .inr ⟨handle, .inr rfl⟩
  rename_i hready
  refine h.goto ⟨hw, fun _ _ _ => .inl ?_, fun hc => absurd hc hr⟩ ⟨hd, hgen, by simpa using hr⟩
  -- A scheduler that is done had marked the task ready.
  intro hdone
  have hs := h.cell.sched
  rw [hdone] at hs
  exact hready hs.1

theorem detachReclaim_inv (hp : s.pc c = .detachReclaim handle) : Inv (detachReclaim s c handle) := by
  obtain ⟨hd, hgen, hr, hready⟩ := h.here hp
  have hw : s.joinWaiters = [] := h.cell.no_waiters hd.holder fun args he => nomatch hp.symm.trans he
  unfold detachReclaim
  split
  · rename_i hclaimed
    have hsome := h.cell.reclaimClaimed_iff.mp hclaimed
    exact h.goto ⟨by simp [hw], fun _ _ hn => absurd hn hsome, fun hc => absurd hc hr⟩ ⟨hd, hgen, by simpa using hr⟩
  rename_i hclaimed
  have hnone : s.reclaimer s.incarnation = none := by
    by_contra hne
    exact hclaimed (h.cell.reclaimClaimed_iff.mpr hne)
  refine h.hold (.inr hd.holder) rfl (fun d _ => { Tight.refl s d with }) ?_ ?_
  · exact h.cell.claim_caller hd.holder hd.allocated hready hnone hw ⟨.detach handle, .inr (.inr rfl)⟩
  · exact ⟨{ hd with }, hgen, iff_of_true rfl (claimReclaim_reclaimer s _)⟩

end

/-! ## Returning and freeing -/

theorem Cell.consume (h : Cell s) (hh : s.holder = some c) (hg : 1 ≤ s.incarnation)
    (hu : s.consumers s.incarnation = []) (hm : Moves s c (.returned call none)) : Cell (s.ret c call none) := by
  have hcell := h.move hm
  have hself : (s.ret c call none).consumers s.incarnation = [c] := by
    simp [State.ret, State.setPc, hu]
  refine { hcell with
    elsewhere := hcell.keep_elsewhere rfl fun k hk => ?_
    consumed := .inr ⟨c, hself, hh⟩ }
  have hne : k ≠ s.incarnation := by
    have : k ≠ s.incarnation ∨ k = 0 := hk
    omega
  exact ⟨rfl, rfl, rfl, update_of_ne hne _ _, rfl, rfl⟩

theorem detachUnlock_inv {reclaim : Bool} (h : Inv s)
    (hp : s.pc c = .detachUnlock handle reclaim) : Inv (detachUnlock s c handle reclaim) := by
  obtain ⟨hd, hgen, hr⟩ := h.here hp
  have hw : c ∉ s.joinWaiters := h.cell.not_waiting fun args he => nomatch hp.symm.trans he
  have hcell := h.cell.locks none none (.inl rfl)
  have hloose : ∀ d, d ≠ c → Tight s { s with registryLock := none, taskLock := none } d := fun d hdc =>
    tight_locks none none (.inr hd.locked.1) (.inr hd.locked.2) (.inl rfl) (.inl rfl) hdc
  have hresponsible : s.detached = true → s.reclaimer s.incarnation = none → s.sched s.incarnation ≠ .done := by
    intro hdet hnone
    rcases h.cell.responsible hdet hnone with hs | ⟨e, handle, he, hpc⟩
    · exact hs
    have hec : e = c := Option.some.inj (he.symm.trans hd.holder)
    subst hec
    rcases hpc with hpc | hpc <;> exact nomatch hp.symm.trans hpc
  unfold detachUnlock
  split
  · rename_i hreclaim
    refine h.hold (.inr hd.holder) rfl (fun d hdc => (hloose d hdc).toLoose) (hcell.move ⟨hw, ?_, ?_⟩) ?_
    · exact fun _ hdet hnone => .inl (hresponsible hdet hnone)
    · exact fun _ _ => ⟨.detach handle, .inl rfl⟩
    · exact { hd with unlocked := ⟨nofun, nofun⟩, reclaimer := hr.mp hreclaim }
  · rename_i hreclaim
    refine h.hold (.inr hd.holder) rfl (fun d hdc => { hloose d hdc with })
      (hcell.consume hd.holder ?_ ?_ ⟨hw, ?_, ?_⟩) ?_
    · exact (h.cell.live hd.allocated).2
    · exact hd.unconsumed
    · exact fun _ hdet hnone => .inl (hresponsible hdet hnone)
    · exact fun hc _ => absurd (hr.mpr hc) hreclaim
    · exact ⟨⟨nofun, nofun⟩, hgen⟩

/-- Whoever has the reclaim claim invalidates the handle of an allocated task, with the registry lock free. -/
theorem Cell.invalidate (h : Cell s) (ha : s.allocated = true) {f : Nat → SchedPc}
    (hf : ∀ k, k ≠ s.incarnation → f k = s.sched k) (hr : s.reclaimer s.incarnation ≠ none)
    (hs : SchedOk { s with handleGen := s.handleGen + 1, unlisted := true, sched := f } (f s.incarnation)) :
    Cell ({ s with handleGen := s.handleGen + 1, unlisted := true, sched := f } : State C G) :=
  { h with
    dead := fun hd => nomatch ha.symm.trans hd
    handles := fun k hk hkn => ⟨Nat.le_succ_of_le (h.handles k hk hkn).1, (h.handles k hk hkn).2⟩
    sched := hs
    elsewhere := h.keep_elsewhere rfl fun k hk => by
      have hne : k ≠ s.incarnation := by have := (h.live ha).2; omega
      exact ⟨hf k hne, rfl, rfl, rfl, rfl, rfl⟩
    responsible := fun _ hn => absurd hn hr }

/-- Whoever has the reclaim claim frees the storage of the task, whose handle is gone. -/
theorem Cell.freeStorage (h : Cell s) (ha : s.allocated = true) {f : Nat → SchedPc}
    (hf : ∀ k, k ≠ s.incarnation → f k = s.sched k) (hr : s.reclaimer s.incarnation ≠ none)
    (hg : s.handleOf s.incarnation < s.handleGen) (hs : SchedOk { s.freeStorage with sched := f } (f s.incarnation)) :
    Cell ({ s.freeStorage with sched := f } : State C G) :=
  { h with
    live := nofun
    dead := fun _ => .inr ⟨by simp [State.freeStorage, (h.live ha).1], hr, hg⟩
    sched := hs
    elsewhere := h.keep_elsewhere rfl fun k hk => by
      have hne : k ≠ s.incarnation := by have := (h.live ha).2; omega
      exact ⟨hf k hne, update_of_ne hne _ _, rfl, rfl, rfl, rfl⟩
    responsible := fun _ hn => absurd hn hr
    reclaiming := nofun }

theorem Reclaims.moves (h : Reclaims s c handle) (hw : c ∉ s.joinWaiters)
    (hpc : s.allocated = true → ∃ call, pc = .invalidate call ∨ pc = .free call ∨ pc = .detachUnlock call.handle true) :
    Moves s c pc where
  waiting := hw
  responsible _ _ hn := nomatch hn.symm.trans h.reclaimer
  reclaiming _ ha := hpc ha

theorem invalidate_inv (h : Inv s) (hp : s.pc c = .invalidate call)
    (hs : (invalidate s).map (fun s => s.setPc c (.free call)) = some s') : Inv s' := by
  have hd : Reclaims s c call.handle := h.here hp
  have hw : c ∉ s.joinWaiters := h.cell.not_waiting fun args he => nomatch hp.symm.trans he
  have hsome : s.reclaimer s.incarnation ≠ none := by rw [hd.reclaimer]; exact nofun
  unfold invalidate at hs
  split at hs
  · cases hs
  rename_i hfree
  have hfree : s.registryLock = none := by simpa using hfree
  cases hs
  have hle := (h.cell.handles s.incarnation (h.cell.live hd.allocated).2 (Nat.le_refl _)).1
  have hd' : Reclaims ({ s with handleGen := s.handleGen + 1, unlisted := true } : State C G) c call.handle :=
    { hd with }
  refine h.hold (.inr hd.holder) rfl (fun d hdc => ?_) (Cell.move ?_ (hd'.moves hw fun _ => ⟨call, .inr (.inl rfl)⟩))
    ⟨hd', ?_⟩
  · exact { Tight.refl s d with
      gen := Nat.le_succ _
      resolved := fun hl => nomatch hfree.symm.trans hl }
  · refine h.cell.invalidate hd.allocated (fun _ _ => rfl) hsome ?_
    have hs := h.cell.sched
    cases hp : s.sched s.incarnation <;> rw [hp] at hs
    case free => exact nomatch hd.reclaimer.symm.trans hs.2.1
    all_goals exact hs
  · dsimp only
    rw [hd.current] at hle
    omega

theorem free_inv (h : Inv s) (hp : s.pc c = .free call)
    (hs : (free s).map (fun s => s.ret c call none) = some s') : Inv s' := by
  obtain ⟨hd, hgen⟩ := h.here hp
  have hw : c ∉ s.joinWaiters := h.cell.not_waiting fun args he => nomatch hp.symm.trans he
  have hsome : s.reclaimer s.incarnation ≠ none := by rw [hd.reclaimer]; exact nofun
  unfold free at hs
  split at hs
  swap
  · cases hs
  cases hs
  have hcell : Cell s.freeStorage := by
    refine h.cell.freeStorage hd.allocated (fun _ _ => rfl) hsome (by rw [hd.current]; exact hgen) ?_
    have hs := h.cell.sched
    have hready := h.cell.reclaimed hsome
    cases hp : s.sched s.incarnation <;> rw [hp] at hs
    case running | exitWake | markReady => exact nomatch hready.symm.trans hs.2
    case invalidate | free => exact nomatch hd.reclaimer.symm.trans hs.2.1
    case done => exact ⟨hs.1, fun _ => rfl⟩
    all_goals exact hs
  refine h.hold (.inr hd.holder) rfl (fun d hdc => { Tight.refl s d with }) ?_ ⟨hd.unlocked, hgen⟩
  refine hcell.consume hd.holder (h.cell.live hd.allocated).2 hd.unconsumed ⟨hw, ?_, nofun⟩
  exact fun _ _ hn => nomatch hn.symm.trans hd.reclaimer

theorem advance_inv (h : Inv s) (hs : advance s c env = some s') : Inv s' := by
  unfold advance at hs
  cases hp : s.pc c <;> rw [hp] at hs
  case idle | returned | joinParked => cases hs
  case joinClaim => exact joinClaim_inv h hp hs
  case joinFast => cases hs; exact joinFast_inv h hp
  case joinLocked => exact joinLocked_inv h hp hs
  case joinWoken => cases hs; exact joinWoken_inv h hp
  case joinPoll => cases hs; exact joinPoll_inv h hp
  case joinPolled => cases hs; exact joinPolled_inv h hp
  case joinRelease => cases hs; exact joinRelease_inv h hp
  case joinReady => exact joinReady_inv h hp hs
  case joinReclaim => cases hs; exact joinReclaim_inv h hp
  case detachEnter => exact detachEnter_inv h hp hs
  case detachLock => exact detachLock_inv h hp hs
  case detachInvalidate => cases hs; exact detachInvalidate_inv h hp
  case detachStore => cases hs; exact detachStore_inv h hp
  case detachLoad => cases hs; exact detachLoad_inv h hp
  case detachReclaim => cases hs; exact detachReclaim_inv h hp
  case detachUnlock => cases hs; exact detachUnlock_inv h hp
  case invalidate => exact invalidate_inv h hp hs
  case free => exact free_inv h hp hs

end Llam.Reclaim
