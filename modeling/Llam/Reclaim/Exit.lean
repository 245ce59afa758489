import Llam.Reclaim.Preserve

/-!
# The scheduler's side, and every run

The exit of a task and the scheduler's check for a detached one keep the invariant, and so does the next `spawn` in the
storage provided that check is over (`quiet`). `reachable_inv` is the invariant of every run of such steps.
-/

namespace Llam.Reclaim

open Llam.Lib Function

variable {C G : Type} [DecidableEq C] [DecidableEq G] {s s' : State C G} {c d : C}

/-! ## The scheduler -/

theorem Inv.exit (h : Inv s) (hpc : s'.pc = s.pc) (ht : ∀ d, Tight s s' d) (hcell : Cell s') : Inv s' :=
  ⟨hcell, fun d => by rw [hpc]; exact (h.outline d).tight (ht d)⟩

theorem Cell.born (h : Cell s) (hu : s.sched s.incarnation ≠ .unborn) : 1 ≤ s.incarnation := by
  by_contra hlt
  have h0 : s.incarnation = 0 := by omega
  have he := h.elsewhere 0 (.inr rfl)
  rw [h0] at hu
  exact hu he.sched

/-- The scheduler of the current task moves; only a finished check leaves a detached task to somebody else. -/
theorem Cell.setSched (h : Cell s) {pc : SchedPc} (hg : 1 ≤ s.incarnation) (hs : SchedOk s pc)
    (hdone : pc = .done → s.detached = true → s.reclaimer s.incarnation ≠ none) :
    Cell (s.setSched s.incarnation pc) := by
  have hself : (s.setSched s.incarnation pc).sched s.incarnation = pc := update_self ..
  exact { h with
    sched := by
      show SchedOk _ ((s.setSched s.incarnation pc).sched s.incarnation)
      rw [hself]
      exact hs
    elsewhere := h.keep_elsewhere rfl fun k hk => by
      have hne : k ≠ s.incarnation := by omega
      exact ⟨update_of_ne hne _ _, rfl, rfl, rfl, rfl, rfl⟩
    responsible := fun hd hr => .inl fun he => hdone (hself.symm.trans he) hd hr }

theorem tight_setSched (s : State C G) (g : Nat) (pc : SchedPc) (d : C) : Tight s (s.setSched g pc) d :=
  { Tight.refl s d with }

theorem Inv.setSched (h : Inv s) {pc : SchedPc} (hg : 1 ≤ s.incarnation) (hs : SchedOk s pc)
    (hdone : pc = .done → s.detached = true → s.reclaimer s.incarnation ≠ none) : Inv (s.setSched s.incarnation pc) :=
  h.exit rfl (tight_setSched s _ pc) (h.cell.setSched hg hs hdone)

theorem complete_inv (h : Inv s) : Inv ({ s with completed := true } : State C G) :=
  h.exit rfl (fun d => { Tight.refl s d with })
    { h.cell with elsewhere := h.cell.keep_elsewhere rfl fun _ _ => ⟨rfl, rfl, rfl, rfl, rfl, rfl⟩ }

theorem wakeJoiners_pc_of_not_parked (hp : ∀ args, s.pc d ≠ .joinParked args) : (wakeJoiners s).pc d = s.pc d := by
  simp only [wakeJoiners]
  split <;> rfl

theorem wakeJoiners_inv (h : Inv s) : Inv (wakeJoiners s) := by
  refine ⟨{ h.cell with
    elsewhere := h.cell.keep_elsewhere rfl fun _ _ => ⟨rfl, rfl, rfl, rfl, rfl, rfl⟩
    waiters := .inl rfl
    waiterCount := ?_
    responsible := ?_
    reclaiming := ?_ }, fun d => ?_⟩
  · show s.joinWaiters.length ≤ 1
    rcases h.cell.waiters with hw | ⟨c, args, hw, _⟩ <;> simp [hw]
  · intro hd hr
    refine (h.cell.responsible hd hr).imp_right ?_
    rintro ⟨e, handle, he, hp⟩
    refine ⟨e, handle, he, ?_⟩
    rw [wakeJoiners_pc_of_not_parked (by rcases hp with hp | hp <;> rw [hp] <;> exact nofun)]
    exact hp
  · intro e hr ha
    obtain ⟨call, hp⟩ := h.cell.reclaiming e hr ha
    refine ⟨call, ?_⟩
    rw [wakeJoiners_pc_of_not_parked (by rcases hp with hp | hp | hp <;> rw [hp] <;> exact nofun)]
    exact hp
  · have ho := h.outline d
    by_cases hpark : ∃ args, s.pc d = .joinParked args
    · obtain ⟨args, hp⟩ := hpark
      rw [hp] at ho
      have hw : (wakeJoiners s).pc d = .joinWoken args none := by simp [wakeJoiners, ho.2, hp]
      rw [hw]
      exact ⟨{ ho.1 with }, rfl⟩
    · have hnp : ∀ args, s.pc d ≠ .joinParked args := fun args he => hpark ⟨args, he⟩
      rw [wakeJoiners_pc_of_not_parked hnp]
      rcases h.cell.waiters with hw | ⟨e, args, _, he, hpe⟩
      · exact ho.tight { Tight.refl s d with joinWaiters := hw.symm }
      -- The one joiner that waits is the holder, so this caller is outside its claim.
      have hde : d ≠ e := by rintro rfl; exact hnp args hpe
      exact ho.loose (h.unclaimed_of_ne (.inr he) hde) { Tight.refl s d with }

theorem Cell.markReady (h : Cell s) (hg : 1 ≤ s.incarnation) (hr : s.reclaimReady = false) : Cell (({ s with
      reclaimReady := true
      offStack := update s.offStack s.incarnation true } : State C G).setSched s.incarnation .loadDetached) := by
  have hnone : s.reclaimer s.incarnation = none := by
    by_contra hne
    exact nomatch hr.symm.trans (h.reclaimed hne)
  have hself : update s.sched s.incarnation SchedPc.loadDetached s.incarnation = .loadDetached :=
    update_self ..
  refine { h with
    readyFlag := (update_self s.incarnation true s.offStack).symm
    reclaimed := fun _ => rfl
    sched := ?_
    elsewhere := h.keep_elsewhere rfl fun k hk => ?_
    responsible := fun _ _ => .inl fun he => nomatch hself.symm.trans he }
  · show SchedOk _ (update s.sched s.incarnation SchedPc.loadDetached s.incarnation)
    rw [hself]
    exact ⟨rfl, fun he => nomatch hnone.symm.trans he⟩
  · have hne : k ≠ s.incarnation := by omega
    exact ⟨update_of_ne hne _ _, rfl, update_of_ne hne _ _, rfl, rfl, rfl⟩

/-- The scheduler takes the reclaim claim of a detached task. -/
theorem claim_scheduler_inv (h : Inv s) (hp : s.sched s.incarnation = .claim) (hn : s.reclaimer s.incarnation = none) :
    Inv ((s.claimReclaim (.scheduler s.incarnation)).setSched s.incarnation .invalidate) := by
  have hs := h.cell.sched
  rw [hp] at hs
  obtain ⟨hready, _, hdet⟩ := hs
  have hg : 1 ≤ s.incarnation := h.cell.born (by rw [hp]; simp)
  have ha : s.allocated = true := by
    cases ha : s.allocated with
    | true => rfl
    | false =>
      rcases h.cell.dead ha with h0 | ⟨_, hsome, _⟩
      · omega
      · exact absurd hn hsome
  have hself := claimReclaim_reclaimer s (.scheduler s.incarnation)
  have hsched : update s.sched s.incarnation SchedPc.invalidate s.incarnation = .invalidate :=
    update_self ..
  refine ⟨{ h.cell with
    reclaimFlag := (congrArg Option.isSome hself).symm
    reclaimed := fun _ => hready
    byCaller := fun d hd => by cases hself.symm.trans hd
    byScheduler := fun k hk => ?_
    dead := fun hd => by cases ha.symm.trans hd
    sched := ?_
    elsewhere := h.cell.keep_elsewhere rfl fun k hk => ?_
    responsible := fun _ hnone => by cases hself.symm.trans hnone
    reclaiming := fun d hd => by cases hself.symm.trans hd }, fun d => ?_⟩
  · have heq := hself.symm.trans hk
    cases heq
    exact ⟨rfl, hdet⟩
  · show SchedOk _ (update s.sched s.incarnation SchedPc.invalidate s.incarnation)
    rw [hsched]
    exact ⟨hready, hself, ha⟩
  · have hne : k ≠ s.incarnation := by omega
    exact ⟨update_of_ne hne _ _, rfl, rfl, rfl, rfl, update_of_ne hne _ _⟩
  · -- The claim was free and the task detached: only its detacher can be past a claim, without the reclaim claim.
    have hl : Loose s ((s.claimReclaim (.scheduler s.incarnation)).setSched s.incarnation .invalidate) d :=
      { Tight.refl s d with }
    have hne : (s.claimReclaim (.scheduler s.incarnation)).reclaimer s.incarnation ≠ some (.caller d) :=
      fun he => by cases hself.symm.trans he
    have ho := h.outline d
    show Outline _ d (s.pc d)
    cases hc : (s.pc d).claims with
    | false => exact ho.loose hc hl
    | true =>
      cases hpc : s.pc d <;> rw [hpc] at ho <;> simp only [hpc, Pc.claims, reduceCtorEq] at hc
      case detachInvalidate | detachStore => cases hdet.symm.trans ho.1.detached
      case detachLoad => exact ⟨{ ho.1 with }, ho.2.1, hne⟩
      case detachReclaim => exact ⟨{ ho.1 with }, ho.2.1, hne, ho.2.2.2⟩
      case detachUnlock =>
        refine ⟨{ ho.1 with }, ho.2.1, fun he => ?_, fun he => absurd he hne⟩
        cases hn.symm.trans (ho.2.2.mp he)
      case invalidate => cases hn.symm.trans ho.reclaimer
      case free => cases hn.symm.trans ho.1.reclaimer
      all_goals cases hdet.symm.trans ho.1.attached

/-- A detached task whose scheduler reclaims it, with the registry lock free: nobody is past a claim. -/
theorem Inv.unclaimed_of_scheduler (h : Inv s) (hr : s.reclaimer s.incarnation = some (.scheduler s.incarnation))
    (hl : s.registryLock = none) (d : C) : (s.pc d).claims = false := by
  have hdet := (h.cell.byScheduler _ hr).2
  have ho := h.outline d
  cases hpc : s.pc d <;> rw [hpc] at ho
  case idle | returned | joinClaim | detachEnter | detachLock => rfl
  case detachInvalidate | detachStore | detachLoad | detachReclaim | detachUnlock =>
    exact nomatch hl.symm.trans ho.1.locked.1
  case invalidate => exact nomatch hr.symm.trans ho.reclaimer
  case free => exact nomatch hr.symm.trans ho.1.reclaimer
  all_goals exact nomatch hdet.symm.trans ho.1.attached

theorem invalidate_scheduler_inv (h : Inv s) (hp : s.sched s.incarnation = .invalidate)
    (hs : (invalidate s).map (fun t => t.setSched s.incarnation .free) = some s') : Inv s' := by
  have hok := h.cell.sched
  rw [hp] at hok
  obtain ⟨hready, hr, ha⟩ := hok
  unfold invalidate at hs
  split at hs
  · cases hs
  rename_i hfree
  have hfree : s.registryLock = none := by simpa using hfree
  cases hs
  have hg := (h.cell.live ha).2
  have hsched : update s.sched s.incarnation SchedPc.free s.incarnation = .free := update_self ..
  refine ⟨h.cell.invalidate ha (fun k hk => update_of_ne hk _ _) (by rw [hr]; exact nofun) ?_, fun d => ?_⟩
  · rw [hsched]
    exact ⟨hready, hr, ha, hfree, Nat.lt_succ_of_le (h.cell.handles _ hg (Nat.le_refl _)).1⟩
  · refine (h.outline d).loose (h.unclaimed_of_scheduler hr hfree d) { Tight.refl s d with
      gen := Nat.le_succ _
      resolved := fun hl => nomatch hfree.symm.trans hl }

theorem free_scheduler_inv (h : Inv s) (hp : s.sched s.incarnation = .free)
    (hs : (free s).map (fun t => t.setSched s.incarnation .done) = some s') : Inv s' := by
  have hok := h.cell.sched
  rw [hp] at hok
  obtain ⟨hready, hr, ha, hfree, hgen⟩ := hok
  unfold free at hs
  split at hs
  swap
  · cases hs
  cases hs
  refine ⟨h.cell.freeStorage ha (fun k hk => update_of_ne hk _ _) (by rw [hr]; exact nofun) hgen ?_,
    fun d => ?_⟩
  · rw [update_self]
    exact ⟨hready, fun _ => rfl⟩
  · exact (h.outline d).loose (h.unclaimed_of_scheduler hr hfree d) { Tight.refl s d with }

theorem schedule_inv {g : Nat} (h : Inv s) (hs : schedule s g = some s') : Inv s' := by
  have hcur : g = s.incarnation := by
    refine h.cell.current_of_sched (fun he => ?_) (fun he => ?_)
    · rw [schedule, he] at hs; cases hs
    · rw [schedule, he] at hs; cases hs
  subst hcur
  have hok := h.cell.sched
  have hg : s.sched s.incarnation ≠ .unborn → 1 ≤ s.incarnation := h.cell.born
  unfold schedule at hs
  cases hp : s.sched s.incarnation <;> rw [hp] at hs hok hg
  case unborn | done => cases hs
  case running =>
    simp only at hs
    split at hs
    · cases hs
    · cases hs
      exact (complete_inv h).setSched (hg nofun) hok nofun
  case exitWake =>
    simp only at hs
    split at hs
    · cases hs
    · cases hs
      exact (wakeJoiners_inv h).setSched (hg nofun) hok nofun
  case markReady =>
    cases hs
    exact h.exit rfl (fun d => { Tight.refl s d with ready := fun _ => rfl }) (h.cell.markReady (hg nofun) hok.2)
  case loadDetached =>
    cases hs
    split
    · rename_i hdet
      exact h.setSched (hg nofun) ⟨hok.1, hok.2, hdet⟩ nofun
    · rename_i hdet
      exact h.setSched (hg nofun) ⟨hok.1, fun he => absurd he hok.2⟩ fun _ hd => absurd hd hdet
  case loadReady =>
    cases hs
    rw [if_pos hok.1]
    exact h.setSched (hg nofun) hok nofun
  case claim =>
    simp only at hs
    split at hs
    · rename_i hclaimed
      cases hs
      exact h.setSched (hg nofun) ⟨hok.1, fun he => absurd he hok.2.1⟩
        fun _ _ => h.cell.reclaimClaimed_iff.mp hclaimed
    rename_i hclaimed
    cases hs
    refine claim_scheduler_inv h hp ?_
    by_contra hne
    exact hclaimed (h.cell.reclaimClaimed_iff.mpr hne)
  case invalidate => exact invalidate_scheduler_inv h hp hs
  case free => exact free_scheduler_inv h hp hs

/-! ## Runs -/

theorem issued_iff (s : State C G) (handle : Nat) : s.issued handle = true ↔ Issued s handle := by
  simp only [State.issued, List.any_eq_true, List.mem_range, decide_eq_true_eq]
  constructor
  · rintro ⟨k, hk, hof⟩
    exact ⟨k + 1, by omega, by omega, hof⟩
  · rintro ⟨k, hk, hkn, hof⟩
    exact ⟨k - 1, by omega, by rw [Nat.sub_add_cancel hk]; exact hof⟩

/-- A caller between two calls holds no lock and no claim. -/
theorem Inv.between (h : Inv s) (hp : s.pc c = .idle ∨ ∃ call result, s.pc c = .returned call result) :
    (s.pc c).claims = false ∧ Unlocked s c := by
  have ho := h.outline c
  rcases hp with hp | ⟨call, result, hp⟩ <;> rw [hp] at ho ⊢
  · exact ⟨rfl, ho⟩
  · refine ⟨rfl, ?_⟩
    cases result with
    | none => exact ho.1
    | some error => exact ho

theorem start_inv {call : Call G} (h : Inv s) (hs : step s (.start c call) = some s') : Inv s' := by
  simp only [step] at hs
  split at hs
  · cases hs
  rename_i hni
  have hi : Issued s call.handle := (issued_iff s _).mp (by simpa using hni)
  have hgo : ∀ pc, (s.pc c).claims = false ∧ Unlocked s c → Outline s c pc → Inv (s.setPc c pc) := fun pc hc ho =>
    h.goto (h.moves_of_unclaimed hc.1 pc) ho
  split at hs
  · rename_i args hp
    cases hs
    have hb := h.between (.inl hp)
    exact hgo _ hb ⟨hb.2, hi⟩
  · rename_i args hp
    cases hs
    have hb := h.between (.inr ⟨_, _, hp⟩)
    exact hgo _ hb ⟨hb.2, hi⟩
  · rename_i handle hp
    cases hs
    have hb := h.between (.inl hp)
    exact hgo _ hb ⟨hb.2, hi⟩
  · rename_i handle hp
    cases hs
    have hb := h.between (.inr ⟨_, _, hp⟩)
    exact hgo _ hb ⟨hb.2, hi⟩
  · cases hs

theorem resolveJoin_inv {error : Errno} (h : Inv s) (hs : resolveJoin s c error = some s') : Inv s' := by
  unfold resolveJoin at hs
  split at hs
  · cases hs
  split at hs
  · rename_i args hp
    obtain ⟨hj, hw⟩ := h.here hp
    split at hs
    · cases hs
      have hnil : s.joinWaiters.erase c = [] := by simp [hw]
      refine h.hold (.inr hj.holder) rfl (fun d _ => { Tight.refl s d with }) ?_ ⟨{ hj with }, hnil⟩
      exact { h.cell with
        elsewhere := h.cell.keep_elsewhere rfl fun _ _ => ⟨rfl, rfl, rfl, rfl, rfl, rfl⟩
        waiters := .inl hnil
        responsible := fun hdet => nomatch hj.attached.symm.trans hdet
        reclaiming := fun d hcall => nomatch hj.unreclaimed.symm.trans hcall }
    · cases hs
  · cases hs

theorem refs_inv (h : Inv s) (refs : Nat) : Inv ({ s with refs := refs } : State C G) :=
  h.exit rfl (fun d => { Tight.refl s d with })
    { h.cell with elsewhere := h.cell.keep_elsewhere rfl fun _ _ => ⟨rfl, rfl, rfl, rfl, rfl, rfl⟩ }

/-- The scheduler of the last task is between its mark and the end of its check for a detached task. -/
def State.checking (s : State C G) : Bool :=
  match s.sched s.incarnation with
  | .loadDetached | .loadReady | .claim => true
  | _ => false

/-- The storage is not handed to the next task during that check. -/
def quiet (s : State C G) : Action C G → Bool
  | .spawn _ _ => !s.checking
  | _ => true

/-- A freed storage whose check is over has its last task behind it. -/
theorem Cell.retire (h : Cell s) (ha : s.allocated = false) (hq : s.checking = false) (hg : 1 ≤ s.incarnation) :
    Past s s.incarnation := by
  rcases h.dead ha with h0 | ⟨hf, hr, _⟩
  · omega
  refine ⟨?_, hf, h.readyFlag.symm.trans (h.reclaimed hr), ?_, ?_⟩
  · have hok := h.sched
    cases hp : s.sched s.incarnation <;> rw [hp] at hok <;> simp only [State.checking, hp, reduceCtorEq] at hq
    case unborn => rw [hok] at hg; omega
    case running | exitWake | markReady => exact nomatch ha.symm.trans hok.1
    case invalidate => exact nomatch ha.symm.trans hok.2.2
    case free => exact nomatch ha.symm.trans hok.2.2.1
  · rcases h.consumed with hc | ⟨c, hc, _⟩ <;> simp [hc]
  · intro d hd
    cases hr' : s.reclaimer s.incarnation with
    | none => exact absurd hr' hr
    | some a =>
      cases a with
      | caller c =>
        have hcd := (h.byCaller c hr').symm.trans (h.detacherHolds d hd)
        cases hcd
        exact .inl rfl
      | scheduler k =>
        obtain ⟨rfl, _⟩ := h.byScheduler k hr'
        exact .inr rfl

theorem Inv.unclaimed_of_freed (h : Inv s) (ha : s.allocated = false) (d : C) : (s.pc d).claims = false := by
  cases hp : (s.pc d).claims with
  | false => rfl
  | true =>
    obtain ⟨_, hd⟩ := (h.outline d).held hp
    exact nomatch ha.symm.trans hd.allocated

theorem handleOf_lt (h : Cell s) (ha : s.allocated = false) {k : Nat} (hk : 1 ≤ k) (hkn : k ≤ s.incarnation) :
    s.handleOf k < s.handleGen := by
  rcases h.dead ha with h0 | ⟨_, _, hlt⟩
  · omega
  obtain ⟨_, hprev⟩ := h.handles k hk hkn
  rcases Nat.lt_or_eq_of_le hkn with hlt' | rfl
  · exact Nat.lt_trans (hprev hlt') hlt
  · exact hlt

theorem spawn_cell {group : Option G} {scopeCompletion : Bool} (h : Cell s) (ha : s.allocated = false)
    (hq : s.checking = false) : Cell (spawn s group scopeCompletion) := by
  have hsame : ∀ k, k ≠ s.incarnation + 1 → SameAt s (spawn s group scopeCompletion) k := fun k hk =>
    ⟨update_of_ne hk _ _, rfl, rfl, rfl, rfl, rfl⟩
  have hnew : Unborn s (s.incarnation + 1) := by
    have he := h.elsewhere (s.incarnation + 1) (.inl (by omega))
    rwa [if_neg (by omega)] at he
  have hsched : (spawn s group scopeCompletion).sched (s.incarnation + 1) = .running := update_self ..
  have hof : (spawn s group scopeCompletion).handleOf (s.incarnation + 1) = s.handleGen := update_self ..
  exact {
    claimFlag := rfl
    reclaimFlag := (congrArg Option.isSome hnew.reclaimer).symm
    readyFlag := hnew.offStack.symm
    detachFlag := (congrArg Option.isSome hnew.detacher).symm
    detacherHolds := fun d hd => nomatch hnew.detacher.symm.trans hd
    reclaimed := fun hr => absurd hnew.reclaimer hr
    byCaller := fun d hr => nomatch hnew.reclaimer.symm.trans hr
    byScheduler := fun k hr => nomatch hnew.reclaimer.symm.trans hr
    live := fun _ => ⟨hnew.freed, Nat.succ_pos _⟩
    dead := nofun
    handles := by
      intro k hk hkn
      by_cases hkg : k = s.incarnation + 1
      · subst hkg
        exact ⟨Nat.le_of_eq hof, fun hlt => absurd hlt (Nat.lt_irrefl _)⟩
      have hold : (spawn s group scopeCompletion).handleOf k = s.handleOf k := update_of_ne hkg _ _
      have hkn : k ≤ s.incarnation + 1 := hkn
      have hlt := handleOf_lt h ha hk (by omega)
      exact ⟨by rw [hold]; exact Nat.le_of_lt hlt, fun _ => by rw [hold]; exact Nat.lt_of_lt_of_eq hlt hof.symm⟩
    sched := by
      show SchedOk _ ((spawn s group scopeCompletion).sched (s.incarnation + 1))
      rw [hsched]
      exact ⟨rfl, rfl⟩
    elsewhere := by
      intro k hk
      have hk : k ≠ s.incarnation + 1 ∨ k = 0 := hk
      show if 1 ≤ k ∧ k < s.incarnation + 1 then _ else _
      by_cases hkg : k = s.incarnation ∧ 1 ≤ k
      · obtain ⟨rfl, hpos⟩ := hkg
        rw [if_pos ⟨hpos, Nat.lt_succ_self _⟩]
        exact (h.retire ha hq hpos).keep (hsame _ (by omega))
      have he := h.elsewhere k (by omega)
      split <;> rename_i hb
      · rw [if_pos (by omega)] at he
        exact he.keep (hsame k (by omega))
      · rw [if_neg (by omega)] at he
        exact he.keep (hsame k (by omega))
    waiters := .inl rfl
    waiterCount := Nat.zero_le 1
    consumed := .inl hnew.consumed
    responsible := nofun
    reclaiming := fun d hr => nomatch hnew.reclaimer.symm.trans hr }

theorem spawn_inv {group : Option G} {scopeCompletion : Bool} (h : Inv s) (ha : s.allocated = false)
    (hq : s.checking = false) : Inv (spawn s group scopeCompletion) := by
  refine ⟨spawn_cell h.cell ha hq, fun d => ?_⟩
  refine (h.outline d).loose (h.unclaimed_of_freed ha d)
    ⟨Iff.rfl, Iff.rfl, Nat.le_refl _, ?_, fun _ => rfl⟩
  rintro handle ⟨k, hk, hkn, hof⟩
  have hne : k ≠ s.incarnation + 1 := by omega
  exact ⟨k, hk, Nat.le_succ_of_le hkn, (update_of_ne hne _ _).trans hof⟩

/-- **One step**: the invariant is kept by every step that is not a spawn during a check. -/
theorem step_inv {a : Action C G} (h : Inv s) (hq : quiet s a = true) (hs : step s a = some s') : Inv s' := by
  cases a with
  | spawn group scopeCompletion =>
    simp only [step] at hs
    split at hs
    · cases hs
    rename_i ha
    cases hs
    exact spawn_inv h (by simpa using ha) (by simpa [quiet] using hq)
  | start c call => exact start_inv h hs
  | advance c env => exact advance_inv h hs
  | resolveJoin c error => exact resolveJoin_inv h hs
  | schedule g => exact schedule_inv h hs
  | pin =>
    simp only [step] at hs
    split at hs
    · cases hs; exact refs_inv h _
    · cases hs
  | unpin =>
    simp only [step] at hs
    split at hs
    · cases hs
    · cases hs; exact refs_inv h _

theorem init_inv : Inv (State.init : State C G) where
  cell := {
    claimFlag := rfl
    reclaimFlag := rfl
    readyFlag := rfl
    detachFlag := rfl
    detacherHolds := nofun
    reclaimed := fun h => absurd rfl h
    byCaller := nofun
    byScheduler := nofun
    live := nofun
    dead := fun _ => .inl rfl
    handles := fun k hk hkn => absurd (Nat.le_trans hk hkn) (Nat.not_succ_le_zero 0)
    sched := rfl
    elsewhere := by
      intro k _
      rw [if_neg (by simp [State.init])]
      exact ⟨rfl, rfl, rfl, rfl, rfl, rfl⟩
    waiters := .inl rfl
    waiterCount := Nat.zero_le 1
    consumed := .inl rfl
    responsible := nofun
    reclaiming := nofun }
  outline _ := ⟨nofun, nofun⟩

/-- **Every run**: the invariant holds wherever runs without a spawn during a check lead. -/
theorem reachable_inv (h : Reachable (guarded quiet step) State.init s) : Inv s :=
  h.induction init_inv fun _ _ _ hi hs => step_inv hi (guarded_some.mp hs).1 (guarded_some.mp hs).2

end Llam.Reclaim
