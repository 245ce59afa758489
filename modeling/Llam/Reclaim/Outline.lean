import Llam.Reclaim.Model

/-!
# What the claims on a storage protect

The join claim has one holder, and a caller past its claim is that holder (`Outline.held`): it works on the task the
storage holds, and nobody else moves the fields it relies on. `Cell` ties the flags of the storage to the history, to
the scheduler of its task, and to the holder's program counter. `Inv` is both together.
-/

namespace Llam.Reclaim

open Llam.Lib

variable {C G : Type} [DecidableEq C] [DecidableEq G] {s s' : State C G} {c d : C}

/-! ## Callers -/

/-- A caller past its join claim, up to its return. -/
def Pc.claims : Pc G → Bool
  | .idle | .returned _ _ | .joinClaim _ | .detachEnter _ | .detachLock _ => false
  | _ => true

/-- Some spawn has returned `handle`. -/
def Issued (s : State C G) (handle : Nat) : Prop :=
  ∃ k, 1 ≤ k ∧ k ≤ s.incarnation ∧ s.handleOf k = handle

def Unlocked (s : State C G) (c : C) : Prop := s.registryLock ≠ some c ∧ s.taskLock ≠ some c

def Locked (s : State C G) (c : C) : Prop := s.registryLock = some c ∧ s.taskLock = some c

/-- `c` holds the join claim of the task in the storage, which nobody has consumed yet. -/
structure Held (s : State C G) (c : C) (handle : Nat) : Prop where
  holder : s.holder = some c
  allocated : s.allocated = true
  current : s.handleOf s.incarnation = handle
  unconsumed : s.consumers s.incarnation = []

/-- A join that has its claim: the task is not detached, its handle resolves and nobody reclaims it. -/
structure Joining (s : State C G) (c : C) (handle : Nat) : Prop extends Held s c handle where
  unlocked : Unlocked s c
  unscoped : s.scopeCompletion = false
  attached : s.detached = false
  resolves : s.handleGen = handle
  unreclaimed : s.reclaimer s.incarnation = none

/-- A detach that has its claim, with both locks held. -/
structure Detaching (s : State C G) (c : C) (handle : Nat) (b : Bool) : Prop extends Held s c handle where
  locked : Locked s c
  detached : s.detached = b

/-- A caller that has the reclaim claim. -/
structure Reclaims (s : State C G) (c : C) (handle : Nat) : Prop extends Held s c handle where
  unlocked : Unlocked s c
  reclaimer : s.reclaimer s.incarnation = some (.caller c)

/-- What holds of a caller at a program counter. -/
def Outline (s : State C G) (c : C) : Pc G → Prop
  | .idle | .returned _ (some _) => Unlocked s c
  | .returned call none => Unlocked s c ∧ call.handle < s.handleGen
  | .joinClaim args => Unlocked s c ∧ Issued s args.handle
  | .detachEnter handle => Unlocked s c ∧ Issued s handle
  | .detachLock handle =>
    s.registryLock = some c ∧ s.taskLock ≠ some c ∧ s.handleGen = handle ∧ Issued s handle
  | .joinFast args | .joinLocked args | .joinWoken args _ | .joinPoll args | .joinPolled args | .joinRelease args _
  | .joinReady args => Joining s c args.handle ∧ s.joinWaiters = []
  | .joinParked args => Joining s c args.handle ∧ s.joinWaiters = [c]
  | .joinReclaim args => Joining s c args.handle ∧ s.joinWaiters = [] ∧ s.reclaimReady = true
  | .detachInvalidate handle =>
    Detaching s c handle false ∧ s.handleGen = handle ∧ s.reclaimer s.incarnation = none
  | .detachStore handle => Detaching s c handle false ∧ handle < s.handleGen ∧ s.reclaimer s.incarnation = none
  | .detachLoad handle =>
    Detaching s c handle true ∧ handle < s.handleGen ∧ s.reclaimer s.incarnation ≠ some (.caller c)
  | .detachReclaim handle =>
    Detaching s c handle true ∧ handle < s.handleGen ∧ s.reclaimer s.incarnation ≠ some (.caller c) ∧
      s.reclaimReady = true
  | .detachUnlock handle reclaim =>
    Detaching s c handle true ∧ handle < s.handleGen ∧
      (reclaim = true ↔ s.reclaimer s.incarnation = some (.caller c))
  | .invalidate call => Reclaims s c call.handle
  | .free call => Reclaims s c call.handle ∧ call.handle < s.handleGen

variable {pc : Pc G} {handle : Nat}

/-- **The join claim is exclusive**: who is past its claim is the holder, of an allocated task. -/
theorem Outline.held (h : Outline s c pc) (hc : pc.claims = true) : ∃ handle, Held s c handle := by
  cases pc with
  | idle | returned | joinClaim | detachEnter | detachLock => cases hc
  | joinFast | joinLocked | joinParked | joinWoken | joinPoll | joinPolled | joinRelease | joinReady | joinReclaim
  | detachInvalidate | detachStore | detachLoad | detachReclaim | detachUnlock | free =>
    exact ⟨_, h.1.toHeld⟩
  | invalidate => exact ⟨_, h.toHeld⟩

/-- What an action leaves alone of a caller that is not past a claim. -/
structure Loose (s s' : State C G) (c : C) : Prop where
  registry : s'.registryLock = some c ↔ s.registryLock = some c
  task : s'.taskLock = some c ↔ s.taskLock = some c
  gen : s.handleGen ≤ s'.handleGen
  issued : ∀ handle, Issued s handle → Issued s' handle
  resolved : s.registryLock = some c → s'.handleGen = s.handleGen

theorem Unlocked.loose (h : Unlocked s c) (hl : Loose s s' c) : Unlocked s' c :=
  ⟨fun hr => h.1 (hl.registry.mp hr), fun ht => h.2 (hl.task.mp ht)⟩

theorem Outline.loose (h : Outline s c pc) (hc : pc.claims = false) (hl : Loose s s' c) : Outline s' c pc := by
  cases pc <;> simp only [Pc.claims, reduceCtorEq] at hc
  case idle => exact Unlocked.loose h hl
  case returned call result =>
    cases result with
    | none => exact ⟨h.1.loose hl, Nat.lt_of_lt_of_le h.2 hl.gen⟩
    | some error => exact Unlocked.loose h hl
  case joinClaim args | detachEnter handle => exact ⟨h.1.loose hl, hl.issued _ h.2⟩
  case detachLock handle =>
    exact ⟨hl.registry.mpr h.1, fun ht => h.2.1 (hl.task.mp ht), (hl.resolved h.1).trans h.2.2.1,
      hl.issued _ h.2.2.2⟩

/-- What an action leaves alone of a caller past its claim. -/
structure Tight (s s' : State C G) (c : C) : Prop extends Loose s s' c where
  holder : s'.holder = s.holder
  allocated : s'.allocated = s.allocated
  incarnation : s'.incarnation = s.incarnation
  handleOf : s'.handleOf = s.handleOf
  handleGen : s'.handleGen = s.handleGen
  scopeCompletion : s'.scopeCompletion = s.scopeCompletion
  detached : s'.detached = s.detached
  reclaimer : s'.reclaimer = s.reclaimer
  consumers : s'.consumers = s.consumers
  joinWaiters : s'.joinWaiters = s.joinWaiters
  ready : s.reclaimReady = true → s'.reclaimReady = true

theorem Held.tight (h : Held s c handle) (ht : Tight s s' c) : Held s' c handle where
  holder := ht.holder.trans h.holder
  allocated := ht.allocated.trans h.allocated
  current := by rw [ht.incarnation, ht.handleOf]; exact h.current
  unconsumed := by rw [ht.incarnation, ht.consumers]; exact h.unconsumed

theorem Joining.tight (h : Joining s c handle) (ht : Tight s s' c) : Joining s' c handle where
  toHeld := h.toHeld.tight ht
  unlocked := h.unlocked.loose ht.toLoose
  unscoped := ht.scopeCompletion.trans h.unscoped
  attached := ht.detached.trans h.attached
  resolves := ht.handleGen.trans h.resolves
  unreclaimed := by rw [ht.incarnation, ht.reclaimer]; exact h.unreclaimed

theorem Detaching.tight {b : Bool} (h : Detaching s c handle b) (ht : Tight s s' c) : Detaching s' c handle b where
  toHeld := h.toHeld.tight ht
  locked := ⟨ht.registry.mpr h.locked.1, ht.task.mpr h.locked.2⟩
  detached := ht.detached.trans h.detached

theorem Reclaims.tight (h : Reclaims s c handle) (ht : Tight s s' c) : Reclaims s' c handle where
  toHeld := h.toHeld.tight ht
  unlocked := h.unlocked.loose ht.toLoose
  reclaimer := by rw [ht.incarnation, ht.reclaimer]; exact h.reclaimer

theorem Outline.tight (h : Outline s c pc) (ht : Tight s s' c) : Outline s' c pc := by
  by_cases hc : pc.claims = true
  · have hw := ht.joinWaiters
    have hg := ht.handleGen
    have hr : s'.reclaimer s'.incarnation = s.reclaimer s.incarnation := by rw [ht.incarnation, ht.reclaimer]
    cases pc <;> simp only [Pc.claims, reduceCtorEq] at hc
    case joinFast | joinLocked | joinParked | joinWoken | joinPoll | joinPolled | joinRelease | joinReady =>
      exact ⟨h.1.tight ht, hw.trans h.2⟩
    case joinReclaim => exact ⟨h.1.tight ht, hw.trans h.2.1, ht.ready h.2.2⟩
    case detachInvalidate => exact ⟨h.1.tight ht, hg.trans h.2.1, hr.trans h.2.2⟩
    case detachStore => exact ⟨h.1.tight ht, by rw [hg]; exact h.2.1, hr.trans h.2.2⟩
    case detachLoad | detachUnlock => exact ⟨h.1.tight ht, by rw [hg]; exact h.2.1, by rw [hr]; exact h.2.2⟩
    case detachReclaim =>
      exact ⟨h.1.tight ht, by rw [hg]; exact h.2.1, by rw [hr]; exact h.2.2.1, ht.ready h.2.2.2⟩
    case invalidate => exact Reclaims.tight h ht
    case free => exact ⟨h.1.tight ht, by rw [hg]; exact h.2⟩
  · exact h.loose (by simpa using hc) ht.toLoose

/-! ## The storage -/

/-- Where the scheduler of the current task stands. -/
def SchedOk (s : State C G) : SchedPc → Prop
  | .unborn => s.incarnation = 0
  | .running | .exitWake | .markReady => s.allocated = true ∧ s.reclaimReady = false
  | .loadDetached => s.reclaimReady = true ∧ s.reclaimer s.incarnation ≠ some (.scheduler s.incarnation)
  | .loadReady | .claim =>
    s.reclaimReady = true ∧ s.reclaimer s.incarnation ≠ some (.scheduler s.incarnation) ∧ s.detached = true
  | .invalidate =>
    s.reclaimReady = true ∧ s.reclaimer s.incarnation = some (.scheduler s.incarnation) ∧ s.allocated = true
  | .free =>
    s.reclaimReady = true ∧ s.reclaimer s.incarnation = some (.scheduler s.incarnation) ∧ s.allocated = true ∧
      s.registryLock = none ∧ s.handleOf s.incarnation < s.handleGen
  | .done =>
    s.reclaimReady = true ∧ (s.reclaimer s.incarnation = some (.scheduler s.incarnation) → s.allocated = false)

/-- An earlier incarnation: it was consumed at most once, and freed once, off-stack, by whoever its detacher leaves. -/
structure Past (s : State C G) (k : Nat) : Prop where
  sched : s.sched k = .done
  freed : s.freed k = 1
  offStack : s.offStack k = true
  consumed : (s.consumers k).length ≤ 1
  byWhom : ∀ d, s.detacher k = some d → s.reclaimer k = some (.caller d) ∨ s.reclaimer k = some (.scheduler k)

/-- An incarnation that does not exist yet. -/
structure Unborn (s : State C G) (k : Nat) : Prop where
  sched : s.sched k = .unborn
  freed : s.freed k = 0
  offStack : s.offStack k = false
  consumed : s.consumers k = []
  detacher : s.detacher k = none
  reclaimer : s.reclaimer k = none

/-- Nothing is recorded anew about incarnation `k`. -/
structure SameAt (s s' : State C G) (k : Nat) : Prop where
  sched : s'.sched k = s.sched k
  freed : s'.freed k = s.freed k
  offStack : s'.offStack k = s.offStack k
  consumers : s'.consumers k = s.consumers k
  detacher : s'.detacher k = s.detacher k
  reclaimer : s'.reclaimer k = s.reclaimer k

theorem Past.keep {k : Nat} (h : Past s k) (hk : SameAt s s' k) : Past s' k where
  sched := hk.sched.trans h.sched
  freed := hk.freed.trans h.freed
  offStack := hk.offStack.trans h.offStack
  consumed := by rw [hk.consumers]; exact h.consumed
  byWhom := by rw [hk.detacher, hk.reclaimer]; exact h.byWhom

theorem Unborn.keep {k : Nat} (h : Unborn s k) (hk : SameAt s s' k) : Unborn s' k where
  sched := hk.sched.trans h.sched
  freed := hk.freed.trans h.freed
  offStack := hk.offStack.trans h.offStack
  consumed := hk.consumers.trans h.consumed
  detacher := hk.detacher.trans h.detacher
  reclaimer := hk.reclaimer.trans h.reclaimer

/-- The flags of the storage, the history of its task, and what the two say about scheduler and holder. -/
structure Cell (s : State C G) : Prop where
  claimFlag : s.joinClaimed = s.holder.isSome
  reclaimFlag : s.reclaimClaimed = (s.reclaimer s.incarnation).isSome
  readyFlag : s.reclaimReady = s.offStack s.incarnation
  detachFlag : s.detached = (s.detacher s.incarnation).isSome
  detacherHolds : ∀ d, s.detacher s.incarnation = some d → s.holder = some d
  reclaimed : s.reclaimer s.incarnation ≠ none → s.reclaimReady = true
  byCaller : ∀ c, s.reclaimer s.incarnation = some (.caller c) → s.holder = some c
  byScheduler : ∀ k, s.reclaimer s.incarnation = some (.scheduler k) → k = s.incarnation ∧ s.detached = true
  live : s.allocated = true → s.freed s.incarnation = 0 ∧ 1 ≤ s.incarnation
  dead : s.allocated = false → s.incarnation = 0 ∨
    (s.freed s.incarnation = 1 ∧ s.reclaimer s.incarnation ≠ none ∧ s.handleOf s.incarnation < s.handleGen)
  handles : ∀ k, 1 ≤ k → k ≤ s.incarnation →
    s.handleOf k ≤ s.handleGen ∧ (k < s.incarnation → s.handleOf k < s.handleOf s.incarnation)
  sched : SchedOk s (s.sched s.incarnation)
  elsewhere : ∀ k, k ≠ s.incarnation ∨ k = 0 → if 1 ≤ k ∧ k < s.incarnation then Past s k else Unborn s k
  waiters : s.joinWaiters = [] ∨
    ∃ c args, s.joinWaiters = [c] ∧ s.holder = some c ∧ s.pc c = .joinParked args
  waiterCount : s.joinWaiterCountAtExit ≤ 1
  consumed : s.consumers s.incarnation = [] ∨ ∃ c, s.consumers s.incarnation = [c] ∧ s.holder = some c
  responsible : s.detached = true → s.reclaimer s.incarnation = none →
    s.sched s.incarnation ≠ .done ∨
      ∃ d handle, s.holder = some d ∧ (s.pc d = .detachLoad handle ∨ s.pc d = .detachReclaim handle)
  reclaiming : ∀ c, s.reclaimer s.incarnation = some (.caller c) → s.allocated = true →
    ∃ call, s.pc c = .invalidate call ∨ s.pc c = .free call ∨ s.pc c = .detachUnlock call.handle true

structure Inv (s : State C G) : Prop where
  cell : Cell s
  outline : ∀ c, Outline s c (s.pc c)

theorem Inv.here {pc : Pc G} (h : Inv s) (hp : s.pc c = pc) : Outline s c pc := hp ▸ h.outline c

namespace Cell

variable (h : Cell s)

include h

theorem keep_elsewhere (hi : s'.incarnation = s.incarnation)
    (hk : ∀ k, k ≠ s.incarnation ∨ k = 0 → SameAt s s' k) (k : Nat) (hne : k ≠ s'.incarnation ∨ k = 0) :
    if 1 ≤ k ∧ k < s'.incarnation then Past s' k else Unborn s' k := by
  rw [hi] at hne ⊢
  have he := h.elsewhere k hne
  split <;> rename_i hb
  · rw [if_pos hb] at he
    exact he.keep (hk k hne)
  · rw [if_neg hb] at he
    exact he.keep (hk k hne)

/-- A scheduler that has something left to do is that of the current task. -/
theorem current_of_sched {g : Nat} (hu : s.sched g ≠ .unborn) (hd : s.sched g ≠ .done) : g = s.incarnation := by
  by_contra hne
  have he := h.elsewhere g (.inl hne)
  split at he
  · exact hd he.sched
  · exact hu he.sched

/-- An issued handle that resolves is that of the current task, which is allocated. -/
theorem of_resolves {handle : Nat} (hi : Issued s handle) (hr : s.handleGen = handle) :
    s.handleOf s.incarnation = handle ∧ s.allocated = true := by
  obtain ⟨k, hk, hkn, hof⟩ := hi
  have hlast := h.handles s.incarnation (by omega) (Nat.le_refl _)
  have hcur : k = s.incarnation := by
    by_contra hne
    have hlt := (h.handles k hk hkn).2 (by omega)
    omega
  subst hcur
  refine ⟨hof, ?_⟩
  cases ha : s.allocated with
  | true => rfl
  | false =>
    rcases h.dead ha with h0 | ⟨_, _, hlt⟩ <;> omega

/-- With no holder nobody waits for the task or has consumed it. -/
theorem of_unclaimed (hc : s.joinClaimed = false) :
    s.holder = none ∧ s.joinWaiters = [] ∧ s.consumers s.incarnation = [] := by
  have hn : s.holder = none := by
    cases hh : s.holder with
    | none => rfl
    | some c =>
      have hf := h.claimFlag
      rw [hc, hh] at hf
      cases hf
  refine ⟨hn, ?_, ?_⟩
  · rcases h.waiters with hw | ⟨c, args, _, hh, _⟩
    · exact hw
    · rw [hn] at hh; cases hh
  · rcases h.consumed with hw | ⟨c, _, hh⟩
    · exact hw
    · rw [hn] at hh; cases hh

theorem unreclaimed (hn : s.holder = none) (hd : s.detached = false) : s.reclaimer s.incarnation = none := by
  cases hr : s.reclaimer s.incarnation with
  | none => rfl
  | some a =>
    cases a with
    | caller c => rw [h.byCaller c hr] at hn; cases hn
    | scheduler k => rw [(h.byScheduler k hr).2] at hd; cases hd

theorem not_waiting (hp : ∀ args, s.pc c ≠ .joinParked args) : c ∉ s.joinWaiters := by
  rcases h.waiters with hw | ⟨d, args, hw, _, hd⟩
  · simp [hw]
  rw [hw, List.mem_singleton]
  intro hcd
  subst hcd
  exact hp args hd

/-- The holder that does not wait is the only one who could. -/
theorem no_waiters (hh : s.holder = some c) (hp : ∀ args, s.pc c ≠ .joinParked args) : s.joinWaiters = [] := by
  rcases h.waiters with hw | ⟨d, args, _, hd, hpc⟩
  · exact hw
  rw [hh] at hd
  cases hd
  exact absurd hpc (hp args)

end Cell

end Llam.Reclaim
