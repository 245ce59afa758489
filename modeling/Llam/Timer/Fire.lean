import Llam.Timer.Expiry

/-!
# What a pass over expired timers does

The invariant of a shard with its passes. A timer is in the heap, or held by one pass, or with the allocator; a task has at
most one timer for a wait, and a sleep whose timer is in the heap or still to be resolved is pending (`Sound`).
-/

namespace Llam.Timer

open Llam.Lib Function

/-! ## The first section -/

section popping

variable {m m' : Memory} {p p' : Processor} {timer : Ptr} {now : UInt64}

/-- Memory with the same nodes and waits. Which timer a task has is not compared. -/
structure SameWaits (m m' : Memory) : Prop where
  node : m'.node = m.node
  generation : ∀ t, (m'.task t).waitGeneration = (m.task t).waitGeneration
  reason : ∀ t, (m'.task t).waitReason = (m.task t).waitReason
  state : ∀ t, (m'.task t).state = (m.task t).state
  parkedShard : ∀ t, (m'.task t).parkedShard = (m.task t).parkedShard

theorem SameWaits.refl (m : Memory) : SameWaits m m := ⟨rfl, fun _ => rfl, fun _ => rfl, fun _ => rfl, fun _ => rfl⟩

theorem SameWaits.trans {m'' : Memory} (h : SameWaits m m') (h' : SameWaits m' m'') : SameWaits m m'' :=
  ⟨h'.node.trans h.node, fun t => (h'.generation t).trans (h.generation t), fun t => (h'.reason t).trans (h.reason t),
    fun t => (h'.state t).trans (h.state t), fun t => (h'.parkedShard t).trans (h.parkedShard t)⟩

/-- A write to a task keeps what it leaves alone. -/
theorem task_update {α : Type} (f : Task → α) {task : Ptr → Task} {t : Ptr} {x : Task} (h : f x = f (task t)) (v : Ptr) :
    f (update task t x v) = f (task v) := by
  rw [update_apply]
  split
  · rename_i hv
    rw [hv, h]
  · rfl

/-- A task is written to, but not its wait. -/
theorem SameWaits.setTask {t : Ptr} {x : Task} (hgeneration : x.waitGeneration = (m.task t).waitGeneration)
    (hreason : x.waitReason = (m.task t).waitReason) (hstate : x.state = (m.task t).state)
    (hshard : x.parkedShard = (m.task t).parkedShard) : SameWaits m (m.setTask t x) :=
  ⟨rfl, task_update Task.waitGeneration hgeneration, task_update Task.waitReason hreason, task_update Task.state hstate,
    task_update Task.parkedShard hshard⟩

theorem pinTimer_spec (h : m.pinTimer timer = some m') : SameWaits m m' ∧ m'.heapIndex = m.heapIndex ∧
    ∀ t, (m'.task t).activeTimer = (m.task t).activeTimer := by
  unfold Memory.pinTimer at h
  split at h
  · cases h
    exact ⟨.refl m, rfl, fun _ => rfl⟩
  unfold Memory.scanRefTryAcquire at h
  split at h
  · cases h
  · cases h
    exact ⟨.setTask rfl rfl rfl rfl, rfl, task_update Task.activeTimer rfl⟩

/-- The heap of a processor reads the deadlines of its timers and their indices. -/
theorem Valid.congr (h : Valid m p) (hnode : ∀ x ∈ p.armed, (m'.node x).deadlineNs = (m.node x).deadlineNs)
    (hindex : ∀ x ∈ p.armed, m'.heapIndex x = m.heapIndex x) : Valid m' p := by
  have hmem : ∀ i, i < p.len → p.heap i ∈ p.armed := fun i hi => List.mem_map.mpr ⟨i, List.mem_range.mpr hi, rfl⟩
  refine ⟨?_, ?_, h.count, h.root, h.fits⟩
  · intro j hj hjl hlow
    have hparent := Slots.parent_lt ARITY hj
    show (m'.node (p.heap _)).deadlineNs ≤ (m'.node (p.heap _)).deadlineNs
    rw [hnode _ (hmem j hjl), hnode _ (hmem _ (Nat.lt_trans hparent hjl))]
    exact h.ordered j hj hjl hlow
  · intro i hi
    show m'.heapIndex (p.heap i) = i
    rw [hindex _ (hmem i hi)]
    exact h.indexed i hi

/-- Every armed timer is the timer of its task, and the timer of a task is armed. -/
structure Tracked (m : Memory) (p : Processor) : Prop where
  timer : ∀ x ∈ p.armed, x ≠ NULL ∧ (m.node x).task ≠ NULL ∧ (m.task (m.node x).task).activeTimer = x
  active : ∀ t, (m.task t).activeTimer ≠ NULL → (m.task t).activeTimer ∈ p.armed ∧ (m.node (m.task t).activeTimer).task = t

theorem Tracked.congr (h : Tracked m p) (hnode : ∀ x ∈ p.armed, m'.node x = m.node x)
    (hactive : ∀ t, (m'.task t).activeTimer = (m.task t).activeTimer) : Tracked m' p := by
  constructor
  · intro x hx
    rw [hnode x hx, hactive]
    exact h.timer x hx
  · intro t ht
    rw [hactive] at ht ⊢
    rw [hnode _ (h.active t ht).1]
    exact h.active t ht

/-- The timer of a task is popped and the task forgets it. -/
theorem Tracked.detach (h : Tracked m p) (hm : m'.node = m.node) (htask : m'.task = m.task)
    (hperm : (timer :: p'.armed).Perm p.armed) (hnodup : p.armed.Nodup) : Tracked (m'.detach timer) p' := by
  obtain ⟨hnull, howner, htimer⟩ := h.timer timer (hperm.mem_iff.mp List.mem_cons_self)
  have hdetach : m'.detach timer = m'.forgetTimer (m'.node timer).task := by
    refine if_pos ⟨?_, ?_⟩
    · rw [hm]
      exact howner
    · rw [hm, htask]
      exact htimer
  have hfresh : timer ∉ p'.armed := (List.nodup_cons.mp (hperm.nodup_iff.mpr hnodup)).1
  have heq : ∀ t, ((m'.forgetTimer (m'.node timer).task).task t).activeTimer =
      if t = (m.node timer).task then NULL else (m.task t).activeTimer := by
    intro t
    simp only [Memory.forgetTimer, Memory.setTask, update_apply, hm, htask]
    split <;> rfl
  rw [hdetach]
  constructor
  · intro x hx
    obtain ⟨hx0, hxowner, hxtimer⟩ := h.timer x (hperm.mem_iff.mp (List.mem_cons_of_mem _ hx))
    have hxn : ((m'.forgetTimer (m'.node timer).task).node x) = m.node x := by rw [← hm]; rfl
    refine ⟨hx0, by rw [hxn]; exact hxowner, ?_⟩
    have hne : (m.node x).task ≠ (m.node timer).task := by
      intro hsame
      rw [hsame, htimer] at hxtimer
      exact hfresh (hxtimer ▸ hx)
    rw [hxn, heq, if_neg hne]
    exact hxtimer
  · intro t ht
    rw [heq] at ht ⊢
    split at ht
    · exact absurd rfl ht
    rename_i hne
    rw [if_neg hne]
    obtain ⟨harmed, howned⟩ := h.active t ht
    have hnt : (m.task t).activeTimer ≠ timer := by
      intro hsame
      rw [hsame] at howned
      exact hne howned.symm
    refine ⟨(List.mem_cons.mp (hperm.mem_iff.mpr harmed)).resolve_left hnt, ?_⟩
    have hnode : (m'.forgetTimer (m'.node timer).task).node = m.node := hm
    rw [hnode]
    exact howned

theorem detach_spec (m : Memory) (timer : Ptr) :
    SameWaits m (m.detach timer) ∧ (m.detach timer).heapIndex = m.heapIndex := by
  unfold Memory.detach
  split
  · exact ⟨.setTask rfl rfl rfl rfl, rfl⟩
  · exact ⟨.refl m, rfl⟩

theorem removeAtLocked_task (m : Memory) (p : Processor) (index : Nat) :
    (removeAtLocked m p index).1.task = m.task := by
  unfold removeAtLocked
  split <;> rfl

/-- **The due timers are popped**, all of them unless a reference is refused. -/
theorem popDue_spec (now : UInt64) : ∀ (n : Nat) (m : Memory) (p : Processor), Valid m p → Tracked m p → p.len ≤ n →
    let r := popDue now n m p
    Valid r.1 r.2.1 ∧ Tracked r.1 r.2.1 ∧ SameWaits m r.1 ∧ (r.2.2.1 ++ r.2.1.armed).Perm p.armed ∧
      (∀ x ∈ r.2.2.1, m.deadline x ≤ now) ∧ (r.2.2.2 = false → ∀ x ∈ r.2.1.armed, ¬ m.deadline x ≤ now) := by
  intro n
  induction n with
  | zero =>
    intro m p hvalid htracked hlen
    have hempty : p.armed = [] := by
      have : p.len = 0 := by omega
      simp [Processor.armed, this]
    refine ⟨hvalid, htracked, .refl m, .refl _, fun _ hx => absurd hx List.not_mem_nil, ?_⟩
    intro _ x hx
    have hx' : x ∈ p.armed := hx
    rw [hempty] at hx'
    exact absurd hx' List.not_mem_nil
  | succ n ih =>
    intro m p hvalid htracked hlen
    rw [popDue]
    split
    · rename_i hstop
      refine ⟨hvalid, htracked, .refl m, .refl _, fun _ hx => absurd hx List.not_mem_nil, ?_⟩
      intro _ x hx
      have hx' : x ∈ p.armed := hx
      obtain ⟨i, hi, rfl⟩ := List.mem_map.mp hx'
      have hpos : 0 < p.len := Nat.zero_lt_of_lt (List.mem_range.mp hi)
      have hroot : p.timers = p.heap 0 := by rw [hvalid.root, if_pos hpos]
      have hmem : p.timers ∈ p.armed := by
        rw [hroot]
        exact List.mem_map.mpr ⟨0, List.mem_range.mpr hpos, rfl⟩
      have hlate := hstop.resolve_left (htracked.timer _ hmem).1
      intro hdue
      apply hlate
      rw [hroot]
      exact Std.le_trans (hvalid.ordered.root_le i (List.mem_range.mp hi)) hdue
    · rename_i hgo
      rw [not_or, not_not] at hgo
      cases hpin : m.pinTimer p.timers with
      | none => exact ⟨hvalid, htracked, .refl m, .refl _, fun _ hx => absurd hx List.not_mem_nil, by simp⟩
      | some m₁ =>
        dsimp only
        obtain ⟨hsame₁, hindex₁, hactive₁⟩ := pinTimer_spec hpin
        have hpos : 0 < p.len := by
          by_contra hzero
          apply hgo.1
          rw [hvalid.root, if_neg hzero]
        have hvalid₁ : Valid m₁ p := by
          refine hvalid.congr (fun x _ => by rw [hsame₁.node]) (fun x _ => by rw [hindex₁])
        have htracked₁ : Tracked m₁ p := htracked.congr (fun x _ => by rw [hsame₁.node]) hactive₁
        obtain ⟨hvalid₂, hnode₂, hperm₂⟩ := removeAtLocked_spec 0 hvalid₁ hpos
        have hmem₂ := removeAtLocked_node m₁ p 0
        have htask₂ := removeAtLocked_task m₁ p 0
        rw [popMinLocked]
        generalize removeAtLocked m₁ p 0 = r at *
        obtain ⟨m₂, p₂, timer⟩ := r
        subst hnode₂
        obtain ⟨hsame₃, hindex₃⟩ := detach_spec m₂ (p.heap 0)
        have hvalid₃ : Valid (m₂.detach (p.heap 0)) p₂ :=
          hvalid₂.congr (fun x _ => by rw [hsame₃.node]) (fun x _ => by rw [hindex₃])
        have htracked₃ := htracked₁.detach hmem₂ htask₂ hperm₂ hvalid.indexed.nodup
        have hsame : SameWaits m (m₂.detach (p.heap 0)) := by
          refine (hsame₁.trans ?_).trans hsame₃
          exact ⟨hmem₂, fun t => by rw [htask₂], fun t => by rw [htask₂], fun t => by rw [htask₂], fun t => by rw [htask₂]⟩
        have hdeadline : (m₂.detach (p.heap 0)).deadline = m.deadline := by
          funext x
          rw [Memory.deadline, Memory.deadline, hsame.node]
        have hlength : p₂.len + 1 = p.len := by simpa [Processor.armed] using hperm₂.length_eq
        obtain ⟨hvalid', htracked', hsame', hperm', hdue', hlate'⟩ := ih _ p₂ hvalid₃ htracked₃ (by omega)
        rw [hdeadline] at hdue' hlate'
        refine ⟨hvalid', htracked', hsame.trans hsame', (hperm'.cons _).trans hperm₂, ?_, hlate'⟩
        intro x hx
        rcases List.mem_cons.mp hx with rfl | hx
        · have hroot : p.timers = p.heap 0 := by rw [hvalid.root, if_pos hpos]
          rw [← hroot]
          exact hgo.2
        · exact hdue' x hx

end popping

/-! ## The invariant -/

/-- The timers in the hands of a stage that are still to be resolved. -/
def Stage.unresolved (sleepers : List Ptr) : Stage → List Ptr
  | .checked x | .reasoned x _ | .acting x _ => x :: sleepers
  | .waking rest => rest
  | .releasing => []
  | _ => sleepers

/-- The loop over the popped timers is over. -/
def Stage.late : Stage → Bool
  | .waking _ | .releasing => true
  | _ => false

/-- The popped timers that are still to be resolved. -/
def Pass.pending (x : Pass) : List Ptr := x.stage.unresolved x.sleepers ++ x.expired

def Memory.gen (m : Memory) (x : Ptr) : UInt64 := (m.node x).waitGeneration

/-- The task of a timer. -/
def Memory.owner (m : Memory) (x : Ptr) : Task := m.task (m.node x).task

section invariant

variable {P : Type} [DecidableEq P]

/-- In the heap or with a pass. -/
def Shard.Live (s : Shard P) (x : Ptr) : Prop := x ∈ s.proc.armed ∨ ∃ p, x ∈ (s.pass p).flight

/-- In the heap or still to be resolved. -/
def Shard.Due (s : Shard P) (x : Ptr) : Prop := x ∈ s.proc.armed ∨ ∃ p, x ∈ (s.pass p).pending

/-- The timers of a shard. -/
structure Timers (s : Shard P) : Prop where
  valid : Valid s.mem s.proc
  tracked : Tracked s.mem s.proc
  held : ∀ x, s.Live x → x ∈ s.held
  heldNodup : s.held.Nodup
  nonnull : ∀ p, ∀ x ∈ (s.pass p).flight, x ≠ NULL
  apart : ∀ p, ∀ x ∈ (s.pass p).flight, x ∉ s.proc.armed
  disjoint : ∀ p q, ∀ x ∈ (s.pass p).flight, x ∈ (s.pass q).flight → p = q
  nodup : ∀ p, (s.pass p).flight.Nodup
  owned : ∀ x, s.Live x → (s.mem.node x).task ≠ NULL ∧ s.mem.gen x ≠ 0 ∧ s.mem.gen x ≠ noGeneration ∧
    s.mem.gen x ≤ (s.mem.owner x).waitGeneration
  unique : ∀ x y, s.Live x → s.Live y → (s.mem.node x).task = (s.mem.node y).task → s.mem.gen x = s.mem.gen y → x = y
  detached : ∀ p, ∀ x ∈ (s.pass p).flight, (s.mem.owner x).waitGeneration = s.mem.gen x →
    (s.mem.owner x).activeTimer = NULL
  /-- A sleep is pending as long as its timer is due. -/
  asleep : ∀ x, s.Due x → (s.mem.owner x).waitGeneration = s.mem.gen x → (s.mem.owner x).waitReason = .SLEEP →
    (s.mem.owner x).state = .PARKED

/-- What a pass has done so far. -/
structure PassOk (m : Memory) (armed : List Ptr) (net : UInt32) (x : Pass) : Prop where
  net : net = if x.stage = .idle then 0 else x.count
  idle : x.stage = .idle → x.flight = []
  drained : x.stage.late = true → x.expired = []
  popped : x.popped.map Popped.timer = x.handed ++ x.expired
  poppedNodup : (x.popped.map Popped.timer).Nodup
  due : ∀ e ∈ x.popped, e.deadline ≤ x.now
  before : ∀ e ∈ x.popped, e.timer ∈ x.before
  flown : ∀ y ∈ x.flight, ∃ e ∈ x.popped, e.timer = y ∧ e.generation = m.gen y
  pending : ∀ y ∈ x.pending, y ∈ x.flight
  ended : ∀ e ∈ x.ended, e.1 ∈ x.handed ∧ ∃ q ∈ x.popped, q.timer = e.1 ∧ q.generation = e.2
  once : (x.ended.map Prod.fst ++ x.pending).Nodup
  left : x.refused = false → ∀ y ∈ armed, y ∈ x.before → y ∉ x.since → ¬ m.deadline y ≤ x.now
  reasoned : ∀ y r, x.stage = .reasoned y r → (m.owner y).waitGeneration = m.gen y → (m.owner y).waitReason = r
  acting : ∀ y, x.stage = .acting y .SLEEP → (m.owner y).waitGeneration = m.gen y ∧ (m.owner y).waitReason = .SLEEP

/-- The invariant of a shard. -/
structure Sound (s : Shard P) : Prop where
  timers : Timers s
  passes : ∀ p, PassOk s.mem s.proc.armed (s.net p) (s.pass p)

variable {s : Shard P} {p : P} {x : Pass}

theorem current_flight {y : Ptr} (h : y ∈ x.stage.current) : y ∈ x.flight :=
  List.mem_append_left _ (List.mem_append_left _ h)

/-! ## A pass moves on -/

theorem Timers.setPass (h : Timers s) (hsub : ∀ y ∈ x.flight, y ∈ (s.pass p).flight) (hnodup : x.flight.Nodup)
    (hpending : ∀ y ∈ x.pending, y ∈ (s.pass p).pending) : Timers (s.setPass p x) := by
  have hflight : ∀ q, ∀ y ∈ ((s.setPass p x).pass q).flight, y ∈ (s.pass q).flight := by
    intro q y hy
    by_cases hq : q = p
    · subst hq
      apply hsub
      simpa [Shard.setPass] using hy
    · simpa [Shard.setPass, hq] using hy
  have hdue : ∀ q, ∀ y ∈ ((s.setPass p x).pass q).pending, y ∈ (s.pass q).pending := by
    intro q y hy
    by_cases hq : q = p
    · subst hq
      apply hpending
      simpa [Shard.setPass] using hy
    · simpa [Shard.setPass, hq] using hy
  have hlive : ∀ y, (s.setPass p x).Live y → s.Live y := fun y hy => hy.imp_right fun ⟨q, hq⟩ => ⟨q, hflight q y hq⟩
  constructor
  · exact h.valid
  · exact h.tracked
  · exact fun y hy => h.held y (hlive y hy)
  · exact h.heldNodup
  · exact fun q y hy => h.nonnull q y (hflight q y hy)
  · exact fun q y hy => h.apart q y (hflight q y hy)
  · exact fun q r y hq hr => h.disjoint q r y (hflight q y hq) (hflight r y hr)
  · intro q
    by_cases hq : q = p
    · subst hq
      simpa [Shard.setPass] using hnodup
    · simpa [Shard.setPass, hq] using h.nodup q
  · exact fun y hy => h.owned y (hlive y hy)
  · exact fun y z hy hz => h.unique y z (hlive y hy) (hlive z hz)
  · exact fun q y hy => h.detached q y (hflight q y hy)
  · exact fun y hy => h.asleep y (hy.imp_right fun ⟨q, hq⟩ => ⟨q, hdue q y hq⟩)

theorem Sound.setPass (h : Sound s) (hsub : ∀ y ∈ x.flight, y ∈ (s.pass p).flight) (hnodup : x.flight.Nodup)
    (hpending : ∀ y ∈ x.pending, y ∈ (s.pass p).pending) (hok : PassOk s.mem s.proc.armed (s.net p) x) :
    Sound (s.setPass p x) := by
  refine ⟨h.timers.setPass hsub hnodup hpending, ?_⟩
  intro q
  by_cases hq : q = p
  · subst hq
    simpa [Shard.setPass] using hok
  · simpa [Shard.setPass, hq] using h.passes q

/-! ## A task is written to -/

variable {t : Ptr} {u : Task}

variable {m : Memory} {now : UInt64} {ts : List Ptr}

theorem setTask_owner (y : Ptr) : (m.setTask t u).owner y = if (m.node y).task = t then u else m.owner y := by
  simp only [Memory.owner, Memory.setTask, update_apply]

/-- A write to a task keeps the invariant if it keeps the timer and does not go back in the generations, does not change
the reason of a wait, leaves sleeps pending whose timer is due, and leaves alone a sleep that is about to be woken. -/
theorem Sound.setTask (h : Sound s) (hactive : u.activeTimer = (s.mem.task t).activeTimer)
    (hgeneration : (s.mem.task t).waitGeneration ≤ u.waitGeneration)
    (hreason : u.waitGeneration = (s.mem.task t).waitGeneration → u.waitReason = (s.mem.task t).waitReason)
    (hasleep : ∀ y, s.Due y → (s.mem.node y).task = t → u.waitGeneration = s.mem.gen y → u.waitReason = .SLEEP →
      u.state = .PARKED) (hacting : ∀ q y, (s.pass q).stage = .acting y .SLEEP → (s.mem.node y).task = t →
      u.waitGeneration = (s.mem.task t).waitGeneration) : Sound { s with mem := s.mem.setTask t u } := by
  -- a timer whose generation is the new one has had the old one
  have hsame : ∀ y, s.Live y → (s.mem.node y).task = t → u.waitGeneration = s.mem.gen y →
      (s.mem.task t).waitGeneration = u.waitGeneration := by
    intro y hy hown hgen
    have hle := (h.timers.owned y hy).2.2.2
    rw [Memory.owner, hown, ← hgen] at hle
    exact Std.le_antisymm hgeneration hle
  have hactive' : ∀ v, ((s.mem.setTask t u).task v).activeTimer = (s.mem.task v).activeTimer :=
    task_update Task.activeTimer hactive
  refine ⟨?_, ?_⟩
  · constructor
    · exact h.timers.valid.congr (fun _ _ => rfl) (fun _ _ => rfl)
    · exact h.timers.tracked.congr (fun _ _ => rfl) hactive'
    · exact h.timers.held
    · exact h.timers.heldNodup
    · exact h.timers.nonnull
    · exact h.timers.apart
    · exact h.timers.disjoint
    · exact h.timers.nodup
    · intro y hy
      obtain ⟨hown, hzero, hmax, hle⟩ := h.timers.owned y hy
      refine ⟨hown, hzero, hmax, ?_⟩
      rw [setTask_owner]
      split
      · rename_i hyt
        rw [Memory.owner, hyt] at hle
        exact Std.le_trans hle hgeneration
      · exact hle
    · exact h.timers.unique
    · intro q y hy
      rw [setTask_owner]
      split
      · rename_i hyt
        intro hgen
        have hold := h.timers.detached q y hy
        rw [Memory.owner, hyt] at hold
        rw [hactive]
        apply hold
        rw [hsame y (.inr ⟨q, hy⟩) hyt hgen]
        exact hgen
      · exact h.timers.detached q y hy
    · intro y hy
      rw [setTask_owner]
      split
      · rename_i hyt
        exact hasleep y hy hyt
      · exact h.timers.asleep y hy
  · intro q
    have hq := h.passes q
    refine { hq with reasoned := ?_, acting := ?_ }
    · intro y r hstage
      have hold := hq.reasoned y r hstage
      rw [setTask_owner]
      split
      · rename_i hyt
        intro hgen
        have hlive : s.Live y := .inr ⟨q, current_flight (by rw [hstage]; exact List.mem_singleton_self y)⟩
        have heq := hsame y hlive hyt hgen
        rw [Memory.owner, hyt] at hold
        rw [hreason heq.symm]
        exact hold (heq.trans hgen)
      · exact hold
    · intro y hstage
      have hold := hq.acting y hstage
      rw [setTask_owner]
      split
      · rename_i hyt
        have heq := hacting q y hstage hyt
        rw [Memory.owner, hyt] at hold
        rw [heq, hreason heq]
        exact hold
      · exact hold

/-! ## What is not seen -/

/-- What the invariant reads of a timer and of the wait of its task. -/
structure SameTimer (m m' : Memory) (y : Ptr) : Prop where
  node : m'.node y = m.node y
  generation : (m'.owner y).waitGeneration = (m.owner y).waitGeneration
  reason : (m'.owner y).waitReason = (m.owner y).waitReason
  state : (m'.owner y).state = (m.owner y).state

variable {m' : Memory} {y : Ptr}

theorem SameTimer.gen (h : SameTimer m m' y) : m'.gen y = m.gen y := by rw [Memory.gen, h.node, Memory.gen]

theorem SameTimer.owner (h : SameTimer m m' y) : m'.owner y = m'.task (m.node y).task := by rw [Memory.owner, h.node]

theorem SameTimer.of_waits (hnode : m'.node y = m.node y)
    (hgeneration : ∀ v, (m'.task v).waitGeneration = (m.task v).waitGeneration)
    (hreason : ∀ v, (m'.task v).waitReason = (m.task v).waitReason)
    (hstate : ∀ v, (m'.task v).state = (m.task v).state) : SameTimer m m' y := by
  refine ⟨hnode, ?_, ?_, ?_⟩ <;> rw [Memory.owner, hnode]
  · exact hgeneration _
  · exact hreason _
  · exact hstate _

theorem SameWaits.timer (h : SameWaits m m') (y : Ptr) : SameTimer m m' y :=
  .of_waits (congrFun h.node y) h.generation h.reason h.state

/-- A pass whose timers look the same, and the heap has only lost timers, but for those that were armed since. -/
theorem PassOk.unseen {armed armed' since : List Ptr} {net : UInt32} (h : PassOk m armed net x)
    (hflight : ∀ y ∈ x.flight, SameTimer m m' y)
    (harmed : ∀ y ∈ armed', y ∉ since → y ∈ armed ∧ y ∉ x.since ∧ m'.node y = m.node y) :
    PassOk m' armed' net { x with since := since } := by
  refine { h with flown := ?_, left := ?_, reasoned := ?_, acting := ?_ }
  · intro y hy
    rw [(hflight y hy).gen]
    exact h.flown y hy
  · intro hrefused y hy hbefore hsince
    obtain ⟨hold, hsince', hnode⟩ := harmed y hy hsince
    rw [Memory.deadline, hnode]
    exact h.left hrefused y hold hbefore hsince'
  · intro y r hstage
    have hy := hflight y (current_flight (by rw [hstage]; exact List.mem_singleton_self y))
    rw [hy.gen, hy.generation, hy.reason]
    exact h.reasoned y r hstage
  · intro y hstage
    have hy := hflight y (current_flight (by rw [hstage]; exact List.mem_singleton_self y))
    rw [hy.gen, hy.generation, hy.reason]
    exact h.acting y hstage

theorem Shard.Due.live (h : Sound s) (hy : s.Due y) : s.Live y :=
  hy.imp_right fun ⟨q, hq⟩ => ⟨q, (h.passes q).pending y hq⟩

/-- Timers may be taken out of the heap, and the tasks have forgotten them. The live timers look the same. -/
theorem Sound.congr (h : Sound s) {proc : Processor} {held : List Ptr} (hvalid : Valid m proc)
    (htracked : Tracked m proc) (hsub : ∀ y ∈ proc.armed, y ∈ s.proc.armed)
    (hsame : ∀ y, s.Live y → SameTimer s.mem m y)
    (hnone : ∀ v, (s.mem.task v).activeTimer = NULL → (m.task v).activeTimer = NULL)
    (hheld : ∀ y, s.Live y → y ∈ held) (hnodup : held.Nodup) :
    Sound { s with mem := m, proc := proc, held := held } := by
  have hlive : ∀ y, ({ s with mem := m, proc := proc, held := held } : Shard P).Live y → s.Live y :=
    fun y hy => hy.imp_left (hsub y)
  refine ⟨?_, ?_⟩
  · constructor
    · exact hvalid
    · exact htracked
    · exact fun y hy => hheld y (hlive y hy)
    · exact hnodup
    · exact h.timers.nonnull
    · exact fun q y hy hin => h.timers.apart q y hy (hsub y hin)
    · exact h.timers.disjoint
    · exact h.timers.nodup
    · intro y hy
      have hy' := hsame y (hlive y hy)
      rw [hy'.gen, hy'.node, hy'.generation]
      exact h.timers.owned y (hlive y hy)
    · intro y z hy hz
      have hy' := hsame y (hlive y hy)
      have hz' := hsame z (hlive z hz)
      rw [hy'.gen, hz'.gen, hy'.node, hz'.node]
      exact h.timers.unique y z (hlive y hy) (hlive z hz)
    · intro q y hy
      have hy' := hsame y (.inr ⟨q, hy⟩)
      rw [hy'.gen, hy'.generation, hy'.owner]
      exact fun hmatch => hnone _ (h.timers.detached q y hy hmatch)
    · intro y hy
      have hdue : s.Due y := hy.imp_left (hsub y)
      have hy' := hsame y (hdue.live h)
      rw [hy'.gen, hy'.generation, hy'.reason, hy'.state]
      exact h.timers.asleep y hdue
  · intro q
    refine (h.passes q).unseen (fun y hy => hsame y (.inr ⟨q, hy⟩)) fun y hy hsince => ?_
    exact ⟨hsub y hy, hsince, (hsame y (.inl (hsub y hy))).node⟩

theorem release_spec (m : Memory) (y : Ptr) (ref : Bool) :
    (∀ z, z ≠ y → (m.release y ref).node z = m.node z) ∧ (m.release y ref).heapIndex = m.heapIndex ∧
    (∀ v, ((m.release y ref).task v).waitGeneration = (m.task v).waitGeneration) ∧
    (∀ v, ((m.release y ref).task v).waitReason = (m.task v).waitReason) ∧
    (∀ v, ((m.release y ref).task v).state = (m.task v).state) ∧
    (∀ v, ((m.release y ref).task v).activeTimer = (m.task v).activeTimer) := by
  have hnode : ∀ z, z ≠ y → (m.release y ref).node z = m.node z := by
    intro z hz
    unfold Memory.release
    dsimp only
    split <;> simp [Memory.setTask, hz]
  have htask : ∀ v, ∃ refs, (m.release y ref).task v = { m.task v with scanRefs := refs } := by
    intro v
    unfold Memory.release
    dsimp only
    split
    · simp only [Memory.setTask, update_apply]
      split
      · rename_i hv
        exact ⟨_, by rw [hv]⟩
      · exact ⟨_, rfl⟩
    · exact ⟨_, rfl⟩
  refine ⟨hnode, ?_, ?_, ?_, ?_, ?_⟩
  · unfold Memory.release
    dsimp only
    split <;> rfl
  all_goals
    intro v
    obtain ⟨refs, heq⟩ := htask v
    rw [heq]

theorem Sound.release (h : Sound s) {y : Ptr} (hy : ¬ s.Live y) (ref : Bool) :
    Sound { s with mem := s.mem.release y ref, held := s.held.erase y } := by
  obtain ⟨hnode, hindex, hgeneration, hreason, hstate, hactive⟩ := release_spec s.mem y ref
  have hnode' : ∀ z, s.Live z → (s.mem.release y ref).node z = s.mem.node z :=
    fun z hz => hnode z fun heq => hy (heq ▸ hz)
  refine h.congr ?_ ?_ (fun _ hz => hz) ?_ ?_ ?_ (h.timers.heldNodup.erase y)
  · exact h.timers.valid.congr (fun z hz => by rw [hnode' z (.inl hz)]) (fun z _ => by rw [hindex])
  · exact h.timers.tracked.congr (fun z hz => hnode' z (.inl hz)) hactive
  · exact fun z hz => .of_waits (hnode' z hz) hgeneration hreason hstate
  · exact fun v hv => (hactive v).trans hv
  · intro z hz
    have hne : z ≠ y := fun heq => hy (heq ▸ hz)
    exact (List.mem_erase_of_ne hne).mpr (h.timers.held z hz)

/-! ## Sampling the clock -/

/-- A pass that starts, with the timers that it has popped. -/
def Pass.started (m : Memory) (before : List Ptr) (now : UInt64) (refused : Bool) (ts : List Ptr) : Pass :=
  ⟨.next, ts, [], UInt32.ofNat ts.length, before, now, refused,
    ts.map fun x => ⟨x, (m.node x).deadlineNs, (m.node x).waitGeneration⟩, [], [], []⟩

theorem started_flight {before : List Ptr} {refused : Bool} : (Pass.started m before now refused ts).flight = ts := by
  simp [Pass.started, Pass.flight, Stage.current]

theorem started_pending {before : List Ptr} {refused : Bool} : (Pass.started m before now refused ts).pending = ts := by
  simp [Pass.started, Pass.pending, Stage.unresolved]

/-- Popping moves timers from the heap to the pass. -/
theorem Timers.popped (h : Timers s) {proc : Processor} {callbacks : UInt32} {net : P → UInt32}
    (hidle : (s.pass p).flight = []) (hflight : x.flight = ts) (hpending : x.pending = ts) (hvalid : Valid m proc)
    (htracked : Tracked m proc) (hsame : SameWaits s.mem m) (hperm : (ts ++ proc.armed).Perm s.proc.armed) :
    Timers { s with mem := m, proc := proc, callbacks := callbacks, net := net, pass := update s.pass p x } := by
  have hnodup : (ts ++ proc.armed).Nodup := hperm.nodup_iff.mpr h.valid.indexed.nodup
  have hts : ∀ y ∈ ts, y ∈ s.proc.armed := fun y hy => hperm.mem_iff.mp (List.mem_append_left _ hy)
  have harmed : ∀ y ∈ proc.armed, y ∈ s.proc.armed := fun y hy => hperm.mem_iff.mp (List.mem_append_right _ hy)
  have hapart : ∀ y ∈ ts, y ∉ proc.armed := fun y hy hy' => (List.nodup_append.mp hnodup).2.2 y hy y hy' rfl
  have hcases : ∀ q, ∀ y ∈ (update s.pass p x q).flight, q = p ∧ y ∈ ts ∨ q ≠ p ∧ y ∈ (s.pass q).flight := by
    intro q y hy
    by_cases hq : q = p
    · subst hq
      rw [update_self, hflight] at hy
      exact .inl ⟨rfl, hy⟩
    · rw [update_of_ne hq] at hy
      exact .inr ⟨hq, hy⟩
  have hlive : ∀ y, (y ∈ proc.armed ∨ ∃ q, y ∈ (update s.pass p x q).flight) → s.Live y := by
    rintro y (hy | ⟨q, hq⟩)
    · exact .inl (harmed y hy)
    · rcases hcases q y hq with ⟨-, hy⟩ | ⟨-, hy⟩
      · exact .inl (hts y hy)
      · exact .inr ⟨q, hy⟩
  have hsame' := hsame.timer
  -- a task whose timer was popped has none, since it would have to be in the heap
  have hforgot : ∀ y ∈ ts, (m.task (s.mem.node y).task).activeTimer = NULL := by
    intro y hy
    by_contra hne
    obtain ⟨hz, hzown⟩ := htracked.active _ hne
    rw [hsame.node] at hzown
    have hztimer := (h.tracked.timer _ (harmed _ hz)).2.2
    have hytimer := (h.tracked.timer y (hts y hy)).2.2
    rw [hzown, hytimer] at hztimer
    exact hapart y hy (hztimer ▸ hz)
  constructor
  · exact hvalid
  · exact htracked
  · exact fun y hy => h.held y (hlive y hy)
  · exact h.heldNodup
  · intro q y hy
    rcases hcases q y hy with ⟨-, hy⟩ | ⟨-, hy⟩
    · exact (h.tracked.timer y (hts y hy)).1
    · exact h.nonnull q y hy
  · intro q y hy
    rcases hcases q y hy with ⟨-, hy⟩ | ⟨-, hy⟩
    · exact hapart y hy
    · exact fun hy' => h.apart q y hy (harmed y hy')
  · intro q q' y hy hy'
    rcases hcases q y hy with ⟨hq, hts₁⟩ | ⟨-, hold₁⟩
    · rcases hcases q' y hy' with ⟨hq', -⟩ | ⟨-, hold₂⟩
      · exact hq.trans hq'.symm
      · exact absurd (hts y hts₁) (h.apart q' y hold₂)
    · rcases hcases q' y hy' with ⟨-, hts₂⟩ | ⟨-, hold₂⟩
      · exact absurd (hts y hts₂) (h.apart q y hold₁)
      · exact h.disjoint q q' y hold₁ hold₂
  · intro q
    dsimp only
    by_cases hq : q = p
    · subst hq
      rw [update_self, hflight]
      exact (List.nodup_append.mp hnodup).1
    · rw [update_of_ne hq]
      exact h.nodup q
  · intro y hy
    rw [(hsame' y).gen, (hsame' y).generation, hsame.node]
    exact h.owned y (hlive y hy)
  · intro y z hy hz
    rw [(hsame' y).gen, (hsame' z).gen, hsame.node]
    exact h.unique y z (hlive y hy) (hlive z hz)
  · intro q y hy
    rw [(hsame' y).gen, (hsame' y).generation, (hsame' y).owner]
    rcases hcases q y hy with ⟨-, hy⟩ | ⟨-, hy⟩
    · exact fun _ => hforgot y hy
    intro hmatch
    have hnone := h.detached q y hy hmatch
    -- it had no timer, and popping gives it none
    by_contra hne
    obtain ⟨hz, hzown⟩ := htracked.active _ hne
    rw [hsame.node] at hzown
    have hztimer := (h.tracked.timer _ (harmed _ hz)).2.2
    rw [hzown] at hztimer
    rw [Memory.owner] at hnone
    rw [hnone] at hztimer
    exact hne hztimer.symm
  · intro y hy
    rw [(hsame' y).gen, (hsame' y).generation, (hsame' y).reason, (hsame' y).state]
    apply h.asleep y
    rcases hy with hy | ⟨q, hq⟩
    · exact .inl (harmed y hy)
    have hq' : y ∈ (update s.pass p x q).pending := hq
    by_cases hqp : q = p
    · subst hqp
      rw [update_self, hpending] at hq'
      exact .inl (hts y hq')
    · rw [update_of_ne hqp] at hq'
      exact .inr ⟨q, hq'⟩

theorem Sound.sample (h : Sound s) {s' : Shard P} (hs : s.sample p now = some s') : Sound s' := by
  unfold Shard.sample at hs
  split at hs
  · cases hs
  rename_i hidle
  rw [not_not] at hidle
  split at hs
  · cases hs
    exact h
  cases hs
  obtain ⟨hvalid, htracked, hsame, hperm, hdue, hlate⟩ :=
    popDue_spec now s.proc.len s.mem s.proc h.timers.valid h.timers.tracked (Nat.le_refl _)
  generalize popDue now s.proc.len s.mem s.proc = r at *
  obtain ⟨m, proc, ts, refused⟩ := r
  have hempty := (h.passes p).idle hidle
  have hnet : s.net p = 0 := by rw [(h.passes p).net, if_pos hidle]
  refine ⟨h.timers.popped (x := Pass.started s.mem s.proc.armed now refused ts) hempty started_flight started_pending
    hvalid htracked hsame hperm, ?_⟩
  intro q
  by_cases hq : q = p
  · subst hq
    show PassOk m proc.armed (update s.net q _ q)
      (update s.pass q (Pass.started s.mem s.proc.armed now refused ts) q)
    rw [update_self, update_self, hnet]
    have hmap : (Pass.started s.mem s.proc.armed now refused ts).popped.map Popped.timer = ts := by
      simp [Pass.started, Function.comp_def]
    have hnodup : ts.Nodup := (List.nodup_append.mp (hperm.nodup_iff.mpr h.timers.valid.indexed.nodup)).1
    constructor
    · simp [Pass.started]
    · intros; contradiction
    · intros; contradiction
    · rw [hmap]
      rfl
    · rw [hmap]
      exact hnodup
    · intro e he
      obtain ⟨y, hy, rfl⟩ := List.mem_map.mp he
      exact hdue y hy
    · intro e he
      obtain ⟨y, hy, rfl⟩ := List.mem_map.mp he
      exact hperm.mem_iff.mp (List.mem_append_left _ hy)
    · intro y hy
      rw [started_flight] at hy
      refine ⟨_, List.mem_map.mpr ⟨y, hy, rfl⟩, rfl, ?_⟩
      rw [Memory.gen, hsame.node]
    · intro y hy
      rw [started_flight]
      exact hy
    · exact fun e he => absurd he List.not_mem_nil
    · exact hnodup
    · intro hrefused y hy _ _
      rw [Memory.deadline, hsame.node]
      exact hlate hrefused y hy
    · intros; contradiction
    · intros; contradiction
  · dsimp only
    rw [update_of_ne hq, update_of_ne hq]
    refine (h.passes q).unseen (fun y _ => hsame.timer y) fun y hy hsince => ?_
    exact ⟨hperm.mem_iff.mp (List.mem_append_right _ hy), hsince, congrFun hsame.node y⟩

end invariant

end Llam.Timer
