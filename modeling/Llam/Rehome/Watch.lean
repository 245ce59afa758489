import Mathlib

/-!
# Rehoming the waiters of watches

`llam_rehome_runtime_watch_waiters` of `src/engine/watchdog/watchdog_rehome.c` moves the waiters of a shard that goes
offline to another shard: node by node, and on each node the poll, accept and receive watches one after the other. The
waiters of one watch are checked before any of them is rewritten, those of the next watch afterwards. A call that is
refused has thus changed nothing exactly if the watches before the one that blocks it were at rest
(`refused_rehome_unchanged`); otherwise it has moved their waiters (`refused_rehome_moves`) or changed their marks.
-/

namespace Llam.Rehome

/-- The lists in which a request can wait. -/
inductive WaitMode
  | POLL_WATCH
  | ACCEPT_WATCH
  | RECV_WATCH
  | OTHER
  deriving DecidableEq, Repr

/-- A request and its task. -/
structure Waiter where
  ownerShard : Nat
  parkedShard : Nat
  homeShard : Nat
  waitMode : WaitMode
  pinned : Bool
  /-- The task is parked for I/O. -/
  parked : Bool
  /-- The request is the active one of the task. -/
  active : Bool
  deriving DecidableEq, Repr

/-- A watch with its waiters and its migration mark; `mode` says in which of the three lists of its node it is. -/
structure Watch where
  node : Nat
  mode : WaitMode
  fd : Int
  waiters : List Waiter
  migrateTargetNode : Option Nat
  liveTransferred : Bool
  deriving DecidableEq, Repr

/-- `ownerNode` is `llam_multishot_owner_node_index` for the node of the target; `sourceNode` is the only node that is
visited unless watches are spread over several nodes. -/
structure Call where
  source : Nat
  target : Nat
  spread : Bool
  sourceNode : Nat
  ownerNode : Int → Nat

namespace Call

variable (c : Call)

/-- `llam_task_can_rehome_io_wait`. -/
def canRehome (mode : WaitMode) (w : Waiter) : Bool :=
  !w.pinned && w.parked && w.parkedShard == c.source && w.active && w.ownerShard == c.source && w.waitMode == mode

/-- `llam_rehome_io_wait_req`. -/
def rehomeReq (w : Waiter) : Waiter :=
  { w with
    parkedShard := c.target
    ownerShard := c.target
    homeShard := if w.homeShard = c.source then c.target else w.homeShard }

/-- `llam_rehome_io_waiter_list`: `none` if a waiter of the shard cannot be moved. -/
def rehomeList (mode : WaitMode) (waiters : List Waiter) : Option (List Waiter) :=
  if waiters.all fun w => w.ownerShard != c.source || c.canRehome mode w then
    some (waiters.map fun w => if w.ownerShard = c.source then c.rehomeReq w else w)
  else none

/-- The mark of a watch whose waiters have been moved. -/
def mark (x : Watch) : Watch :=
  if x.waiters.isEmpty then x
  else if x.node ≠ c.ownerNode x.fd ∧ x.waiters.all (·.ownerShard == c.target) then
    { x with migrateTargetNode := some (c.ownerNode x.fd), liveTransferred := true }
  else { x with migrateTargetNode := none, liveTransferred := false }

/-- One turn of the loops over watches, and whether they go on. -/
def rehomeWatch (x : Watch) : Watch × Bool :=
  if !c.spread && x.node != c.sourceNode then (x, true)
  else
    match c.rehomeList x.mode x.waiters with
    | none => (x, false)
    | some waiters => (c.mark { x with waiters := waiters }, true)

/-- `llam_rehome_runtime_watch_waiters` on all watches in the order of the loops. -/
def rehomeWatches : List Watch → List Watch × Bool
  | [] => ([], true)
  | x :: rest =>
    if (c.rehomeWatch x).2 then ((c.rehomeWatch x).1 :: (rehomeWatches rest).1, (rehomeWatches rest).2)
    else ((c.rehomeWatch x).1 :: rest, false)

end Call

variable {c : Call}

/-- The watch is on a node that the call visits. -/
def Call.visits (c : Call) (x : Watch) : Bool := c.spread || x.node == c.sourceNode

/-- The watch has a waiter of the source that cannot be moved. -/
def Call.blocks (c : Call) (x : Watch) : Bool :=
  c.visits x && x.waiters.any fun w => w.ownerShard == c.source && !c.canRehome x.mode w

/-- The watch has no waiter to move, and its mark is what the call would make it. -/
def Call.rests (c : Call) (x : Watch) : Bool :=
  !c.visits x || x.waiters.isEmpty ||
    (c.source == c.target || x.waiters.all (·.ownerShard != c.source)) &&
      if x.node ≠ c.ownerNode x.fd ∧ x.waiters.all (·.ownerShard == c.target) then
        x.migrateTargetNode == some (c.ownerNode x.fd) && x.liveTransferred
      else x.migrateTargetNode.isNone && !x.liveTransferred

/-- The waiters of a watch after the call. -/
def Call.moved (c : Call) (w : Waiter) : Waiter := if w.ownerShard = c.source then c.rehomeReq w else w

theorem skips_eq (x : Watch) : (!c.spread && x.node != c.sourceNode) = !c.visits x := by
  rw [Call.visits, Bool.not_or, bne]

theorem rehomeWatch_of_unvisited {x : Watch} (h : c.visits x = false) : c.rehomeWatch x = (x, true) := by
  rw [Call.rehomeWatch, skips_eq, h]
  rfl

theorem rehomeWatch_of_blocks {x : Watch} (h : c.blocks x = true) : c.rehomeWatch x = (x, false) := by
  obtain ⟨hvisits, hany⟩ : c.visits x = true ∧ _ := by simpa only [Call.blocks, Bool.and_eq_true] using h
  have hnot : ¬ (x.waiters.all fun w => w.ownerShard != c.source || c.canRehome x.mode w) = true := by
    simpa using hany
  rw [Call.rehomeWatch, skips_eq, hvisits, Call.rehomeList, if_neg hnot]
  rfl

theorem rehomeWatch_of_visits {x : Watch} (hvisits : c.visits x = true) (h : c.blocks x = false) :
    c.rehomeWatch x = (c.mark { x with waiters := x.waiters.map c.moved }, true) := by
  have hall : (x.waiters.all fun w => w.ownerShard != c.source || c.canRehome x.mode w) = true := by
    simpa [Call.blocks, hvisits, ← imp_iff_not_or] using h
  rw [Call.rehomeWatch, skips_eq, hvisits, Call.rehomeList, if_pos hall]
  rfl

theorem rehomeWatch_snd (x : Watch) : (c.rehomeWatch x).2 = !c.blocks x := by
  cases hblocks : c.blocks x
  · cases hvisits : c.visits x
    · rw [rehomeWatch_of_unvisited hvisits]
      rfl
    · rw [rehomeWatch_of_visits hvisits hblocks]
      rfl
  · rw [rehomeWatch_of_blocks hblocks]
    rfl

theorem map_eq_self {α : Type} {f : α → α} {l : List α} : l.map f = l ↔ ∀ a ∈ l, f a = a := by
  simpa using List.map_inj_left (f := f) (g := id) (l := l)

/-- **One list**: if no waiter of the source is in the way, the waiters stay as they are exactly if the source has none. -/
theorem map_moved_eq {x : Watch} (hvisits : c.visits x = true) (h : c.blocks x = false) :
    x.waiters.map c.moved = x.waiters ↔ c.source = c.target ∨ ∀ w ∈ x.waiters, w.ownerShard ≠ c.source := by
  rw [map_eq_self]
  constructor
  · intro hsame
    by_contra hnot
    obtain ⟨hne, w, hw, howner⟩ : c.source ≠ c.target ∧ ∃ w ∈ x.waiters, w.ownerShard = c.source := by
      simpa using hnot
    have hmoved := congrArg Waiter.ownerShard (hsame w hw)
    rw [Call.moved, if_pos howner] at hmoved
    exact hne (howner.symm.trans hmoved.symm)
  · intro hrest w hw
    unfold Call.moved
    split
    · rename_i howner
      have hsource : c.source = c.target := hrest.resolve_right fun hall => hall w hw howner
      have hcan : c.canRehome x.mode w = true := by
        simp only [Call.blocks, hvisits, Bool.true_and, List.any_eq_false] at h
        simpa [howner] using h w hw
      have hparked : w.parkedShard = c.source := by
        simp only [Call.canRehome, Bool.and_eq_true, beq_iff_eq] at hcan
        exact hcan.1.1.1.2
      obtain ⟨owner, parked, home, mode, pinned, isParked, active⟩ := w
      simp only at howner hparked
      simp only [Call.rehomeReq, Waiter.mk.injEq, howner, hparked, hsource, true_and, and_true]
      split
      · rename_i hhome
        exact hhome.symm
      · rfl
    · rfl

/-- **One watch** is as before exactly if it was at rest. -/
theorem rehomeWatch_fst {x : Watch} (h : c.blocks x = false) : (c.rehomeWatch x).1 = x ↔ c.rests x = true := by
  cases hvisits : c.visits x
  · simp [rehomeWatch_of_unvisited hvisits, Call.rests, hvisits]
  rw [rehomeWatch_of_visits hvisits h]
  have hwaiters : (c.mark { x with waiters := x.waiters.map c.moved }).waiters = x.waiters.map c.moved := by
    unfold Call.mark
    split
    · rfl
    · split <;> rfl
  have hrest := map_moved_eq hvisits h
  by_cases hsame : x.waiters.map c.moved = x.waiters
  · have hidle := hrest.mp hsame
    obtain ⟨node, mode, fd, waiters, target, live⟩ := x
    simp only at hsame hidle ⊢
    rw [hsame]
    cases waiters with
    | nil => simp [Call.mark, Call.rests]
    | cons w ws =>
      have hall : (c.source == c.target || (w :: ws).all (·.ownerShard != c.source)) = true := by simpa using hidle
      simp only [Call.mark, Call.rests, hvisits, hall, Bool.not_true, Bool.false_or, Bool.true_and, List.isEmpty_cons,
        Bool.false_eq_true, if_false]
      split
      · simp only [Watch.mk.injEq, true_and, Bool.and_eq_true, beq_iff_eq]
        exact and_congr eq_comm eq_comm
      · simp only [Watch.mk.injEq, true_and, Bool.and_eq_true, Option.isNone_iff_eq_none, Bool.not_eq_true']
        exact and_congr eq_comm eq_comm
  · have hmoves : c.rests x = false := by
      rw [hrest] at hsame
      cases hx : x.waiters with
      | nil => simp [hx] at hsame
      | cons w ws => simp_all [Call.rests]
    rw [hmoves]
    constructor
    · intro heq
      exact absurd (hwaiters.symm.trans (congrArg Watch.waiters heq)) hsame
    · simp

/-- **The loops**: the watches before the first one that blocks are rehomed, the others are as before. -/
theorem rehomeWatches_eq (xs : List Watch) : c.rehomeWatches xs =
    ((xs.takeWhile fun x => !c.blocks x).map (fun x => (c.rehomeWatch x).1) ++ xs.dropWhile fun x => !c.blocks x,
      xs.all fun x => !c.blocks x) := by
  induction xs with
  | nil => rfl
  | cons x xs ih =>
    unfold Call.rehomeWatches
    rw [rehomeWatch_snd]
    cases h : c.blocks x
    · simp [h, ih]
    · simp [h, rehomeWatch_of_blocks h]

/-- **When a refusal changes nothing**: a call is refused exactly if a watch blocks it, and it is then as if it had not been
made exactly if the watches before the first one that blocks have no waiter to move and no mark to change. -/
theorem refused_rehome_unchanged (c : Call) (xs : List Watch) :
    ((c.rehomeWatches xs).2 = false ↔ ∃ x ∈ xs, c.blocks x = true) ∧
    (((c.rehomeWatches xs).2 = false → (c.rehomeWatches xs).1 = xs) ↔
      ((∃ x ∈ xs, c.blocks x = true) → ∀ x ∈ xs.takeWhile fun x => !c.blocks x, c.rests x = true)) := by
  have hrefused : (c.rehomeWatches xs).2 = false ↔ ∃ x ∈ xs, c.blocks x = true := by
    rw [rehomeWatches_eq]
    simp
  refine ⟨hrefused, ?_⟩
  rw [hrefused, rehomeWatches_eq]
  refine imp_congr_right fun _ => ?_
  conv_lhs => rhs; rw [← List.takeWhile_append_dropWhile (p := fun x => !c.blocks x) (l := xs)]
  rw [List.append_left_inj, map_eq_self]
  refine forall₂_congr fun x hx => rehomeWatch_fst ?_
  simpa using List.mem_takeWhile_imp hx

/-- A waiter of shard 0 that polls or accepts, and a call that moves the waiters of shard 0 to shard 1. -/
def sampleWaiter (mode : WaitMode) (pinned : Bool) : Waiter := ⟨0, 0, 0, mode, pinned, true, true⟩

def sampleCall : Call := ⟨0, 1, true, 0, fun _ => 1⟩

/-- A poll watch whose waiter is on another shard, and an accept watch with a pinned waiter of shard 0. -/
theorem refused_rehome_unchanged_second : (sampleCall.rehomeWatches
    [⟨0, .POLL_WATCH, 3, [⟨2, 2, 2, .POLL_WATCH, false, true, true⟩], none, false⟩,
      ⟨0, .ACCEPT_WATCH, 4, [sampleWaiter .ACCEPT_WATCH true], none, false⟩]).1 =
    [⟨0, .POLL_WATCH, 3, [⟨2, 2, 2, .POLL_WATCH, false, true, true⟩], none, false⟩,
      ⟨0, .ACCEPT_WATCH, 4, [sampleWaiter .ACCEPT_WATCH true], none, false⟩] :=
  (refused_rehome_unchanged sampleCall _).2.mpr (by decide +kernel) (by decide +kernel)

/-- A poll watch with a waiter that can be moved, and an accept watch with a pinned one: the call is refused, and the first
waiter has been moved. -/
theorem refused_rehome_moves : ¬ ∀ (c : Call) (xs : List Watch), (c.rehomeWatches xs).2 = false →
    (c.rehomeWatches xs).1 = xs := by
  intro h
  have hcase := h sampleCall [⟨0, .POLL_WATCH, 3, [sampleWaiter .POLL_WATCH false], none, false⟩,
    ⟨0, .ACCEPT_WATCH, 4, [sampleWaiter .ACCEPT_WATCH true], none, false⟩] (by decide +kernel)
  revert hcase
  decide +kernel

end Llam.Rehome
