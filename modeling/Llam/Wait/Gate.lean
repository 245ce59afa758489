import Mathlib

/-!
# The resolver gate of a task

`wait_resolver_state` of `llam_task_t` is a word with a closed bit and a count (`wait_tracking.c`): a resolver takes a
reference while the gate is open, and whoever clears the wait closes the gate and waits until the count is zero. `Gate`
carries the set of the resolvers that hold a reference, which the count measures, so that a drained gate has none
(`drained_iff`).
-/

namespace Llam.Wait

/-- The word, and as history who holds the references. -/
structure Gate (K : Type) where
  closed : Bool
  refs : Nat
  holders : Finset K
  count : refs = holders.card

namespace Gate

variable {K : Type} [DecidableEq K]

/-- No wait has been published yet. -/
def init : Gate K := ⟨true, 0, ∅, rfl⟩

/-- `llam_task_wait_resolver_try_begin` by `k`, which holds no reference to this gate. -/
def tryBegin (g : Gate K) (k : K) : Option (Gate K) :=
  if h : g.closed = true ∨ k ∈ g.holders then none
  else some ⟨false, g.refs + 1, insert k g.holders, by
    rw [Finset.card_insert_of_notMem (fun hk => h (.inr hk)), g.count]⟩

/-- `llam_task_wait_resolver_end`. -/
def finish (g : Gate K) (k : K) : Gate K where
  closed := g.closed
  refs := if k ∈ g.holders then g.refs - 1 else g.refs
  holders := g.holders.erase k
  count := by
    split
    · rename_i h
      rw [Finset.card_erase_of_mem h, g.count]
    · rename_i h
      rw [Finset.erase_eq_of_notMem h, g.count]

/-- The first half of `llam_task_close_wait_resolvers`. -/
def close (g : Gate K) : Gate K := { g with closed := true }

/-- What its second half waits for. -/
def drained (g : Gate K) : Bool := g.refs = 0

/-- `llam_task_publish_wait_tracking`. -/
def publish (g : Gate K) : Gate K := { g with closed := false }

theorem drained_iff (g : Gate K) : g.drained = true ↔ g.holders = ∅ := by
  rw [drained, decide_eq_true_eq, g.count, Finset.card_eq_zero]

theorem eq_of_holders {g g' : Gate K} (hclosed : g.closed = g'.closed) (hholders : g.holders = g'.holders) : g = g' := by
  cases g with | mk closed refs holders count =>
  cases g' with | mk closed' refs' holders' count' =>
  cases hclosed
  cases hholders
  cases count.trans count'.symm
  rfl

@[simp] theorem finish_holders (g : Gate K) (k : K) : (g.finish k).holders = g.holders.erase k := rfl

theorem tryBegin_holders {g g' : Gate K} {k : K} (h : g.tryBegin k = some g') : g'.holders = insert k g.holders := by
  unfold tryBegin at h
  split at h
  · cases h
  · cases h; rfl

theorem tryBegin_closed {g g' : Gate K} {k : K} (h : g.tryBegin k = some g') :
    g.closed = false ∧ g'.closed = false := by
  unfold tryBegin at h
  split at h <;> cases h
  rename_i hout
  exact ⟨by simpa using (not_or.mp hout).1, rfl⟩

end Gate

end Llam.Wait
