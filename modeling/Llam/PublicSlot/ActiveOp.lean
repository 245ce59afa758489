import Llam.Basic
import Llam.Lib.Run

/-!
# The count of active operations on a public handle

`runtime_public_active_op.h`. A public operation pins its object by `llam_public_active_op_try_begin` and releases it by
`llam_public_active_op_end`. A count that reaches the limit is replaced by a busy sentinel that is meant to stay.
`try_begin` loads the count, and adds to it only later: a load that comes before the sentinel lets an addition through
that comes after it and wraps it to zero (`late_add_clears_sentinel`). In every run without such an addition the
sentinel stays, and the load of each later `try_begin` refuses it (`sentinel_stays`).
-/

namespace Llam.PublicSlot.ActiveOp

open Function Llam.Lib

/-- `LLAM_PUBLIC_ACTIVE_OP_BUSY_SENTINEL`, the largest `size_t`. -/
def busySentinel : Nat := sizeMax

def reservedThreshold : Nat := busySentinel / 2 - 1

def beginLimit : Nat := reservedThreshold - 1

/-- Where a thread is: before one of the two calls, before the addition of `try_begin`, before a store of the sentinel,
or in the loop of `end` with the value it read last. As history of `try_begin`: the sentinel had been stored when it
loaded the count. -/
inductive Pc where
  | idle
  | add (stored : Bool)
  | store
  | ending (current : Nat)
  deriving DecidableEq

/-- The count and the threads. As history: the sentinel has been stored, and a `try_begin` has succeeded after that. -/
structure State (T : Type) where
  activeOps : Nat
  pc : T → Pc
  stored : Bool
  beganLate : Bool

/-- The atomic steps. A weak exchange may fail without a reason. -/
inductive Action (T : Type) where
  | loadBegin (t : T)
  | fetchAdd (t : T)
  | storeSentinel (t : T)
  | loadEnd (t : T)
  | exchange (t : T) (spurious : Bool)

variable {T : Type} [DecidableEq T]

/-- `llam_public_active_op_init`. -/
def init : State T := ⟨0, fun _ => .idle, false, false⟩

/-- `t` goes on at `pc`. -/
def State.goto (s : State T) (t : T) (pc : Pc) : State T := { s with pc := update s.pc t pc }

def step (s : State T) : Action T → Option (State T)
  | .loadBegin t =>
    if s.pc t = .idle then some (s.goto t (if beginLimit ≤ s.activeOps then .store else .add s.stored)) else none
  | .fetchAdd t =>
    match s.pc t with
    | .add _ =>
      let previous := s.activeOps
      let s := { s with activeOps := (previous + 1) % 2 ^ 64 }
      if previous < beginLimit then some { s.goto t .idle with beganLate := s.beganLate || s.stored }
      else some (s.goto t .store)
    | _ => none
  | .storeSentinel t =>
    if s.pc t = .store then some { s.goto t .idle with activeOps := busySentinel, stored := true } else none
  | .loadEnd t => if s.pc t = .idle then some (s.goto t (.ending s.activeOps)) else none
  | .exchange t spurious =>
    match s.pc t with
    | .ending current =>
      if current = 0 then some (s.goto t .idle)
      else if reservedThreshold ≤ current then some (s.goto t .store)
      else if s.activeOps = current && !spurious then some { s.goto t .idle with activeOps := current - 1 }
      else some (s.goto t (.ending s.activeOps))
    | _ => none

/-- A `try_begin` that loaded the count before the sentinel was stored has added before that too. -/
def inTime (s : State T) : Action T → Bool
  | .fetchAdd t => !(s.stored && s.pc t == .add false)
  | _ => true

/-! ## Without late additions -/

/-- A stored sentinel is in place, and nobody has passed the check of its load since. -/
structure Inv (s : State T) : Prop where
  inPlace : s.stored = true → s.activeOps = busySentinel
  checked : ∀ t, s.pc t ≠ .add true
  noneLate : s.beganLate = false

theorem Inv.goto {s : State T} {t : T} {pc : Pc} (h : Inv s) (hpc : pc ≠ .add true) : Inv (s.goto t pc) := by
  refine ⟨h.inPlace, fun u => ?_, h.noneLate⟩
  by_cases hu : u = t
  · subst hu
    simpa [State.goto] using hpc
  · simpa [State.goto, hu] using h.checked u

/-- **The load check**: a `try_begin` that loads the sentinel goes on to its refusal. -/
theorem Inv.refuses {s s' : State T} {t : T} (h : Inv s) (hst : s.stored = true)
    (hs : step s (.loadBegin t) = some s') : s'.pc t = .store := by
  have hlimit : beginLimit ≤ s.activeOps := by
    rw [h.inPlace hst]
    decide
  simp only [step, if_pos hlimit, Option.ite_none_right_eq_some, Option.some.injEq] at hs
  obtain ⟨-, rfl⟩ := hs
  simp [State.goto]

theorem Inv.step {s s' : State T} {a : Action T} (h : Inv s) (hs : guarded inTime step s a = some s') : Inv s' := by
  obtain ⟨htime, hs⟩ := guarded_some.mp hs
  have hchecked : ∀ t pc, pc ≠ .add true → ∀ u, (s.goto t pc).pc u ≠ .add true := fun t pc hne => (h.goto hne).checked
  cases a with
  | loadBegin t =>
    by_cases hst : s.stored = true
    · have hrefused := h.refuses hst hs
      simp only [ActiveOp.step, Option.ite_none_right_eq_some, Option.some.injEq] at hs
      obtain ⟨-, rfl⟩ := hs
      exact h.goto (by simp_all [State.goto])
    · simp only [ActiveOp.step, Option.ite_none_right_eq_some, Option.some.injEq] at hs
      obtain ⟨-, rfl⟩ := hs
      exact h.goto (by split <;> simp [hst])
  | loadEnd t =>
    simp only [ActiveOp.step, Option.ite_none_right_eq_some, Option.some.injEq] at hs
    obtain ⟨-, rfl⟩ := hs
    exact h.goto (by simp)
  | storeSentinel t =>
    simp only [ActiveOp.step, Option.ite_none_right_eq_some, Option.some.injEq] at hs
    obtain ⟨-, rfl⟩ := hs
    exact ⟨fun _ => rfl, hchecked t .idle (by simp), h.noneLate⟩
  | fetchAdd t =>
    simp only [ActiveOp.step] at hs
    split at hs
    · rename_i stored hpc
      -- whoever loaded the sentinel is not here, and whoever loaded the count before it is in time
      have hnot : s.stored = false := by
        cases stored
        · simpa [inTime, hpc] using htime
        · exact absurd hpc (h.checked t)
      split at hs <;> cases hs
      · exact ⟨by simp [State.goto, hnot], hchecked t .idle (by simp), by simp [h.noneLate, hnot]⟩
      · exact ⟨by simp [State.goto, hnot], hchecked t .store (by simp), h.noneLate⟩
    · cases hs
  | exchange t spurious =>
    simp only [ActiveOp.step] at hs
    split at hs
    · split_ifs at hs with h0 hres hcas <;> cases hs
      · exact h.goto (by simp)
      · exact h.goto (by simp)
      · -- the value read is below the threshold, so it is not the sentinel
        refine ⟨fun hst => absurd (h.inPlace hst) ?_, hchecked t .idle (by simp), h.noneLate⟩
        simp only [Bool.and_eq_true, decide_eq_true_eq] at hcas
        rw [hcas.1]
        rintro rfl
        exact hres (by decide)
      · exact h.goto (by simp)
    · cases hs

/-- **The sentinel stays** in every run without late additions: once it is stored, the count is never below the reserved
threshold, no `try_begin` has succeeded since, and the load of the next one refuses it. No other run will do: an
addition in such a state brings the count below the threshold. -/
theorem sentinel_stays {s : State T} (h : Reachable (guarded inTime step) init s) (hst : s.stored = true) :
    (reservedThreshold ≤ s.activeOps ∧ s.beganLate = false) ∧
    (∀ t s', step s (.loadBegin t) = some s' → s'.pc t = .store) ∧
    ∀ t s', step s (.fetchAdd t) = some s' → s'.activeOps < reservedThreshold := by
  have hi : Inv s := h.induction ⟨by simp [init], by simp [init], rfl⟩ fun _ _ _ hi hs => hi.step hs
  have hplace := hi.inPlace hst
  refine ⟨⟨?_, hi.noneLate⟩, fun t s' => hi.refuses hst, fun t s' hs => ?_⟩
  · rw [hplace]
    decide
  · simp only [step] at hs
    split at hs
    · have hlimit : ¬ busySentinel < beginLimit := by decide
      rw [hplace, if_neg hlimit] at hs
      cases hs
      show (busySentinel + 1) % 2 ^ 64 < reservedThreshold
      decide
    · cases hs

/-! ## Up to the limit -/

/-- `n` operations have begun and none has ended. -/
def begun (n : Nat) : State T := { init with activeOps := n }

theorem begun_reachable (t : T) : ∀ n ≤ beginLimit, Reachable (guarded inTime step) init (begun n : State T)
  | 0, _ => Reachable.refl _
  | n + 1, hn => by
    have hfit : n + 1 < 18446744073709551616 := hn.trans_lt (by decide)
    have hload : guarded inTime step (begun n) (.loadBegin t) = some ((begun n).goto t (.add false)) := by
      simp [guarded, inTime, step, begun, init, Nat.not_le.mpr hn]
    refine ((begun_reachable t n (Nat.le_of_lt hn)).tail hload).tail (a := .fetchAdd t) ?_
    simp [guarded, inTime, step, begun, init, State.goto, Nat.lt_of_succ_le hn, hfit]

/-- The first thread stores the sentinel, the second is refused. -/
theorem sentinel_stays_at_limit : ∃ s s' : State Nat, s.stored = true ∧ reservedThreshold ≤ s.activeOps ∧
    s.beganLate = false ∧ step s (.loadBegin 1) = some s' ∧ s'.pc 1 = .store := by
  obtain ⟨s, ⟨as, has⟩, hs⟩ := exists_reachable (guarded inTime step) (begun beginLimit : State Nat)
    (fun s => (s.stored, s.pc 1)) (b := (true, .idle)) [.loadBegin 0, .storeSentinel 0] (by decide +kernel)
  obtain ⟨hst, hidle⟩ := Prod.mk.inj hs
  obtain ⟨bs, hbs⟩ := begun_reachable 0 beginLimit le_rfl
  obtain ⟨⟨hcount, hlate⟩, hrefused, -⟩ := sentinel_stays ⟨bs ++ as, run_append.mpr ⟨_, hbs, has⟩⟩ hst
  have hload : step s (.loadBegin 1) = some _ := if_pos hidle
  exact ⟨s, _, hst, hcount, hlate, hload, hrefused 1 _ hload⟩

/-- One thread below the limit has loaded the count, a second brings it to the limit, a third stores the sentinel. The
addition of the first makes the count zero, and a fourth begins an operation. -/
theorem late_add_clears_sentinel : ∃ s : State Nat, Reachable step init s ∧ s.stored = true ∧
    s.activeOps < reservedThreshold ∧ s.beganLate = true := by
  obtain ⟨s, ⟨as, has⟩, hs⟩ := exists_reachable step (begun (beginLimit - 1) : State Nat)
    (fun s => (s.stored, decide (s.activeOps < reservedThreshold), s.beganLate)) (b := (true, true, true))
    [.loadBegin 0, .loadBegin 1, .fetchAdd 1, .loadBegin 2, .storeSentinel 2, .fetchAdd 0, .loadBegin 3, .fetchAdd 3]
    (by decide +kernel)
  have hreach : Reachable step init (begun (beginLimit - 1) : State Nat) :=
    (begun_reachable 0 _ (Nat.sub_le _ _)).induction (Reachable.refl _)
      fun _ _ _ hi h => hi.tail (guarded_some.mp h).2
  obtain ⟨bs, hbs⟩ := hreach
  simp only [Prod.mk.injEq, decide_eq_true_eq] at hs
  exact ⟨s, ⟨bs ++ as, run_append.mpr ⟨_, hbs, has⟩⟩, hs⟩

end Llam.PublicSlot.ActiveOp
