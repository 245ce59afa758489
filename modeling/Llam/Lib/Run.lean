import Mathlib

/-!
# Runs of a partial step function

A system is a function `step : σ → α → Option σ`: `α` names the atomic actions (the choice of the scheduler, of the
environment and of every input), and `step s a = none` says that `a` is not enabled in `s`. A run is a list of actions
(`run`). An invariant is proved for one step and then holds along every run (`run_induction`); `run_trans` is the same
for a relation between the two ends of a run, and `guarded` restricts a system to the steps that meet a condition.
-/

namespace Llam.Lib

universe u v

section Runs

variable {σ : Type u} {α : Type v} {step : σ → α → Option σ}

/-- Perform the actions one after another; `none` as soon as one of them is not enabled. -/
def run (step : σ → α → Option σ) : σ → List α → Option σ
  | s, [] => some s
  | s, a :: as => (step s a).bind fun s' => run step s' as

@[simp] theorem run_nil (s : σ) : run step s [] = some s := rfl

variable {s s' : σ} {a : α} {I : σ → Prop}

theorem run_cons {as : List α} : run step s (a :: as) = some s' ↔ ∃ t, step s a = some t ∧ run step t as = some s' := by
  simp [run, Option.bind_eq_some_iff]

theorem run_append {as bs : List α} :
    run step s (as ++ bs) = some s' ↔ ∃ t, run step s as = some t ∧ run step t bs = some s' := by
  induction as generalizing s with
  | nil => simp
  | cons a as ih =>
    simp only [List.cons_append, run_cons, ih]
    constructor
    · rintro ⟨u, hu, t, ht, hs'⟩
      exact ⟨t, ⟨u, hu, ht⟩, hs'⟩
    · rintro ⟨t, ⟨u, hu, ht⟩, hs'⟩
      exact ⟨u, hu, t, ht, hs'⟩

/-- **Invariants**: what one step preserves, every run preserves. -/
theorem run_induction (hstep : ∀ s a s', I s → step s a = some s' → I s') :
    ∀ {as : List α} {s s' : σ}, I s → run step s as = some s' → I s'
  | [], s, s', hi, h => by cases h; exact hi
  | a :: as, s, s', hi, h => by
    obtain ⟨t, ht, hr⟩ := run_cons.mp h
    exact run_induction hstep (hstep s a t hi ht) hr

/-- A reflexive and transitive relation that holds across every step from an invariant state holds across runs. -/
theorem run_trans {R : σ → σ → Prop} (hrefl : ∀ s, R s s) (htrans : ∀ s t u, R s t → R t u → R s u)
    (hinv : ∀ s a s', I s → step s a = some s' → I s') (hstep : ∀ s a s', I s → step s a = some s' → R s s') :
    ∀ {as : List α} {s s' : σ}, I s → run step s as = some s' → R s s'
  | [], s, s', _, h => by cases h; exact hrefl s
  | a :: as, s, s', hi, h => by
    obtain ⟨t, ht, hr⟩ := run_cons.mp h
    exact htrans s t s' (hstep s a t hi ht) (run_trans hrefl htrans hinv hstep (hinv s a t hi ht) hr)

/-- The states some run from `init` reaches. -/
def Reachable (step : σ → α → Option σ) (init s : σ) : Prop := ∃ as, run step init as = some s

theorem Reachable.refl (init : σ) : Reachable step init init := ⟨[], rfl⟩

theorem Reachable.tail {init : σ} (h : Reachable step init s) (ha : step s a = some s') : Reachable step init s' := by
  obtain ⟨as, has⟩ := h
  exact ⟨as ++ [a], run_append.mpr ⟨s, has, run_cons.mpr ⟨s', ha, rfl⟩⟩⟩

theorem Reachable.induction {init : σ} (h : Reachable step init s) (hinit : I init)
    (hstep : ∀ s a s', I s → step s a = some s' → I s') : I s := by
  obtain ⟨as, has⟩ := h
  exact run_induction hstep hinit has

/-- A run that is evaluated reaches a state, of which every computed fact holds. -/
theorem exists_reachable {β : Type v} (step : σ → α → Option σ) (init : σ) (f : σ → β) {b : β} (as : List α)
    (h : (run step init as).map f = some b) : ∃ s, Reachable step init s ∧ f s = b := by
  obtain ⟨s, hs, hf⟩ := Option.map_eq_some_iff.mp h
  exact ⟨s, ⟨as, hs⟩, hf⟩

/-- The system in which only the steps that meet `P` are taken. -/
def guarded (P : σ → α → Bool) (step : σ → α → Option σ) (s : σ) (a : α) : Option σ :=
  if P s a then step s a else none

theorem guarded_some {P : σ → α → Bool} : guarded P step s a = some s' ↔ P s a = true ∧ step s a = some s' := by
  unfold guarded
  split <;> simp_all

end Runs

end Llam.Lib
