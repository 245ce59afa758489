import Llam.Structured.Drain

/-!
# Scope accounting

The contract of a scope, in every state that any interleaving of calls, tasks and failures can reach
(`scope_accounting`): its counters add up, its state only goes forward, a drained scope is final, an admitted drain
succeeds exactly when it finds the scope drained, and a task is counted in the step that makes its future ready.
-/

namespace Llam.Structured

open Llam.Lib

variable {V F S T : Type} [DecidableEq V] [DecidableEq F] [DecidableEq S] [DecidableEq T]
  {s s' : State V F S T} {st st' : Store V F S T} {t : T} {m : Section V F S} {sc : S} {x : Scope}

/-! ## Reports along a run -/

theorem taskSetOutcome_keeps {f : F} {kind : Kind} {hd : Option (Handle V)} {n : Nat}
    (h : taskSetOutcome st f kind hd t n = .ok st') : Keeps st st' := by
  unfold taskSetOutcome at h
  split at h
  · cases h
  rename_i y hy
  split at h
  · cases h
  split at h
  · cases h
    refine .setFuture _ fun z hz => ?_
    cases hy.symm.trans hz
    rfl
  split at h
  · cases h
  rename_i st'' w htake
  cases h
  rcases valueTake_ok htake with ⟨-, rfl⟩ | ⟨v, x, -, hx, -, -, rfl⟩
  · refine .setFuture _ fun z hz => ?_
    cases hy.symm.trans hz
    rfl
  · refine ((Keeps.setObject (.value v) _).consumes _ _ _ _).trans (.setFuture _ fun z hz => ?_)
    cases hy.symm.trans hz
    rfl

theorem begin_keeps {r : Ref V F S} {g : Nat} (h : st.begin r g = .ok st') : Keeps st st' := by
  unfold Store.begin at h
  (repeat' split at h) <;> cases h
  exact .setObject _ _

theorem firstSection_keeps {c : Call V F S} {env : Env F T} {th : Thread V F S} {todo : List (Section V F S)}
    {error : Option Errno} (h : firstSection st t th c env = some (st', todo, error)) : Keeps st st' := by
  cases firstSection_begins h with
  | refused e => exact .refl st
  | newValue type hv => exact .setValue _ _
  | newScope hsc =>
    refine .setScope fun z hz => ?_
    rw [hsc] at hz
    cases hz
  | outcome hf hset => exact taskSetOutcome_keeps hset
  | target m error htarget hbegin hm => exact begin_keeps hbegin

theorem step_moved {a : Action V F S T} (h : Inv s) (hstep : step s a = some s') : Moved s.store s'.store := by
  cases a with
  | call t c env =>
    simp only [step] at hstep
    split at hstep
    · cases hstep
    split at hstep
    · cases hstep
    rename_i st todo error hfirst
    cases hstep
    exact (firstSection_keeps hfirst).moved
  | run t env =>
    simp only [step] at hstep
    split at hstep
    · cases hstep
    rename_i m rest htodo
    split at hstep
    · cases hstep
    · cases hstep
      exact (Keeps.refl _).moved
    rename_i e hexec
    rw [(resume_store hstep).1]
    exact exec_moved h htodo hexec
  | exit t returned =>
    simp only [step] at hstep
    split at hstep <;> cases hstep
    exact (Keeps.refl _).moved

theorem run_moves {as : List (Action V F S T)} (h : Inv s) (hrun : run step s as = some s') (hx : s.store.scopes sc = some x) :
    ∃ x', s'.store.scopes sc = some x' ∧ x.report.Moves x'.report := by
  have hmoves : ∀ r, s.store.report sc = some r → ∃ r', s'.store.report sc = some r' ∧ r.Moves r' := by
    refine run_trans (I := Inv)
      (R := fun s s' => ∀ r, s.store.report sc = some r → ∃ r', s'.store.report sc = some r' ∧ r.Moves r')
      (fun _ r hr => ⟨r, hr, .refl r⟩) (fun s s₁ s₂ h₁ h₂ r hr => ?_) (fun _ _ _ hs hstep => step_inv hs hstep)
      (fun s a s' hs hstep r hr => ?_) h hrun
    · obtain ⟨r₁, hr₁, hm₁⟩ := h₁ r hr
      obtain ⟨r₂, hr₂, hm₂⟩ := h₂ r₁ hr₁
      exact ⟨r₂, hr₂, hm₁.trans hm₂⟩
    · obtain ⟨r', hr', hm, -⟩ := (step_moved hs hstep).report sc r hr
      exact ⟨r', hr', hm⟩
  obtain ⟨r', hr', hm⟩ := hmoves x.report (by rw [Store.report, hx]; rfl)
  obtain ⟨x', hx', rfl⟩ := Option.map_eq_some_iff.mp hr'
  exact ⟨x', hx', hm⟩

/-! ## Running drains -/

theorem Section.draining_mem (m : Section V F S) (sc : S) : .draining sc ∈ m.accounts ↔ m.inDrain = some sc := by
  cases m with
  | requestCheck u after | requestToken u after | requestDone u after =>
    cases after <;> simp [After.drainOf, Section.inDrain, eq_comm]
  | finishSpawn u f failed => cases failed <;> simp [Section.inDrain]
  | _ => simp [Section.inDrain, eq_comm]

theorem Inv.draining_iff (h : Inv s) (hx : s.store.scopes sc = some x) :
    x.draining = true ↔ ∃ t, ∃ m ∈ (s.threads t).todo, m.inDrain = some sc := by
  have htotal : s.store.total (.draining sc) = flag x.draining := by
    rw [Store.total_scope rfl, hx]
    simp [Scope.books, Object.books, entry]
  have htask (c : Option (F × S)) : .draining sc ∉ (taskAccounts c : List (Account V F S)) := by
    cases c <;> simp [taskAccounts]
  rw [h.balanced.flag_iff htotal htask]
  simp only [Section.draining_mem]

theorem beginDrain_admits {cancel : Bool} {rest : List (Section V F S)} {env : Env F T} (h : Inv s)
    (hdrains : (s.threads t).Drains) (hx : s.store.scopes sc = some x)
    (htodo : (s.threads t).todo = .beginDrain sc cancel :: rest) (hstep : step s (.run t env) = some s') :
    (∃ m ∈ (s'.threads t).todo, m.inDrain = some sc) ↔
      x.draining = false ∧ ¬ ∃ f, (s.threads t).completion = some (f, sc) := by
  have hnil : rest = [] := hdrains.top htodo rfl
  have hown : ((s.threads t).completion.any fun c => c.2 = sc) = false ↔
      ¬ ∃ f, (s.threads t).completion = some (f, sc) := by
    cases hc : (s.threads t).completion with
    | none => simp
    | some c =>
      obtain ⟨f, u⟩ := c
      simp
  simp only [step, htodo] at hstep
  split at hstep
  · cases hstep
  · rename_i haborted
    exact absurd haborted (exec_runs env h htodo).1
  rename_i e hexec
  rcases resume_threads hstep t with ⟨-, hu⟩ | ⟨f, u, -, hunused, -⟩ | ⟨hne, -⟩
  · rw [hu, Thread.proceed_todo, hnil, List.append_nil, ← hown]
    exact scopeBeginDrain_admits hx hexec
  · obtain ⟨-, hempty, -⟩ := Thread.unused_iff.mp hunused
    rw [htodo] at hempty
    cases hempty
  · exact absurd rfl hne

/-! ## The contract -/

/-- The contract of a scope whose record is `x`. -/
structure ScopeAccounts (s : State V F S T) (sc : S) (x : Scope) : Prop where
  /-- the counters add up -/
  admitted : x.report.admittedTasks = x.report.pendingTasks + x.report.succeeded + x.report.applicationErrors +
    x.report.cancelled + x.report.runtimeErrors
  /-- a scope is closing as long as something is outstanding, and then it is drained -/
  closing : x.report.state = .CLOSING → 0 < x.report.pendingTasks ∨ 0 < x.report.activeSpawns
  drained : x.report.state = .DRAINED → x.report.pendingTasks = 0 ∧ x.report.activeSpawns = 0
  /-- whatever happens, the state goes from `OPEN` to `CLOSING` to `DRAINED`, no counter of a drained scope changes, and
  nothing is admitted to a scope that is not open -/
  moves : ∀ as s', run step s as = some s' → ∃ x', s'.store.scopes sc = some x' ∧
    Relation.ReflTransGen ScopeState.Next x.report.state x'.report.state ∧
    (x.report.state = .DRAINED → x'.report.counters = x.report.counters) ∧
    (x.report.state ≠ .OPEN → x'.report.admittedTasks ≤ x.report.admittedTasks)
  /-- the flag says that a drain runs, and a drain is admitted if none does and its caller is not a task of the scope -/
  draining : x.draining = true ↔ ∃ t, ∃ m ∈ (s.threads t).todo, m.inDrain = some sc
  admits : ∀ t cancel rest env s', (s.threads t).todo = .beginDrain sc cancel :: rest → step s (.run t env) = some s' →
    ((∃ m ∈ (s'.threads t).todo, m.inDrain = some sc) ↔
      x.draining = false ∧ ¬ ∃ f, (s.threads t).completion = some (f, sc))
  /-- a drain that was admitted returns what it finds when it finishes -/
  drain : ∀ t as s', (∃ m ∈ (s.threads t).todo, m.inDrain = some sc) → run step s as = some s' →
    (s'.threads t).calls = (s.threads t).calls → (s'.threads t).todo = [] → DrainResult s s' t sc as
  /-- a task is counted in the step in which its future becomes ready -/
  counted : ∀ a s' x', step s a = some s' → s'.store.scopes sc = some x' → x'.report.count ≠ x.report.count →
    ∃ f, Counted s.store s'.store sc f
  ready : ∀ a s' f y, step s a = some s' → s.store.futures f = some y → y.ready = false →
    s'.store.ready f = some true → ∃ u, Counted s.store s'.store u f

theorem scope_accounting {alive : T → Bool} (h : Reachable step (State.init alive) s) (hx : s.store.scopes sc = some x) :
    ScopeAccounts s sc x := by
  have hinv := reachable_inv h
  have hdrains := reachable_drains h
  have hok := (hinv.records.scopes sc x hx).report
  refine {
    admitted := hok.admitted
    closing := hok.closing
    drained := hok.drained
    moves := fun as s' hrun => ?_
    draining := hinv.draining_iff hx
    admits := fun t cancel rest env s' htodo hstep => ?_
    drain := fun t as s' hin hrun hcalls htodo => drain_returns hinv hdrains rfl hin hrun hcalls htodo
    counted := fun a s' x' hstep hx' hcount => ?_
    ready := fun a s' f y hstep hy hready hready' => ?_ }
  · obtain ⟨x', hx', hmoves⟩ := run_moves hinv hrun hx
    exact ⟨x', hx', hmoves.state, hmoves.drained, hmoves.admitted⟩
  · exact beginDrain_admits hinv (hdrains t) hx htodo hstep
  · obtain ⟨r', hr', -, hsame | hdone⟩ := (step_moved hinv hstep).report sc x.report (by rw [Store.report, hx]; rfl)
    · rw [Store.report, hx'] at hr'
      cases hr'
      exact absurd hsame hcount
    · exact hdone
  · rcases (step_moved hinv hstep).ready f false (by rw [Store.ready, hy, Option.map_some, hready]) with hsame | hdone
    · rw [hready'] at hsame
      cases hsame
    · exact hdone

theorem scope_accounting_drained : ∃ (s : State Unit Unit Unit Bool) (x : Scope),
    Reachable step (State.init (· = false)) s ∧ s.store.scopes () = some x ∧ x.report.state = .DRAINED ∧
      x.report.succeeded = 1 ∧ (s.threads false).last = some (.scopeDrain ((), 1) false, none) ∧ ScopeAccounts s () x := by
  let env : Env Unit Bool := ⟨none, some (), some true, false, none⟩
  let unit : Contract := ⟨.unit, .unit⟩
  obtain ⟨s, hs, hfacts⟩ := exists_reachable step (State.init (· = false) : State Unit Unit Unit Bool)
    (fun s => ((s.store.scopes ()).map fun x => (x.report.state, x.report.succeeded), (s.threads false).last))
    (b := (some (.DRAINED, 1), some (.scopeDrain ((), 1) false, none)))
    ([.call false (.scopeCreate ()) env, .call false (.scopeSpawn ((), 1) none unit) env] ++
      List.replicate 8 (.run false env) ++ [.exit true true] ++ List.replicate 7 (.run true env) ++
      [.call false (.scopeDrain ((), 1) false) env] ++ List.replicate 4 (.run false env)) (by decide)
  obtain ⟨hscope, hlast⟩ := Prod.mk.inj hfacts
  obtain ⟨x, hx, hreport⟩ := Option.map_eq_some_iff.mp hscope
  obtain ⟨hstate, hcount⟩ := Prod.mk.inj hreport
  exact ⟨s, x, hs, hx, hstate, hcount, hlast, scope_accounting hs hx⟩

end Llam.Structured
