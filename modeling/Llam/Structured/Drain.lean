import Llam.Structured.Reports

/-!
# Drains

The sections of a drain are the last thing on the stack of the thread that drains (`Thread.Drains`), so that the result it
finds when it finishes is the result of its call.
-/

namespace Llam.Structured

open Llam.Lib Function

variable {V F S T : Type} [DecidableEq V] [DecidableEq F] [DecidableEq S] [DecidableEq T]
  {s s' : State V F S T} {st : Store V F S T} {t : T} {m : Section V F S} {rest : List (Section V F S)}
  {e : Effect V F S T} {sc : S} {x : Scope}

def After.drainOf (sc : S) : After → Option S
  | .cancel _ => none
  | .drain _ => some sc

/-- The scope that a section drains. -/
def Section.drainOf : Section V F S → Option S
  | .requestCheck sc after => after.drainOf sc
  | .requestToken sc after => after.drainOf sc
  | .requestDone sc after => after.drainOf sc
  | .beginDrain sc _ => some sc
  | .drainWait sc => some sc
  | .finishDrain sc => some sc
  | _ => none

/-- What a section pushes goes on with its drain at the very end, and drains nothing else. -/
def Onward (m : Section V F S) (push : List (Section V F S)) : Prop :=
  (∀ m' ∈ push, m'.drainOf = none ∨ m'.drainOf = m.drainOf) ∧ ∀ m' ∈ push.dropLast, m'.drainOf = none

theorem Onward.of_none {push : List (Section V F S)} (h : ∀ m' ∈ push, m'.drainOf = none) : Onward m push :=
  ⟨fun m' hm' => .inl (h m' hm'), fun m' hm' => h m' (List.mem_of_mem_dropLast hm')⟩

theorem notification_drainOf (sc : S) (notify : Bool) :
    ∀ m' ∈ (notification sc notify : List (Section V F S)), m'.drainOf = none := by
  cases notify <;> simp [notification, Section.drainOf]

theorem releaseSlot_drainOf (v : Option V) : ∀ m' ∈ (releaseSlot v : List (Section V F S)), m'.drainOf = none := by
  cases v <;> simp [releaseSlot, Section.drainOf]

theorem Onward.notified {m' : Section V F S} (notify : Bool) (h : m'.drainOf = m.drainOf) :
    Onward m (notification sc notify ++ [m']) := by
  refine ⟨fun m'' hm'' => ?_, ?_⟩
  · rcases List.mem_append.mp hm'' with hm'' | hm''
    · exact .inl (notification_drainOf sc notify m'' hm'')
    · cases List.mem_singleton.mp hm''
      exact .inr h
  · rw [List.dropLast_concat]
    exact notification_drainOf sc notify

theorem Onward.one {m' : Section V F S} (h : m'.drainOf = m.drainOf) : Onward m [m'] := by
  refine ⟨fun m'' hm'' => ?_, nofun⟩
  cases List.mem_singleton.mp hm''
  exact .inr h

theorem disposal_drainOf (r : Ref V F S) (o : Object) : ∀ m' ∈ disposal r o, m'.drainOf = none := by
  cases r <;> simp only [disposal]
  case future f =>
    split <;> simp [Section.drainOf]
  all_goals simp

theorem drainNext_drainOf (ready : Bool) (error : Option Errno) :
    (drainNext sc ready error : Section V F S).drainOf = some sc := by
  unfold drainNext
  split <;> rfl

variable {env : Env F T} {th : Thread V F S} {error : Option Errno} {c : Call V F S} {a : Action V F S T}
  {as : List (Action V F S T)} {n : Nat}

theorem exec_onward (hexec : exec st t th env m = .done e) : Onward m e.push := by
  cases m with
  | endOp r =>
    simp only [exec, structuredEnd, dropRef] at hexec
    (repeat' split at hexec) <;> cases hexec
    exact .of_none (disposal_drainOf _ _)
  | release r =>
    simp only [exec, structuredRelease, dropRef] at hexec
    (repeat' split at hexec) <;> cases hexec
    exact .of_none (disposal_drainOf _ _)
  | requestCheck sc after =>
    simp only [exec, scopeRequestCheck] at hexec
    (repeat' split at hexec) <;> cases hexec <;> exact .one rfl
  | requestToken sc after =>
    simp only [exec, scopeRequestToken] at hexec
    (repeat' split at hexec) <;> cases hexec <;> exact .one rfl
  | requestDone sc after =>
    rw [exec, scopeRequestDone] at hexec
    split at hexec
    · cases hexec
    cases after with
    | cancel notify =>
      cases hexec
      exact .notified notify rfl
    | drain ready =>
      cases hexec
      exact .one (drainNext_drainOf _ _)
  | beginDrain sc cancel =>
    rw [exec, scopeBeginDrain] at hexec
    split at hexec
    · cases hexec
    split at hexec
    · cases hexec
      exact .of_none (by simp [Section.drainOf])
    split at hexec
    · cases hexec
      exact .of_none (by simp [Section.drainOf])
    cases hexec
    cases cancel with
    | true => exact .notified _ rfl
    | false => exact .notified _ (drainNext_drainOf _ _)
  | drainWait sc =>
    simp only [exec, scopeCleanupWait] at hexec
    (repeat' split at hexec) <;> cases hexec
    exact .one rfl
  | finishSpawn sc f failed =>
    rw [exec, scopeFinishSpawn] at hexec
    split at hexec
    · cases hexec
    cases hexec
    refine .of_none (List.forall_mem_append.mpr ⟨notification_drainOf _ _, ?_⟩)
    cases failed <;> simp [Section.drainOf]
  | releaseInputs sc f =>
    rw [exec, scopedReleaseInputs] at hexec
    split at hexec <;> cases hexec
    refine .of_none (List.forall_mem_append.mpr ⟨List.forall_mem_append.mpr ⟨?_, ?_⟩, by simp [Section.drainOf]⟩)
    · exact releaseSlot_drainOf _
    · exact releaseSlot_drainOf _
  | publish sc f =>
    simp only [exec, scopedPublish] at hexec
    (repeat' split at hexec) <;> cases hexec
    · exact .of_none (by simp [Section.drainOf])
    · refine .of_none (List.forall_mem_append.mpr ⟨List.forall_mem_cons.mpr ⟨rfl, notification_drainOf _ _⟩, ?_⟩)
      simp [Section.drainOf]
  | _ =>
    simp only [exec, structuredConsume, futureFreeArgument, futureFreeResult, valueData, futureAwaitReady, futureAwaitDone,
      futureAwaitCheck, futureTake, scopeDestroy, scopeCancel, notifyScope, scopeFinishDrain, scopeSpawnCheck, futurePrepare,
      scopeReserveSpawn, spawnScoped, valueCommitClaim, announceFuture, valueRollbackClaim, scopeRollbackSpawn,
      scopeSpawnDiscard, scopedEntryReturned, scopedPrepareRetire, notifyFuture] at hexec
    (repeat' split at hexec) <;> cases hexec <;> exact .of_none (by simp [Section.drainOf, After.drainOf])

/-! ## The stack of a drain -/

/-- A thread drains only in a call for it, and as the last thing it does. -/
structure Thread.Drains (th : Thread V F S) : Prop where
  last : ∀ m ∈ th.todo.dropLast, m.drainOf = none
  call : ∀ m ∈ th.todo, ∀ sc, m.drainOf = some sc → ∃ g cancel, th.call = some (.scopeDrain (sc, g) cancel)

theorem Thread.Drains.top (h : th.Drains) (htodo : th.todo = m :: rest) (hm : m.drainOf = some sc) : rest = [] := by
  by_contra hrest
  have hlast := h.last m (by rw [htodo, List.dropLast_cons_of_ne_nil hrest]; exact List.mem_cons_self)
  rw [hm] at hlast
  cases hlast

theorem Thread.Drains.resume {push : List (Section V F S)} (h : th.Drains)
    (htodo : th.todo = m :: rest) (hpush : Onward m push) : (th.proceed (push ++ rest) error).Drains := by
  have hmem : ∀ m' ∈ rest, m' ∈ th.todo := fun m' hm' => htodo ▸ List.mem_cons_of_mem m hm'
  refine ⟨fun m' hm' => ?_, fun m' hm' sc hsc => ?_⟩
  · rw [Thread.proceed_todo] at hm'
    cases hrest : rest with
    | nil =>
      rw [hrest, List.append_nil] at hm'
      exact hpush.2 m' hm'
    | cons m₂ rest' =>
      have hne : rest ≠ [] := by rw [hrest]; exact nofun
      have hlast := h.last
      rw [htodo, List.dropLast_cons_of_ne_nil hne] at hlast
      rw [List.dropLast_append_of_ne_nil hne] at hm'
      rcases List.mem_append.mp hm' with hm' | hm'
      · rcases hpush.1 m' hm' with hnone | hsame
        · exact hnone
        · exact hsame.trans (hlast m List.mem_cons_self)
      · exact hlast m' (List.mem_cons_of_mem m hm')
  · rw [Thread.proceed_todo] at hm'
    have hcall : (th.proceed (push ++ rest) error).call = th.call := by
      cases hall : push ++ rest with
      | nil =>
        rw [hall] at hm'
        cases hm'
      | cons m₂ l => rfl
    rw [hcall]
    rcases List.mem_append.mp hm' with hm' | hm'
    · rcases hpush.1 m' hm' with hnone | hsame
      · rw [hsc] at hnone
        cases hnone
      · exact h.call m (htodo ▸ List.mem_cons_self) sc (hsame ▸ hsc)
    · exact h.call m' (hmem m' hm') sc hsc

theorem firstSection_drains {todo : List (Section V F S)} {st' : Store V F S T} (hfirst : firstSection st t (th.enter c) c env = some (st', todo, error)) :
    ((th.enter c).proceed todo error).Drains := by
  have none_ : ((th.enter c).proceed [] error).Drains := ⟨by simp, by simp⟩
  have one (m : Section V F S) (hm : ∀ sc, m.drainOf = some sc → ∃ g cancel, c = .scopeDrain (sc, g) cancel) :
      ((th.enter c).proceed [m] error).Drains := by
    refine ⟨by simp, fun m' hm' sc hsc => ?_⟩
    cases List.mem_singleton.mp hm'
    obtain ⟨g, cancel, rfl⟩ := hm sc hsc
    exact ⟨g, cancel, rfl⟩
  cases firstSection_begins hfirst with
  | target m error htarget hbegin hm =>
    refine one m fun sc hsc => ?_
    rcases hm with rfl | rfl
    · cases hsc
    · cases c <;> cases htarget <;> cases hsc
      exact ⟨_, _, rfl⟩
  | _ => exact none_

/-- What a step does to one thread. -/
inductive ThreadStep (s : State V F S T) (t : T) (a : Action V F S T) : Thread V F S → Prop
  | same : ThreadStep s t a (s.threads t)
  | launched (f : F) (sc : S) (hunused : (s.threads t).unused = true) : ThreadStep s t a ((s.threads t).launch f sc)
  | called (c : Call V F S) (env : Env F T) (st : Store V F S T) (todo : List (Section V F S)) (error : Option Errno)
      (htodo : (s.threads t).todo = [])
      (hfirst : firstSection s.store t ((s.threads t).enter c) c env = some (st, todo, error)) :
      ThreadStep s t a (((s.threads t).enter c).proceed todo error)
  | ran (env : Env F T) (m : Section V F S) (rest : List (Section V F S)) (e : Effect V F S T)
      (ha : a = .run t env) (htodo : (s.threads t).todo = m :: rest)
      (hexec : exec s.store t (s.threads t) env m = .done e) : ThreadStep s t a ((s.threads t).proceed (e.push ++ rest) e.error)
  | exited (m : Section V F S) (htodo : (s.threads t).todo = []) (hm : m.drainOf = none) :
      ThreadStep s t a { s.threads t with alive := false, completion := none, todo := [m] }

theorem step_thread (hstep : step s a = some s') (t : T) : ThreadStep s t a (s'.threads t) := by
  cases a with
  | call u c env =>
    simp only [step] at hstep
    split at hstep
    · cases hstep
    rename_i hidle
    split at hstep
    · cases hstep
    rename_i st todo error hfirst
    cases hstep
    show ThreadStep s t _ (update s.threads u _ t)
    rcases eq_or_ne t u with rfl | hne
    · rw [update_self]
      refine .called c env st todo error ?_ hfirst
      rw [Bool.or_eq_true, not_or] at hidle
      simpa using hidle.2
    · rw [update_of_ne hne]
      exact .same
  | run u env =>
    simp only [step] at hstep
    split at hstep
    · cases hstep
    rename_i m rest htodo
    split at hstep
    · cases hstep
    · cases hstep
      exact .same
    rename_i e hexec
    rcases resume_threads hstep t with ⟨rfl, hu⟩ | ⟨f, sc, -, hunused, hu⟩ | ⟨-, hu⟩
    · rw [hu]
      exact .ran env m rest e rfl htodo hexec
    · rw [hu]
      exact .launched f sc hunused
    · rw [hu]
      exact .same
  | exit u returned =>
    simp only [step] at hstep
    split at hstep
    · rename_i f sc _ htodo _
      cases hstep
      show ThreadStep s t _ (update s.threads u _ t)
      rcases eq_or_ne t u with rfl | hne
      · rw [update_self]
        refine .exited _ htodo ?_
        cases returned <;> rfl
      · rw [update_of_ne hne]
        exact .same
    · cases hstep

theorem step_drains (h : ∀ t, (s.threads t).Drains) (hstep : step s a = some s') (t : T) : (s'.threads t).Drains := by
  generalize s'.threads t = th, step_thread hstep t = hth
  cases hth with
  | same => exact h t
  | launched f sc hunused => exact ⟨(h t).last, (h t).call⟩
  | called c env st todo error htodo hfirst => exact firstSection_drains hfirst
  | ran env m rest e ha htodo hexec => exact (h t).resume htodo (exec_onward hexec)
  | exited m htodo hm =>
    refine ⟨nofun, fun m' hm' sc hsc => ?_⟩
    cases List.mem_singleton.mp hm'
    rw [hm] at hsc
    cases hsc

theorem reachable_drains {alive : T → Bool} (h : Reachable step (State.init alive) s) : ∀ t, (s.threads t).Drains :=
  h.induction (I := fun s => ∀ t, (s.threads t).Drains) (fun _ => ⟨nofun, nofun⟩) fun _ _ _ hs hstep =>
    step_drains hs hstep

/-! ## The result of a drain -/

theorem step_calls (hstep : step s a = some s') (t : T) : (s.threads t).calls ≤ (s'.threads t).calls := by
  generalize s'.threads t = th, step_thread hstep t = hth
  cases hth with
  | same | launched f sc hunused | exited m htodo hm => exact Nat.le_refl _
  | called c env st todo error htodo hfirst =>
    rw [Thread.proceed_calls]
    exact Nat.le_succ _
  | ran env m rest e ha htodo hexec => rw [Thread.proceed_calls]

theorem run_calls (hrun : run step s as = some s') (t : T) : (s.threads t).calls ≤ (s'.threads t).calls :=
  run_trans (I := fun _ => True) (R := fun s s' => (s.threads t).calls ≤ (s'.threads t).calls) (fun _ => Nat.le_refl _)
    (fun _ _ _ => Nat.le_trans) (fun _ _ _ _ _ => trivial) (fun _ _ _ _ hstep => step_calls hstep t) trivial hrun

/-- The `n`th call of a thread has its result: it ends its last operation, or it has returned. -/
structure Decided (sc : S) (n : Nat) (c : Call V F S) (e : Option Errno) (th : Thread V F S) : Prop where
  calls : th.calls = n
  result : (th.todo = [.endOp (.scope sc)] ∧ th.call = some c ∧ th.error = e) ∨ (th.call = none ∧ th.last = some (c, e))

theorem structuredEnd_scope (h : structuredEnd st (.scope sc) error = .done e) : e.push = [] ∧ e.error = error := by
  unfold structuredEnd dropRef at h
  (repeat' split at h) <;> cases h
  exact ⟨rfl, rfl⟩

theorem Decided.proceed {e : Option Errno} {todo : List (Section V F S)} (hcalls : th.calls = n) (hcall : th.call = none) (hlast : th.last = some (c, e)) :
    Decided sc n c e (th.proceed todo error) := by
  refine ⟨by rw [Thread.proceed_calls, hcalls], .inr ?_⟩
  cases todo with
  | nil => exact ⟨rfl, by simp [Thread.proceed, hcall, hlast]⟩
  | cons m todo => exact ⟨hcall, hlast⟩

theorem step_decided {e : Option Errno} (h : Decided sc n c e (s.threads t))
    (hstep : step s a = some s') (hn : (s'.threads t).calls = n) : Decided sc n c e (s'.threads t) := by
  revert hn
  generalize s'.threads t = th, step_thread hstep t = hth
  intro hn
  cases hth with
  | same => exact h
  | launched f sc' hunused => exact ⟨h.calls, h.result⟩
  | called c' env st todo error htodo hfirst =>
    -- the next call has the next number
    have hcalls := h.calls
    rw [Thread.proceed_calls] at hn
    have hnext : (s.threads t).calls + 1 = n := hn
    omega
  | ran env m rest eff ha htodo hexec =>
    rcases h.result with ⟨htop, hcall, herror⟩ | ⟨hcall, hlast⟩
    · rw [htop] at htodo
      cases htodo
      obtain ⟨hpush, herr⟩ := structuredEnd_scope hexec
      refine ⟨hn, .inr ?_⟩
      rw [hpush, herr, herror]
      exact ⟨rfl, by simp [Thread.proceed, hcall]⟩
    · exact .proceed h.calls hcall hlast
  | exited m htodo hm =>
    refine ⟨h.calls, .inr ?_⟩
    rcases h.result with ⟨htop, -, -⟩ | hdone
    · rw [htop] at htodo
      cases htodo
    · exact hdone

theorem run_decided {e : Option Errno}
    (h : Decided sc n c e (s.threads t)) (hrun : run step s as = some s') (hn : (s'.threads t).calls = n) :
    Decided sc n c e (s'.threads t) := by
  induction as generalizing s with
  | nil =>
    cases hrun
    exact h
  | cons a as ih =>
    obtain ⟨s₁, hstep, hrest⟩ := run_cons.mp hrun
    have hlow := step_calls hstep t
    have hhigh := run_calls hrest t
    have hcalls := h.calls
    exact ih (step_decided h hstep (by omega)) hrest

/-! ## From the admission to the result -/

/-- The scope of the drain that a section belongs to, after the drain was admitted. -/
def Section.inDrain : Section V F S → Option S
  | .requestCheck sc after => after.drainOf sc
  | .requestToken sc after => after.drainOf sc
  | .requestDone sc after => after.drainOf sc
  | .drainWait sc => some sc
  | .finishDrain sc => some sc
  | _ => none

theorem Section.drainOf_of_inDrain (h : m.inDrain = some sc) : m.drainOf = some sc := by
  cases m <;> first | exact h | cases h

theorem drainNext_inDrain (ready : Bool) (error : Option Errno) :
    (drainNext sc ready error : Section V F S).inDrain = some sc := by
  unfold drainNext
  split <;> rfl

theorem exec_inDrain (hm : m.inDrain = some sc) (hne : m ≠ .finishDrain sc)
    (hexec : exec st t th env m = .done e) : ∃ m' ∈ e.push, m'.inDrain = some sc := by
  cases m with
  | requestCheck u after =>
    simp only [exec, scopeRequestCheck] at hexec
    (repeat' split at hexec) <;> cases hexec <;> exact ⟨_, List.mem_singleton_self _, hm⟩
  | requestToken u after =>
    simp only [exec, scopeRequestToken] at hexec
    (repeat' split at hexec) <;> cases hexec <;> exact ⟨_, List.mem_singleton_self _, hm⟩
  | requestDone u after =>
    rw [exec, scopeRequestDone] at hexec
    split at hexec
    · cases hexec
    cases after with
    | cancel notify => cases hm
    | drain ready =>
      cases hm
      cases hexec
      exact ⟨_, List.mem_singleton_self _, drainNext_inDrain _ _⟩
  | drainWait u =>
    simp only [exec, scopeCleanupWait] at hexec
    (repeat' split at hexec) <;> cases hexec
    exact ⟨_, List.mem_singleton_self _, hm⟩
  | finishDrain u =>
    cases hm
    exact absurd rfl hne
  | _ => cases hm

theorem scopeBeginDrain_admits {cancel own : Bool} (hx : st.scopes sc = some x)
    (hexec : scopeBeginDrain st sc cancel own = .done e) :
    (∃ m' ∈ e.push, m'.inDrain = some sc) ↔ x.draining = false ∧ own = false := by
  simp only [scopeBeginDrain, hx] at hexec
  split at hexec
  · rename_i hdraining
    cases hexec
    simp [hdraining, Section.inDrain]
  rename_i hdraining
  split at hexec
  · rename_i hown
    cases hexec
    simp [hown, Section.inDrain]
  rename_i hown
  cases hexec
  refine ⟨fun _ => ⟨by simpa using hdraining, by simpa using hown⟩, fun _ => ?_⟩
  refine ⟨_, List.mem_append_right _ (List.mem_singleton_self _), ?_⟩
  cases cancel with
  | true => rfl
  | false => exact drainNext_inDrain _ _

theorem scopeFinishDrain_result (hx : st.scopes sc = some x) (hexec : scopeFinishDrain st sc error = .done e) :
    e.push = [.endOp (.scope sc)] ∧ (e.error = none ↔ x.report.state = .DRAINED) := by
  simp only [scopeFinishDrain, hx] at hexec
  cases hexec
  refine ⟨rfl, ?_⟩
  split <;> simp_all

/-- A drain that was admitted in `s` and has returned in `s'`: it has finished in between, with its result. -/
def DrainResult (s s' : State V F S T) (t : T) (sc : S) (as : List (Action V F S T)) : Prop :=
  ∃ pre env post s₁ x c e, as = pre ++ .run t env :: post ∧ run step s pre = some s₁ ∧
    (s₁.threads t).todo = [.finishDrain sc] ∧ s₁.store.scopes sc = some x ∧ (s'.threads t).last = some (c, e) ∧
      (e = none ↔ x.report.state = .DRAINED)

theorem drain_returns (h : Inv s) (hdrains : ∀ t, (s.threads t).Drains)
    (hcalls : (s.threads t).calls = n) (hin : ∃ m ∈ (s.threads t).todo, m.inDrain = some sc) (hrun : run step s as = some s')
    (hn : (s'.threads t).calls = n) (htodo : (s'.threads t).todo = []) : DrainResult s s' t sc as := by
  induction as generalizing s with
  | nil =>
    cases hrun
    obtain ⟨m, hm, -⟩ := hin
    rw [htodo] at hm
    cases hm
  | cons a as ih =>
    obtain ⟨s₁, hstep, hrest⟩ := run_cons.mp hrun
    have hlow := step_calls hstep t
    have hhigh := run_calls hrest t
    have hcalls₁ : (s₁.threads t).calls = n := by omega
    -- the drain goes on in `s₁`
    have later (hin₁ : ∃ m ∈ (s₁.threads t).todo, m.inDrain = some sc) : DrainResult s s' t sc (a :: as) := by
      obtain ⟨pre, env, post, s₂, x, c, e, rfl, hpre, hfacts⟩ :=
        ih (step_inv h hstep) (step_drains hdrains hstep) hcalls₁ hin₁ hrest
      exact ⟨a :: pre, env, post, s₂, x, c, e, rfl, run_cons.mpr ⟨s₁, hstep, hpre⟩, hfacts⟩
    obtain ⟨m, hm, hsc⟩ := hin
    have hthread := step_thread hstep t
    generalize hth : s₁.threads t = th at hthread later hcalls₁
    cases hthread with
    | same | launched f sc' hunused => exact later ⟨m, hm, hsc⟩
    | called c env st todo error hnil hfirst | exited m' hnil hm' =>
      rw [hnil] at hm
      cases hm
    | ran env top rest e ha htop hexec =>
      rw [Thread.proceed_todo] at later
      rw [htop] at hm
      rcases List.mem_cons.mp hm with rfl | hm
      · have hnil := (hdrains t).top htop (Section.drainOf_of_inDrain hsc)
        subst hnil
        by_cases hfinish : m = .finishDrain sc
        · subst hfinish ha
          obtain ⟨x, hx, -⟩ := h.scope sc htop (by simp [entry])
          obtain ⟨hpush, hresult⟩ := scopeFinishDrain_result hx hexec
          obtain ⟨g, cancel, hcall⟩ := (hdrains t).call _ (htop ▸ List.mem_cons_self) sc rfl
          have hdecided : Decided sc n (.scopeDrain (sc, g) cancel) e.error (s₁.threads t) := by
            rw [hth, hpush]
            exact ⟨hcalls, .inl ⟨rfl, hcall, rfl⟩⟩
          rcases (run_decided hdecided hrest hn).result with ⟨hend, -, -⟩ | ⟨-, hlast⟩
          · rw [htodo] at hend
            cases hend
          · exact ⟨[], env, as, s, x, _, e.error, rfl, rfl, htop, hx, hlast, hresult⟩
        · obtain ⟨m', hm', hsc'⟩ := exec_inDrain hsc hfinish hexec
          exact later ⟨m', List.mem_append_left _ hm', hsc'⟩
      · exact later ⟨m, List.mem_append_right _ hm, hsc⟩

end Llam.Structured
