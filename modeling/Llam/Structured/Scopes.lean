import Llam.Structured.Objects

/-!
# Sections on a scope

Cancelling, draining, destroying and notifying a scope fit. They leave its header alone, so what each of them owes is its
books and that the report stays in order; `Report.finishClosing_ok` is the place where a scope becomes drained.
-/

namespace Llam.Structured

open Llam.Lib Report

variable {V F S T : Type} [DecidableEq V] [DecidableEq F] [DecidableEq S] [DecidableEq T]
  {s : State V F S T} {st : Store V F S T} {t : T} {m : Section V F S} {rest : List (Section V F S)}
  {k : Account V F S} {sc : S} {x x' : Scope} {error : Option Errno} {push : List (Section V F S)}

/-! ## Reports -/

section Report

variable {r : Report}

/-- The counters of the report add up, and nothing is outstanding when it says so. -/
structure Report.Sums (r : Report) : Prop where
  admitted : r.admittedTasks = r.pendingTasks + r.succeeded + r.applicationErrors + r.cancelled + r.runtimeErrors
  drained : r.state = .DRAINED → r.pendingTasks = 0 ∧ r.activeSpawns = 0

theorem Report.Ok.sums (h : r.Ok) : r.Sums := ⟨h.admitted, h.drained⟩

theorem Report.Sums.close (h : r.Sums) : r.close.Sums := by
  unfold Report.close
  split
  · exact ⟨h.admitted, nofun⟩
  · exact h

@[simp] theorem Report.close_pending : r.close.pendingTasks = r.pendingTasks := by
  unfold Report.close
  split <;> rfl

@[simp] theorem Report.close_active : r.close.activeSpawns = r.activeSpawns := by
  unfold Report.close
  split <;> rfl

@[simp] theorem Report.finishClosing_pending : r.finishClosing.1.pendingTasks = r.pendingTasks := by
  unfold Report.finishClosing
  split <;> rfl

@[simp] theorem Report.finishClosing_active : r.finishClosing.1.activeSpawns = r.activeSpawns := by
  unfold Report.finishClosing
  split <;> rfl

/-- **Whoever finishes last drains the scope.** -/
theorem Report.finishClosing_ok (h : r.Sums) : r.finishClosing.1.Ok := by
  unfold Report.finishClosing
  split
  · rename_i hnot
    refine ⟨h.admitted, fun hclosing => ?_, h.drained⟩
    have hclosing : r.state = .CLOSING := hclosing
    rcases hnot with hnot | hnot | hnot
    · exact absurd hclosing hnot
    · exact .inl (Nat.pos_of_ne_zero hnot)
    · exact .inr (Nat.pos_of_ne_zero hnot)
  · rename_i hdone
    push Not at hdone
    exact ⟨h.admitted, nofun, fun _ => hdone.2⟩

end Report

/-! ## A new report -/

theorem Inv.scope (h : Inv s) (sc : S) (htodo : (s.threads t).todo = m :: rest)
    (href : 0 < entries m.accounts (.refs (.scope sc))) : ∃ x, s.store.scopes sc = some x ∧ x.Ok := by
  obtain ⟨o, ho⟩ := h.allocated htodo href
  obtain ⟨x, hx, -⟩ := Store.object_scope.mp ho
  exact ⟨x, hx, h.records.scopes sc x hx⟩

theorem Ledger.setScope (h : Ledger st) (hx : st.scopes sc = some x)
    (hgeneration : x'.object.generation = x.object.generation) (hlive : x'.object.publicLive = x.object.publicLive) :
    Ledger (st.setScope sc x') := by
  refine h.congr (fun r => ?_) (fun r hr => ?_) rfl
  · rw [Store.handle, Store.object_setScope]
    split
    · rename_i hr
      rw [hr, Store.handle, Store.object, hx]
      simp [hgeneration, hlive]
    · rfl
  · rwa [Store.announced_setScope] at hr

/-- **A section that writes a scope** and leaves its header alone. -/
theorem Runs.setScope (h : Inv s) (hx : s.store.scopes sc = some x) (hobject : x'.object = x.object)
    (hreport : x'.report.Ok)
    (hbooks : ∀ k, Scope.books sc (some x') k + entries m.accounts k = Scope.books sc (some x) k + todoBooks push k)
    (hhands : Hands (s.store.setScope sc x') (s.threads t) m push error) :
    Runs s t m (.done ⟨s.store.setScope sc x', push, error, none⟩) := by
  have hok := h.records.scopes sc x hx
  have hok' : x'.Ok := ⟨hobject ▸ hok.disposal, hobject ▸ hok.claimed, hobject ▸ hok.published, hreport⟩
  refine .write (h.balanced.few.setScope sc x') (fun k => ?_) (h.records.setScope hok') (fun f _ => .refl _ f)
    (h.ledger.setScope hx (by rw [hobject]) (by rw [hobject])) rfl hhands
  have hk := hbooks k
  rw [Store.total_setScope h.balanced.few, hx]
  omega

/-- A section that closes the channel of the scope, perhaps, and goes on with others that still have a reference. -/
theorem Hands.notified {th : Thread V F S} {l : List (Section V F S)} {notify : Bool} (hl : Hands st th m l error)
    (hnone : ∀ m' ∈ l, m'.mayConsume = false) (hrefs : 0 < todoBooks l (.refs (.scope sc))) :
    Hands st th m (notification sc notify ++ l) error := by
  cases notify with
  | false => exact hl
  | true =>
    refine hl.cons hnone trivial (fun r hr => ?_) rfl fun _ => rfl
    cases hr
    exact hrefs

@[simp] theorem todoBooks_notification (sc : S) (notify : Bool) :
    todoBooks (notification sc notify : List (Section V F S)) k = 0 := by
  cases notify <;> simp [notification]

/-! ## Cancelling -/

theorem scopeCancel_runs (h : Inv s) (htodo : (s.threads t).todo = .cancelClose sc :: rest) :
    Runs s t (.cancelClose sc) (scopeCancel s.store sc) := by
  obtain ⟨x, hx, hok⟩ := h.scope sc htodo (by simp [entry])
  rw [scopeCancel, hx]
  dsimp only
  refine .setScope h hx rfl (finishClosing_ok hok.report.sums.close) (fun k => ?_) (.plain trivial rfl)
  simp only [Scope.books, finishClosing_pending, finishClosing_active, close_pending,
    close_active, todoBooks_cons, todoBooks_nil, Section.accounts, After.accounts, List.nil_append]
  ring

variable {after : After} {fails : Option Errno}

theorem scopeRequestCheck_runs (h : Inv s) (htodo : (s.threads t).todo = .requestCheck sc after :: rest) :
    Runs s t (.requestCheck sc after) (scopeRequestCheck s.store sc after) := by
  obtain ⟨x, hx, -⟩ := h.scope sc htodo (by cases after <;> simp [entry])
  rw [scopeRequestCheck, hx]
  simp only
  split <;> exact .handOn h rfl (.plain trivial rfl)

theorem scopeRequestToken_runs (h : Inv s) (htodo : (s.threads t).todo = .requestToken sc after :: rest) :
    Runs s t (.requestToken sc after) (scopeRequestToken s.store sc after fails) := by
  obtain ⟨x, hx, hok⟩ := h.scope sc htodo (by cases after <;> simp [entry])
  rw [scopeRequestToken, hx]
  simp only
  split
  · refine .setScope h hx rfl hok.report (fun k => ?_) (.plain trivial rfl)
    simp only [Scope.books, todoBooks_cons, todoBooks_nil, Section.accounts]
    ring
  · exact .handOn h rfl (.plain trivial rfl)

theorem drainNext_accounts (ready : Bool) :
    (drainNext sc ready error : Section V F S).accounts = .draining sc :: pin (.scope sc) := by
  unfold drainNext
  split <;> rfl

/-- A drain goes on waiting or finishes. -/
theorem drainNext_plain (st : Store V F S T) (sc : S) (ready : Bool) (error : Option Errno) :
    (drainNext sc ready error : Section V F S).Phase st ∧
    (drainNext sc ready error : Section V F S).notifies = none ∧
      (drainNext sc ready error : Section V F S).mayConsume = false := by
  unfold drainNext
  split <;> exact ⟨trivial, rfl, rfl⟩

variable (h : Inv s)

include h

theorem scopeRequestDone_runs (htodo : (s.threads t).todo = .requestDone sc after :: rest) :
    Runs s t (.requestDone sc after) (scopeRequestDone s.store sc after (s.threads t).error) := by
  obtain ⟨x, hx, hok⟩ := h.scope sc htodo (by cases after <;> simp [entry])
  -- the request is recorded or not, and what follows is the same in both cases
  have both {push : List (Section V F S)} {result : Option Errno}
      (hbooks : ∀ k, todoBooks push k = entries (Section.requestDone sc after).accounts k)
      (hhands : ∀ st : Store V F S T, Hands st (s.threads t) (.requestDone sc after) push result) :
      Runs s t (.requestDone sc after) (.done ⟨if result = none then
        s.store.setScope sc { x with report := { x.report with cancelRequested := true } } else s.store, push, result,
          none⟩) := by
    split
    · refine .setScope h hx rfl ⟨hok.report.admitted, hok.report.closing, hok.report.drained⟩ (fun k => ?_) (hhands _)
      rw [hbooks]
      rfl
    · exact .same h hbooks (hhands _)
  rw [scopeRequestDone, hx]
  cases after with
  | cancel notify =>
    refine both (fun k => ?_) fun st => .notified (.plain trivial rfl) (by simp [Section.mayConsume]) ?_
    · simp
    · simp [entry]
  | drain ready =>
    refine both (fun k => ?_) fun st => ?_
    · rw [todoBooks_cons, drainNext_accounts, todoBooks_nil, Section.accounts, After.accounts, Int.add_zero]
      rfl
    · obtain ⟨hphase, hnotifies, hmay⟩ := drainNext_plain st sc ready
        (if x.report.state = .DRAINED then none else (s.threads t).error)
      exact .one hphase hnotifies (by rw [hmay]; intros; contradiction) (by intros; contradiction)

/-- The channel is closed while the thread still holds the scope. -/
theorem notifyScope_runs (htodo : (s.threads t).todo = .notifyScope sc :: rest) :
    Runs s t (.notifyScope sc) (notifyScope s.store sc fails (s.threads t).error) := by
  obtain ⟨o, ho⟩ := h.guarded htodo rfl
  obtain ⟨x, hx, -⟩ := Store.object_scope.mp ho
  have hok := h.records.scopes sc x hx
  rw [notifyScope, hx]
  simp only
  split
  · exact .setScope h hx rfl hok.report (fun k => rfl) (.nil fun _ => rfl)
  · exact .same h (fun k => rfl) (.nil fun _ => rfl)

/-! ## Draining -/

/-- The only drain of the scope has set the flag. -/
theorem Inv.draining (htodo : (s.threads t).todo = m :: rest) (hx : s.store.scopes sc = some x)
    (hm : 0 < entries m.accounts (.draining sc)) : x.draining = true := by
  have hcovers := h.balanced.covers_top htodo (.draining sc)
  rw [Store.total_scope rfl, hx] at hcovers
  by_contra hnot
  rw [Bool.not_eq_true] at hnot
  simp [Scope.books, Object.books, entry, hnot, -Section.accounts] at hcovers
  omega

theorem scopeBeginDrain_runs {cancel own : Bool} (htodo : (s.threads t).todo = .beginDrain sc cancel :: rest) :
    Runs s t (.beginDrain sc cancel) (scopeBeginDrain s.store sc cancel own) := by
  obtain ⟨x, hx, hok⟩ := h.scope sc htodo (by simp [entry])
  have fail (e : Errno) : Runs s t (.beginDrain sc cancel) (.done ⟨s.store, [.endOp (.scope sc)], some e, none⟩) :=
    .handOn h rfl (.plain trivial rfl)
  simp only [scopeBeginDrain, hx]
  split
  · exact fail .EBUSY
  rename_i hdraining
  rw [Bool.not_eq_true] at hdraining
  split
  · exact fail .EDEADLK
  have next (m' : Section V F S) (hm' : m'.accounts = .draining sc :: pin (.scope sc)) (hphase : ∀ st : Store V F S T, m'.Phase st)
      (hnotifies : m'.notifies = none) (hmay : m'.mayConsume = false) :
      Runs s t (.beginDrain sc cancel) (.done ⟨s.store.setScope sc
        { x with draining := true, report := x.report.close.finishClosing.1 },
        notification sc x.report.close.finishClosing.2 ++ [m'], none, none⟩) := by
    refine .setScope h hx rfl (finishClosing_ok hok.report.sums.close) (fun k => ?_)
      (.notified (.one (hphase _) hnotifies (by rw [hmay]; intros; contradiction) (by intros; contradiction)) (by simp [hmay]) ?_)
    · rw [todoBooks_append, todoBooks_notification, todoBooks_cons, todoBooks_nil, hm']
      simp only [Scope.books, finishClosing_pending, finishClosing_active, close_pending,
        close_active, Section.accounts, entries_cons, hdraining, flag_true, flag_false]
      ring
    · rw [todoBooks_cons, hm']
      simp [entry]
  cases cancel with
  | true => exact next _ rfl (fun _ => trivial) rfl rfl
  | false =>
    exact next _ (drainNext_accounts _) (fun st => (drainNext_plain st sc _ _).1)
      (drainNext_plain s.store sc _ _).2.1 (drainNext_plain s.store sc _ _).2.2

theorem scopeCleanupWait_runs (htodo : (s.threads t).todo = .drainWait sc :: rest) :
    Runs s t (.drainWait sc) (scopeCleanupWait s.store sc fails) := by
  obtain ⟨x, hx, -⟩ := h.scope sc htodo (by simp [entry])
  simp only [scopeCleanupWait, hx]
  split
  · exact .blocked
  · exact .handOn h rfl (.plain trivial rfl)

theorem scopeFinishDrain_runs (htodo : (s.threads t).todo = .finishDrain sc :: rest) :
    Runs s t (.finishDrain sc) (scopeFinishDrain s.store sc (s.threads t).error) := by
  obtain ⟨x, hx, hok⟩ := h.scope sc htodo (by simp [entry])
  have hdraining := h.draining htodo hx (by simp [entry])
  simp only [scopeFinishDrain, hx]
  refine .setScope h hx rfl hok.report (fun k => ?_) (.plain trivial rfl)
  simp only [Scope.books, todoBooks_cons, todoBooks_nil, Section.accounts, entries_cons, hdraining, flag_true, flag_false]
  ring

theorem scopeDestroy_runs (htodo : (s.threads t).todo = .destroy sc :: rest) :
    Runs s t (.destroy sc) (scopeDestroy s.store sc t (s.threads t).calls) := by
  obtain ⟨x, hx, -⟩ := h.scope sc htodo (by simp [entry])
  simp only [scopeDestroy, hx]
  split
  · exact .handOn h rfl (.plain trivial rfl)
  · exact structuredConsume_runs h htodo rfl rfl

end Llam.Structured
