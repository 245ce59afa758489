import Llam.Structured.System

/-!
# What the sections do to reports

Most sections leave the report of every scope and the readiness of every future alone (`exec_keeps`). The others are the
seven places where the report of one scope changes, and `Report.Moves` is what all of them have in common: the state goes
forward, a drained scope is not touched any more, and nothing is admitted to a scope that is not open. A completion is
counted by one section only, the one that makes the future ready (`Counted`).
-/

namespace Llam.Structured

open Llam.Lib Function Report Store

variable {V F S T : Type} [DecidableEq V] [DecidableEq F] [DecidableEq S] [DecidableEq T]
  {s s' : State V F S T} {st st' st'' : Store V F S T} {t : T} {m : Section V F S} {rest : List (Section V F S)}
  {e : Effect V F S T} {r : Ref V F S} {sc : S} {f : F} {v : V} {x x' : Scope} {y y' : Future V} {error : Option Errno}
  {push : List (Section V F S)}

/-! ## Reports and readiness -/

def Store.report (st : Store V F S T) (sc : S) : Option Report := (st.scopes sc).map Scope.report

def Store.ready (st : Store V F S T) (f : F) : Option Bool := (st.futures f).map Future.ready

/-- The reports of the scopes and the readiness of the futures that were there are unchanged. -/
structure Keeps (st st' : Store V F S T) : Prop where
  report : ∀ sc r, st.report sc = some r → st'.report sc = some r
  ready : ∀ f b, st.ready f = some b → st'.ready f = some b

theorem Keeps.refl (st : Store V F S T) : Keeps st st := ⟨fun _ _ h => h, fun _ _ h => h⟩

theorem Keeps.trans (h : Keeps st st') (h' : Keeps st' st'') : Keeps st st'' :=
  ⟨fun sc r hr => h'.report sc r (h.report sc r hr), fun f b hb => h'.ready f b (h.ready f b hb)⟩

theorem Keeps.consumes (h : Keeps st st') (r : Ref V F S) (g : Nat) (t : T) (n : Nat) : Keeps st (st'.consumes r g t n) :=
  ⟨h.report, h.ready⟩

theorem Keeps.setValue (v : V) (x : Value) : Keeps st (st.setValue v x) := ⟨fun _ _ h => h, fun _ _ h => h⟩

theorem Keeps.setFuture (st : Store V F S T) (hy : ∀ y, st.futures f = some y → y'.ready = y.ready) :
    Keeps st (st.setFuture f y') := by
  refine ⟨fun _ _ h => h, fun g b hb => ?_⟩
  rcases eq_or_ne g f with rfl | hne
  · obtain ⟨y, hg, rfl⟩ := Option.map_eq_some_iff.mp hb
    rw [Store.ready, setFuture_self, Option.map_some, hy y hg]
  · rwa [Store.ready, setFuture_of_ne hne]

theorem Keeps.setScope (hx : ∀ x, st.scopes sc = some x → x'.report = x.report) : Keeps st (st.setScope sc x') := by
  refine ⟨fun u r hr => ?_, fun _ _ h => h⟩
  rcases eq_or_ne u sc with rfl | hne
  · obtain ⟨x, hu, rfl⟩ := Option.map_eq_some_iff.mp hr
    rw [Store.report, setScope_self, Option.map_some, hx x hu]
  · rwa [Store.report, setScope_of_ne hne]

theorem Keeps.setObject (r : Ref V F S) (o : Object) : Keeps st (st.setObject r o) := by
  cases r with
  | value v => exact ⟨fun _ _ h => h, fun _ _ h => h⟩
  | future f =>
    refine ⟨fun _ _ h => h, fun g b hb => ?_⟩
    obtain ⟨y, hg, rfl⟩ := Option.map_eq_some_iff.mp hb
    rcases eq_or_ne g f with rfl | hne
    · simp [Store.ready, Store.setObject, hg]
    · simpa [Store.ready, Store.setObject, hne] using hb
  | scope sc =>
    refine ⟨fun u r hr => ?_, fun _ _ h => h⟩
    obtain ⟨x, hu, rfl⟩ := Option.map_eq_some_iff.mp hr
    rcases eq_or_ne u sc with rfl | hne
    · simp [Store.report, Store.setObject, hu]
    · simpa [Store.report, Store.setObject, hne] using hr

/-- A section that keeps the reports. -/
def Exec.Keeping (st : Store V F S T) (x : Exec V F S T) : Prop := ∀ e, x = .done e → Keeps st e.store

theorem Exec.Keeping.done (h : Keeps st e.store) : Exec.Keeping st (.done e) := by
  intro e' he
  cases he
  exact h

theorem Exec.Keeping.same {child : Option (T × F × S)} : Exec.Keeping st (.done ⟨st, push, error, child⟩) := .done (Keeps.refl st)

theorem Exec.Keeping.aborted : Exec.Keeping st .aborted := nofun

theorem Exec.Keeping.blocked : Exec.Keeping st .blocked := nofun

/-! ## Sections that keep the reports -/

theorem dropRef_keeping (o : Object) : (dropRef st r o error).Keeping st := by
  unfold dropRef
  split
  · exact .aborted
  · exact .done (.setObject _ _)

theorem structuredEnd_keeping : (structuredEnd st r error).Keeping st := by
  unfold structuredEnd
  split
  · exact .aborted
  split
  · exact .aborted
  · exact dropRef_keeping _

theorem structuredRelease_keeping : (structuredRelease st r error).Keeping st := by
  unfold structuredRelease
  split
  · exact .aborted
  · exact dropRef_keeping _

theorem structuredConsume_keeping (t : T) (n : Nat) : (structuredConsume st r t n).Keeping st := by
  unfold structuredConsume
  split
  · exact .aborted
  split
  · exact .same
  · exact .aborted
  · exact .done ((Keeps.setObject _ _).consumes _ _ _ _)

theorem futureTake_keeping {contract : Contract} {fails : Option Errno} (t : T) (n : Nat) :
    (futureTake st f contract fails t n).Keeping st := by
  unfold futureTake
  split
  · exact .aborted
  rename_i y hy
  have finish (st' : Store V F S T) (o : Object) (hst : Keeps st st') (hf : st'.futures f = some y) :
      Keeps st ((st'.setFuture f { y with object := o, result := none }).consumes (.future f) y.object.generation t n) := by
    refine (hst.trans (Keeps.setFuture _ fun z hz => ?_)).consumes _ _ _ _
    cases hf.symm.trans hz
    rfl
  dsimp only
  split
  · exact .same
  split
  · exact .same
  split
  · exact .same
  split
  · exact .same
  cases y.result with
  | none =>
    simp only
    split
    · exact .done (finish st _ (Keeps.refl st) hy)
    · exact .aborted
  | some v =>
    simp only
    split
    · exact .aborted
    split
    · exact .same
    rename_i o' _
    split
    · exact .done (finish (st.setObject (.value v) o') _ (.setObject (.value v) o') hy)
    · exact .aborted

theorem valueCommitClaim_keeping (t : T) (n : Nat) : (valueCommitClaim st sc f v t n).Keeping st := by
  unfold valueCommitClaim
  split
  · exact .aborted
  split
  · exact .aborted
  split
  · exact .aborted
  · exact .done ((Keeps.setObject _ _).consumes _ _ _ _)

theorem valueRollbackClaim_keeping : (valueRollbackClaim st sc f v error).Keeping st := by
  unfold valueRollbackClaim
  split
  · rename_i o y _ hy
    split
    · exact .aborted
    split
    · exact .aborted
    rename_i o' _
    refine .done ((Keeps.setObject (.value v) o').trans (Keeps.setFuture _ fun z hz => ?_))
    cases hy.symm.trans hz
    rfl
  · exact .aborted

/-- A section that writes one future and not its readiness. -/
theorem Exec.Keeping.future (hy : st.futures f = some y) (hready : y'.ready = y.ready) :
    Exec.Keeping st (.done ⟨st.setFuture f y', push, error, none⟩) := by
  refine .done (Keeps.setFuture _ fun z hz => ?_)
  cases hy.symm.trans hz
  exact hready

/-- A section that writes one scope and not its report. -/
theorem Exec.Keeping.scope (hx : st.scopes sc = some x) (hreport : x'.report = x.report) :
    Exec.Keeping st (.done ⟨st.setScope sc x', push, error, none⟩) := by
  refine .done (Keeps.setScope fun z hz => ?_)
  cases hx.symm.trans hz
  exact hreport

theorem Future.settle_ready (y : Future V) (cancelled : Bool) (fatal : Option Errno) :
    (y.settle cancelled fatal).ready = y.ready := (y.settle_settled cancelled fatal).ready

/-- The sections that change a report. -/
def Section.reports : Section V F S → Bool
  | .cancelClose _ => true
  | .requestDone _ _ => true
  | .beginDrain _ _ => true
  | .reserve _ _ _ => true
  | .rollbackSpawn _ _ => true
  | .finishSpawn _ _ _ => true
  | .publish _ _ => true
  | _ => false

/-- **The other sections keep the reports.** -/
theorem exec_keeping {env : Env F T} {th : Thread V F S} (h : m.reports = false) : (exec st t th env m).Keeping st := by
  cases m with
  | endOp r => exact structuredEnd_keeping
  | release r => exact structuredRelease_keeping
  | freeArgument f =>
    simp only [exec, futureFreeArgument]
    split
    · exact .aborted
    rename_i y hy
    split
    · exact .same
    · exact .future hy rfl
  | freeResult f =>
    simp only [exec, futureFreeResult]
    split
    · exact .aborted
    · rename_i y hy
      exact .future hy rfl
  | consume r => exact structuredConsume_keeping t _
  | valueType v type =>
    simp only [exec, valueData]
    split
    · exact .aborted
    · exact .same
  | awaitReady f =>
    simp only [exec, futureAwaitReady]
    split
    · exact .aborted
    · exact .same
  | awaitDone f =>
    simp only [exec, futureAwaitDone]
    split
    · exact .aborted
    split
    · exact .blocked
    · exact .same
  | awaitCheck f =>
    simp only [exec, futureAwaitCheck]
    split
    · exact .aborted
    · exact .same
  | take f contract => exact futureTake_keeping t _
  | destroy sc =>
    simp only [exec, scopeDestroy]
    split
    · exact .aborted
    split
    · exact .same
    · exact structuredConsume_keeping t _
  | requestCheck sc after =>
    simp only [exec, scopeRequestCheck]
    split
    · exact .aborted
    · exact .same
  | requestToken sc after =>
    simp only [exec, scopeRequestToken]
    split
    · exact .aborted
    rename_i x hx
    split
    · exact .scope hx rfl
    · exact .same
  | notifyScope sc =>
    simp only [exec, notifyScope]
    split
    · exact .aborted
    rename_i x hx
    split
    · exact .scope hx rfl
    · exact .same
  | drainWait sc =>
    simp only [exec, scopeCleanupWait]
    split
    · exact .aborted
    split
    · exact .blocked
    · exact .same
  | finishDrain sc =>
    simp only [exec, scopeFinishDrain]
    split
    · exact .aborted
    · rename_i x hx
      exact .scope hx rfl
  | spawnCheck sc argument contract =>
    simp only [exec, scopeSpawnCheck]
    split
    · exact .aborted
    split <;> exact .same
  | prepare sc argument contract =>
    simp only [exec, futurePrepare]
    split
    · exact .same
    · exact .blocked
    split
    · exact .blocked
    rename_i hf
    refine .done (Keeps.setFuture _ fun z hz => ?_)
    rw [hf] at hz
    cases hz
  | spawnTask sc f argument =>
    simp only [exec, spawnScoped]
    split
    · exact .same
    · exact .blocked
    · exact .same
  | commitClaim sc f v => exact valueCommitClaim_keeping t _
  | announce sc f =>
    simp only [exec, announceFuture]
    split
    · exact .aborted
    · rename_i y hy
      exact .future hy rfl
  | rollbackClaim sc f v => exact valueRollbackClaim_keeping
  | consumeFailed sc f =>
    simp only [exec, scopeSpawnDiscard]
    split
    · exact .aborted
    rename_i y hy
    split
    · exact .future hy rfl
    · exact .aborted
  | entryReturned sc f =>
    simp only [exec, scopedEntryReturned]
    split
    · exact .aborted
    · rename_i y hy
      exact .future hy rfl
  | prepareRetire sc f =>
    simp only [exec, scopedPrepareRetire]
    split
    · exact .aborted
    · rename_i y hy
      exact .future hy (y.settle_ready _ _)
  | releaseInputs sc f =>
    simp only [exec, scopedReleaseInputs]
    split
    · exact .aborted
    · rename_i y hy
      exact .future hy rfl
  | notifyFuture f =>
    simp only [exec, notifyFuture]
    split
    · exact .aborted
    rename_i y hy
    split
    · exact .future hy rfl
    · exact .same
  | _ => cases h

/-! ## Sections that change a report -/

/-- The moves of a scope. -/
inductive ScopeState.Next : ScopeState → ScopeState → Prop
  | close : Next .OPEN .CLOSING
  | drain : Next .CLOSING .DRAINED

/-- All counters of a report. -/
def Report.counters (r : Report) : List Nat :=
  [r.admittedTasks, r.pendingTasks, r.activeSpawns, r.succeeded, r.applicationErrors, r.cancelled, r.runtimeErrors]

/-- The completions of a kind. -/
def Report.count (r : Report) : Kind → Nat
  | .OK => r.succeeded
  | .APP_ERROR => r.applicationErrors
  | .CANCELLED => r.cancelled
  | .RUNTIME_ERROR => r.runtimeErrors

/-- What may happen to a report. -/
structure Report.Moves (r r' : Report) : Prop where
  state : Relation.ReflTransGen ScopeState.Next r.state r'.state
  drained : r.state = .DRAINED → r'.counters = r.counters
  admitted : r.state ≠ .OPEN → r'.admittedTasks ≤ r.admittedTasks

/-- The task of `f` is counted in `sc`, under the kind of its outcome, and `f` becomes ready. -/
def Counted (st st' : Store V F S T) (sc : S) (f : F) : Prop :=
  ∃ r r' y kind, st.report sc = some r ∧ st'.report sc = some r' ∧ st.futures f = some y ∧ y.kind = some kind ∧
    y.ready = false ∧ st'.ready f = some true ∧ r.pendingTasks = r'.pendingTasks + 1 ∧
      r'.count = update r.count kind (r.count kind + 1)

/-- What may happen to the reports and to the readiness of the futures. -/
structure Moved (st st' : Store V F S T) : Prop where
  report : ∀ sc r, st.report sc = some r → ∃ r', st'.report sc = some r' ∧ r.Moves r' ∧
    (r'.count = r.count ∨ ∃ f, Counted st st' sc f)
  ready : ∀ f b, st.ready f = some b → st'.ready f = some b ∨ ∃ sc, Counted st st' sc f

section Moves

variable {q q' : Report}

theorem Report.Moves.refl (q : Report) : q.Moves q := ⟨.refl, fun _ => rfl, fun _ => Nat.le_refl _⟩

theorem Report.Moves.trans {q'' : Report} (h : q.Moves q') (h' : q'.Moves q'') : q.Moves q'' := by
  refine ⟨h.state.trans h'.state, fun hd => ?_, fun hopen => ?_⟩
  · have hd' : q'.state = .DRAINED := by
      rcases h.state.cases_head with heq | ⟨c, hc, -⟩
      · rw [← heq, hd]
      · rw [hd] at hc
        cases hc
    rw [h'.drained hd', h.drained hd]
  · refine Nat.le_trans (h'.admitted fun hopen' => ?_) (h.admitted hopen)
    rcases h.state.cases_tail with heq | ⟨c, -, hc⟩
    · exact hopen (heq ▸ hopen')
    · rw [hopen'] at hc
      cases hc

theorem Report.close_state : Relation.ReflTransGen ScopeState.Next q.state q.close.state := by
  unfold Report.close
  split
  · rename_i hopen
    rw [hopen]
    exact .single .close
  · exact .refl

theorem Report.finishClosing_state : Relation.ReflTransGen ScopeState.Next q.state q.finishClosing.1.state := by
  unfold Report.finishClosing
  split
  · exact .refl
  rename_i hclosing
  push Not at hclosing
  rw [hclosing.1]
  exact .single .drain

theorem Report.finishClosing_counters : q.finishClosing.1.counters = q.counters ∧ q.finishClosing.1.count = q.count := by
  unfold Report.finishClosing
  split <;> exact ⟨rfl, funext fun kind => by cases kind <;> rfl⟩

theorem Report.close_counters : q.close.counters = q.counters ∧ q.close.count = q.count := by
  unfold Report.close
  split <;> exact ⟨rfl, funext fun kind => by cases kind <;> rfl⟩

theorem Report.admitted_of_counters (h : q'.counters = q.counters) : q'.admittedTasks = q.admittedTasks :=
  (List.cons.inj h).1

theorem Report.Moves.of_counters (hstate : Relation.ReflTransGen ScopeState.Next q.state q'.state)
    (h : q'.counters = q.counters) : q.Moves q' :=
  ⟨hstate, fun _ => h, fun _ => Nat.le_of_eq (admitted_of_counters h)⟩

/-- Closing an open scope, and draining it if nothing is outstanding. -/
theorem Report.close_moves : q.Moves q.close.finishClosing.1 :=
  .of_counters (close_state.trans finishClosing_state)
    (finishClosing_counters.1.trans close_counters.1)

/-- Something outstanding is settled, in a scope that was not drained therefore. -/
theorem Report.settle_moves (hq : q.Ok) (hout : 1 ≤ q.pendingTasks ∨ 1 ≤ q.activeSpawns) (hstate : q'.state = q.state)
    (hadmitted : q'.admittedTasks ≤ q.admittedTasks) : q.Moves q'.finishClosing.1 := by
  refine ⟨hstate ▸ finishClosing_state, fun hd => ?_, fun _ => ?_⟩
  · have := hq.drained hd
    omega
  · rw [admitted_of_counters finishClosing_counters.1]
    exact hadmitted

end Moves

theorem Keeps.moved (h : Keeps st st') : Moved st st' :=
  ⟨fun sc r hr => ⟨r, h.report sc r hr, .refl r, .inl rfl⟩, fun f b hb => .inl (h.ready f b hb)⟩

/-- A section that changes the report of one scope and counts nothing. -/
theorem Moved.one (hx : st.scopes sc = some x) (hscopes : st'.scopes = update st.scopes sc (some x'))
    (hready : ∀ f b, st.ready f = some b → st'.ready f = some b) (hmoves : x.report.Moves x'.report)
    (hcount : x'.report.count = x.report.count) : Moved st st' := by
  refine ⟨fun u r hr => ?_, fun f b hb => .inl (hready f b hb)⟩
  rcases eq_or_ne u sc with rfl | hne
  · rw [Store.report, hx] at hr
    cases hr
    refine ⟨x'.report, ?_, hmoves, .inl hcount⟩
    rw [Store.report, hscopes, update_self]
    rfl
  · refine ⟨r, ?_, .refl r, .inl rfl⟩
    rwa [Store.report, hscopes, update_of_ne hne]

/-- The completion of a task: it is counted, and its future becomes ready. -/
theorem publish_moved {kind : Kind} (h : Inv s) (htodo : (s.threads t).todo = .publish sc f :: rest)
    (hx : s.store.scopes sc = some x) (hy : s.store.futures f = some y) (hkind : y.kind = some kind) {q : Report}
    (hcounts : x.report.Counts q) (hcount : q.count = update x.report.count kind (x.report.count kind + 1)) :
    Moved s.store ((s.store.setFuture f { y with ready := true }).setScope sc { x with report := q.finishClosing.1 }) := by
  have hliving := h.living htodo hy (by simp [entry])
  rw [Future.unfinished, Bool.and_eq_true, Bool.not_eq_true'] at hliving
  have hok := (h.records.scopes sc x hx).report
  have hpending := hcounts.pending
  have hdone : Counted s.store ((s.store.setFuture f { y with ready := true }).setScope sc
      { x with report := q.finishClosing.1 }) sc f := by
    refine ⟨x.report, q.finishClosing.1, y, kind, ?_, ?_, hy, hkind, hliving.1, ?_, ?_, ?_⟩
    · rw [Store.report, hx]
      rfl
    · rw [Store.report, setScope_self]
      rfl
    · show ((s.store.setFuture f { y with ready := true }).futures f).map Future.ready = some true
      rw [setFuture_self]
      rfl
    · rw [finishClosing_pending]
      exact hpending
    · rw [finishClosing_counters.2, hcount]
  refine ⟨fun u r hr => ?_, fun g b hb => ?_⟩
  · rcases eq_or_ne u sc with rfl | hne
    · rw [Store.report, hx] at hr
      cases hr
      refine ⟨q.finishClosing.1, ?_, ?_, .inr ⟨f, hdone⟩⟩
      · rw [Store.report, setScope_self]
        rfl
      · exact settle_moves hok (.inl (by omega)) hcounts.state (Nat.le_of_eq hcounts.admitted)
    · refine ⟨r, ?_, .refl r, .inl rfl⟩
      rwa [Store.report, setScope_of_ne hne]
  · rcases eq_or_ne g f with rfl | hne
    · exact .inr ⟨sc, hdone⟩
    refine .inl ?_
    show ((s.store.setFuture f { y with ready := true }).futures g).map Future.ready = some b
    rwa [setFuture_of_ne hne]

theorem Report.accountCompletion_count {q q' : Report} {kind : Kind} {runtimeError : Option Errno}
    (h : q.accountCompletion (some kind) runtimeError = some q') :
    q'.count = update q.count kind (q.count kind + 1) := by
  unfold Report.accountCompletion at h
  cases hn : q.pendingTasks with
  | zero =>
    rw [hn] at h
    cases h
  | succ n =>
    rw [hn] at h
    cases kind <;> cases h <;> funext k <;> cases k <;> rfl

theorem scopedPublish_moved (h : Inv s) (htodo : (s.threads t).todo = .publish sc f :: rest)
    (hexec : scopedPublish s.store sc f error = .done e) : Moved s.store e.store := by
  obtain ⟨x, hx, -⟩ := h.scope sc htodo (by simp [entry])
  obtain ⟨y, hy, -⟩ := h.future (f := f) htodo (by simp [entry])
  have hphase : ∀ y, s.store.futures f = some y → y.Clean ∧ y.kind ≠ none := h.phase htodo
  obtain ⟨kind, hkind⟩ := Option.ne_none_iff_exists'.mp (hphase y hy).2
  have hpending : 1 ≤ x.report.pendingTasks := by
    have := (h.reserved htodo hx).1
    simp [entry] at this
    omega
  obtain ⟨q, hq, hcounts⟩ := accountCompletion_counts y.runtimeError hpending (hphase y hy).2
  have hcount := accountCompletion_count (hkind ▸ hq)
  simp only [scopedPublish, hx, hy] at hexec
  split at hexec
  · cases hexec
    refine (Keeps.setFuture _ fun z hz => ?_).moved
    cases hy.symm.trans hz
    rfl
  · simp only [hq] at hexec
    cases hexec
    exact publish_moved h htodo hx hy hkind hcounts hcount

theorem scopeReserveSpawn_moved {argument : Option (Handle V)} (hexec : scopeReserveSpawn st sc f argument = .done e) :
    Moved st e.store := by
  unfold scopeReserveSpawn at hexec
  split at hexec
  · rename_i x y hx hy
    simp only at hexec
    split at hexec
    · cases hexec
      exact (Keeps.refl _).moved
    rename_i hopen
    rw [not_not] at hopen
    -- the reservation of an open scope, whatever it does to the argument
    have commit {st' : Store V F S T} {w : Option V} (hscopes : st'.scopes = st.scopes) (hfutures : st'.futures = st.futures) :
        Moved st ((st'.setScope sc x.reserve).setFuture f
          { y with object := { y.object with refs := y.object.refs + 1 }, argument := w }) := by
      have hmoves : x.report.Moves x.reserve.report := by
        refine ⟨.refl, fun hd => ?_, fun hnot => absurd hopen hnot⟩
        rw [hopen] at hd
        cases hd
      refine .one hx (by rw [← hscopes]; rfl) (fun g b hb => ?_) hmoves (funext fun kind => by cases kind <;> rfl)
      have hb' : st'.ready g = some b := by rwa [Store.ready, hfutures]
      refine Keeps.ready (.setFuture st' fun z hz => ?_) g b hb'
      rw [hfutures, hy] at hz
      cases hz
      rfl
    split at hexec
    · cases hexec
      exact (Keeps.refl _).moved
    cases argument with
    | none =>
      cases hexec
      exact commit rfl rfl
    | some hd =>
      simp only at hexec
      split at hexec
      · cases hexec
        exact (Keeps.refl _).moved
      rename_i st' hclaim
      obtain ⟨z, -, -, -, rfl⟩ := valueClaim_ok hclaim
      cases hexec
      exact commit rfl rfl
  · cases hexec

theorem scopeRollbackSpawn_moved (h : Inv s) (htodo : (s.threads t).todo = .rollbackSpawn sc f :: rest)
    (hexec : scopeRollbackSpawn s.store sc f error = .done e) : Moved s.store e.store := by
  obtain ⟨x, hx, hok⟩ := h.scope sc htodo (by simp [entry])
  obtain ⟨y, hy, -⟩ := h.future (f := f) htodo (by simp [entry])
  have hactive : 1 ≤ x.report.activeSpawns := by
    have := (h.reserved htodo hx).2
    simp [entry] at this
    omega
  simp only [scopeRollbackSpawn, hx, hy] at hexec
  split at hexec
  · cases hexec
    refine .one hx rfl (fun g b hb => ?_) ⟨.refl, fun hd => ?_, fun _ => Nat.sub_le _ _⟩
      (funext fun kind => by cases kind <;> rfl)
    · refine (Keeps.setFuture s.store fun z hz => ?_).ready g b hb
      cases hy.symm.trans hz
      rfl
    · have := (hok.report.drained hd).2
      omega
  · cases hexec

/-- **What a section does to the reports.** -/
theorem exec_moved {env : Env F T} (h : Inv s) (htodo : (s.threads t).todo = m :: rest)
    (hexec : exec s.store t (s.threads t) env m = .done e) : Moved s.store e.store := by
  cases m with
  | cancelClose sc =>
    obtain ⟨x, hx, -⟩ := h.scope sc htodo (by simp [entry])
    rw [exec, scopeCancel, hx] at hexec
    cases hexec
    exact .one hx rfl (fun _ _ hb => hb) close_moves
      (finishClosing_counters.2.trans close_counters.2)
  | requestDone sc after =>
    obtain ⟨x, hx, -⟩ := h.scope sc htodo (by cases after <;> simp [entry])
    have both (result : Option Errno) : Moved s.store (if result = none then
        s.store.setScope sc { x with report := { x.report with cancelRequested := true } } else s.store) := by
      split
      · exact .one hx rfl (fun _ _ hb => hb) (.of_counters .refl rfl) (funext fun kind => by cases kind <;> rfl)
      · exact (Keeps.refl _).moved
    rw [exec, scopeRequestDone, hx] at hexec
    cases after <;> cases hexec <;> exact both _
  | beginDrain sc cancel =>
    obtain ⟨x, hx, -⟩ := h.scope sc htodo (by simp [entry])
    simp only [exec, scopeBeginDrain, hx] at hexec
    split at hexec
    · cases hexec
      exact (Keeps.refl _).moved
    split at hexec
    · cases hexec
      exact (Keeps.refl _).moved
    cases hexec
    exact .one hx rfl (fun _ _ hb => hb) close_moves
      (finishClosing_counters.2.trans close_counters.2)
  | reserve sc f argument => exact scopeReserveSpawn_moved hexec
  | rollbackSpawn sc f => exact scopeRollbackSpawn_moved h htodo hexec
  | finishSpawn sc f failed =>
    obtain ⟨x, hx, hok⟩ := h.scope sc htodo (by cases failed <;> simp [entry])
    have hactive : 1 ≤ x.report.activeSpawns := by
      have := (h.reserved htodo hx).2
      cases failed <;> simp [entry] at this <;> omega
    rw [exec, scopeFinishSpawn, hx] at hexec
    cases hexec
    exact .one hx rfl (fun _ _ hb => hb) (settle_moves hok.report (.inr hactive) rfl (Nat.le_refl _))
      finishClosing_counters.2
  | publish sc f => exact scopedPublish_moved h htodo hexec
  | _ => exact (exec_keeping rfl e hexec).moved

end Llam.Structured
