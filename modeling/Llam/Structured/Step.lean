import Llam.Structured.Model

/-!
# The sections of the structured-task calls

One definition for each section with the structured lock held, under the name of the source function it is cut from, with
the sections that follow it in `push`. `exec` performs the section on top of a thread's stack and `step` is the system of
all threads.
-/

namespace Llam.Structured

variable {V F S T : Type} [DecidableEq V] [DecidableEq F] [DecidableEq S] [DecidableEq T]

/-! ## Values -/

variable (st : Store V F S T) (s : S) (f : F)

/-- `llam_value_claim_locked` -/
def valueClaim (h : Handle V) : Except Errno (Store V F S T) :=
  match st.resolve (.value h.1) h.2 with
  | .error e => .error e
  | .ok o =>
    if o.publicOps != 0 then .error .EBUSY
    else if o.refs = sizeMax then .error .EBUSY
    else .ok (st.setObject (.value h.1) { o with refs := o.refs + 1, claimed := true })

/-- `llam_value_commit_claim` -/
def valueCommitClaim (v : V) (t : T) (call : Nat) : Exec V F S T :=
  match st.object (.value v) with
  | none => .aborted
  | some o =>
    if !o.claimed then .aborted
    else
      match o.unpublish.bind Object.drop with
      | none => .aborted
      | some o' =>
        .done ⟨(st.setObject (.value v) o').consumes (.value v) o.generation t call, [.announce s f], none, none⟩

/-- `llam_value_rollback_claim` -/
def valueRollbackClaim (v : V) (error : Option Errno) : Exec V F S T :=
  match st.object (.value v), st.futures f with
  | some o, some x =>
    if !o.claimed || !o.publicLive then .aborted
    else
      match { o with claimed := false }.dropKept with
      | none => .aborted
      | some o' =>
        .done ⟨(st.setObject (.value v) o').setFuture f { x with retracted := true }, [.rollbackSpawn s f], error, none⟩
  | _, _ => .aborted

/-- `llam_value_take_locked`: the error, or the store without the handle and the value that was taken. -/
def valueTake (h : Option (Handle V)) (expected : Descriptor) (t : T) (call : Nat) :
    Except Errno (Store V F S T × Option V) :=
  match h with
  | none => if expected.isUnit then .ok (st, none) else .error .EINVAL
  | some h =>
    match st.resolve (.value h.1) h.2, st.values h.1 with
    | .ok o, some x =>
      if x.type ≠ expected then .error .EINVAL
      else if o.publicOps != 0 then .error .EBUSY
      else
        -- the ownership reference of the handle moves to the caller
        .ok ((st.setObject (.value h.1) { o with publicLive := false, claimed := false }).consumes (.value h.1) o.generation
          t call, some h.1)
    | .error e, _ => .error e
    | _, none => .error .EINVAL

/-- `llam_value_data_ex` after its begin. -/
def valueData (v : V) (type : Descriptor) : Exec V F S T :=
  match st.values v with
  | none => .aborted
  | some x => .done ⟨st, [.endOp (.value v)], if x.type = type then none else some .EINVAL, none⟩

/-! ## Futures -/

/-- `llam_future_take_locked` -/
def futureTake (contract : Contract) (fails : Option Errno) (t : T) (call : Nat) : Exec V F S T :=
  match st.futures f with
  | none => .aborted
  | some x =>
    let fail (e : Errno) : Exec V F S T := .done ⟨st, [.endOp (.future f)], some e, none⟩
    -- the future loses its handle, after its result has got one
    let consume (st : Store V F S T) (x : Future V) : Exec V F S T :=
      match x.object.consume with
      | .ok (some o) =>
        .done ⟨(st.setFuture f { x with object := o, result := none }).consumes (.future f) x.object.generation t call,
          [.endOp (.future f)], none, none⟩
      | _ => .aborted
    if !x.object.publicLive then fail .EINVAL
    else if x.object.publicOps != 1 || x.object.claimed then fail .EBUSY
    else if x.contract ≠ contract then fail .EINVAL
    else if !x.ready then fail .EAGAIN
    else
      match x.result with
      | none => consume st x
      | some v =>
        match st.object (.value v) with
        | none => .aborted
        | some o =>
          match o.publish fails with
          | .error e => fail e
          | .ok o' => consume (st.setObject (.value v) o') x

/-- `llam_future_wait_until`: the first look at the future. -/
def futureAwaitReady : Exec V F S T :=
  match st.futures f with
  | none => .aborted
  | some x => .done ⟨st, [if x.ready then .awaitCheck f else .awaitDone f], none, none⟩

/-- The wait for the future's channel: it ends when the channel is closed, or with an error. -/
def futureAwaitDone (fails : Option Errno) : Exec V F S T :=
  match st.futures f with
  | none => .aborted
  | some x => if fails = none ∧ !x.doneClosed then .blocked else .done ⟨st, [.awaitCheck f], fails, none⟩

/-- The last look at the future: completion wins against a timeout. -/
def futureAwaitCheck (error : Option Errno) : Exec V F S T :=
  match st.futures f with
  | none => .aborted
  | some x => .done ⟨st, [.endOp (.future f)], if x.ready then none else some (error.getD Errno.EIO), none⟩

/-- One release of `llam_future_free`: the argument, then the result. -/
def futureFreeArgument (error : Option Errno) : Exec V F S T :=
  match st.futures f with
  | none => .aborted
  | some x =>
    match x.argument with
    | none => .done ⟨st, [.freeResult f], error, none⟩
    | some v => .done ⟨st.setFuture f { x with argument := none }, [.release (.value v), .freeResult f], error, none⟩

def futureFreeResult (error : Option Errno) : Exec V F S T :=
  match st.futures f with
  | none => .aborted
  | some x =>
    .done ⟨st.setFuture f { x with result := none, freed := true },
      match x.result with
      | none => []
      | some v => [.release (.value v)], error, none⟩

/-! ## Scopes -/

/-- `llam_scope_finish_closing_locked`: the report, and whether the scope was drained by this. -/
def Report.finishClosing (r : Report) : Report × Bool :=
  if r.state ≠ .CLOSING ∨ r.pendingTasks ≠ 0 ∨ r.activeSpawns ≠ 0 then (r, false)
  else ({ r with state := .DRAINED, quiescent := true }, true)

/-- An open scope stops admitting tasks. -/
def Report.close (r : Report) : Report := if r.state = .OPEN then { r with state := .CLOSING } else r

/-- Close the channel of the scope if it was drained. -/
def notification (notify : Bool) : List (Section V F S) := if notify then [.notifyScope s] else []

/-- `llam_structured_notify` for a scope; closing its channel may fail. -/
def notifyScope (fails error : Option Errno) : Exec V F S T :=
  match st.scopes s with
  | none => .aborted
  | some x =>
    if fails = none then .done ⟨st.setScope s { x with doneClosed := true }, [], error, none⟩
    else .done ⟨st, [], error, none⟩

/-- `llam_scope_cancel` after its begin. -/
def scopeCancel : Exec V F S T :=
  match st.scopes s with
  | none => .aborted
  | some x =>
    let (report, notify) := x.report.close.finishClosing
    .done ⟨st.setScope s { x with report := report }, [.requestCheck s (.cancel notify)], none, none⟩

/-- `llam_scope_request_cancel`: is the scope drained already? -/
def scopeRequestCheck (after : After) : Exec V F S T :=
  match st.scopes s with
  | none => .aborted
  | some x =>
    .done ⟨st, [if x.report.state = .DRAINED then .requestDone s after else .requestToken s after], none, none⟩

/-- `llam_scope_request_cancel`: cancel the token. -/
def scopeRequestToken (after : After) (fails : Option Errno) : Exec V F S T :=
  match st.scopes s with
  | none => .aborted
  | some x =>
    .done ⟨if fails = none then st.setScope s { x with tokenCancelled := true } else st, [.requestDone s after], fails, none⟩

/-- What a drain does when its cancellation request is through: it waits unless the scope is drained or the request failed. -/
def drainNext (ready : Bool) (error : Option Errno) : Section V F S :=
  if error = none ∧ ready = false then .drainWait s else .finishDrain s

/-- `llam_scope_request_cancel`: record the request, and go on with the cancel or the drain. -/
def scopeRequestDone (after : After) (error : Option Errno) : Exec V F S T :=
  match st.scopes s with
  | none => .aborted
  | some x =>
    let result := if x.report.state = .DRAINED then none else error
    let st' := if result = none then st.setScope s { x with report := { x.report with cancelRequested := true } } else st
    match after with
    | .cancel notify => .done ⟨st', notification s notify ++ [.endOp (.scope s)], result, none⟩
    | .drain ready => .done ⟨st', [drainNext s ready result], result, none⟩

/-- `llam_scope_begin_drain`; `own` says that the caller is a child of the scope. -/
def scopeBeginDrain (cancel own : Bool) : Exec V F S T :=
  match st.scopes s with
  | none => .aborted
  | some x =>
    if x.draining then .done ⟨st, [.endOp (.scope s)], some .EBUSY, none⟩
    else if own then .done ⟨st, [.endOp (.scope s)], some .EDEADLK, none⟩
    else
      let (report, notify) := x.report.close.finishClosing
      let ready := decide (report.state = .DRAINED)
      .done ⟨st.setScope s { x with draining := true, report := report },
        notification s notify ++ [if cancel then .requestCheck s (.drain ready) else drainNext s ready none], none, none⟩

/-- `llam_scope_cleanup_wait`: it ends when the channel of the scope is closed, or with an error. -/
def scopeCleanupWait (fails : Option Errno) : Exec V F S T :=
  match st.scopes s with
  | none => .aborted
  | some x => if fails = none ∧ !x.doneClosed then .blocked else .done ⟨st, [.finishDrain s], fails, none⟩

/-- `llam_scope_finish_drain` -/
def scopeFinishDrain (error : Option Errno) : Exec V F S T :=
  match st.scopes s with
  | none => .aborted
  | some x =>
    let result := if x.report.state = .DRAINED then none else some (error.getD Errno.EIO)
    .done ⟨st.setScope s { x with draining := false }, [.endOp (.scope s)], result, none⟩

/-- `llam_scope_destroy` after its begin. -/
def scopeDestroy (t : T) (call : Nat) : Exec V F S T :=
  match st.scopes s with
  | none => .aborted
  | some x =>
    if x.report.state ≠ .DRAINED ∨ x.draining then .done ⟨st, [.endOp (.scope s)], some .EBUSY, none⟩
    else structuredConsume st (.scope s) t call

/-! ## Spawning -/

/-- `llam_scope_spawn_ex` after its begin. -/
def scopeSpawnCheck (argument : Option (Handle V)) (contract : Contract) : Exec V F S T :=
  match st.scopes s with
  | none => .aborted
  | some x =>
    if x.report.state = .OPEN then .done ⟨st, [.prepare s argument contract], none, none⟩
    else .done ⟨st, [.endOp (.scope s)], some .EPIPE, none⟩

/-- `llam_future_prepare`: a published future with an operation of the spawn on it. -/
def futurePrepare (argument : Option (Handle V)) (contract : Contract) (env : Env F T) : Exec V F S T :=
  match env.fails, env.future with
  | some e, _ => .done ⟨st, [.endOp (.scope s)], some e, none⟩
  | none, none => .blocked
  | none, some f =>
    match st.futures f with
    | some _ => .blocked
    | none =>
      .done ⟨st.setFuture f
        { object := { Object.published with refs := 2, publicOps := 1 }, contract := contract, argument := none,
          result := none, discarded := none, kind := none, runtimeError := none, entryReturned := false, ready := false,
          doneClosed := false, announced := false, retracted := false, freed := false },
        [.reserve s f argument], none, none⟩

/-- One more task of the scope. -/
def Scope.reserve (x : Scope) : Scope :=
  { x with
    object := { x.object with refs := x.object.refs + 1 }
    report := { x.report with
      admittedTasks := x.report.admittedTasks + 1
      pendingTasks := x.report.pendingTasks + 1
      activeSpawns := x.report.activeSpawns + 1 } }

/-- Some counter of the reservation is at its limit. -/
def reserveOverflows (x : Scope) (y : Future V) : Bool :=
  x.report.admittedTasks == sizeMax || x.report.pendingTasks == sizeMax || x.report.activeSpawns == sizeMax ||
    x.object.refs == sizeMax || y.object.refs == sizeMax

/-- `llam_scope_reserve_spawn` -/
def scopeReserveSpawn (argument : Option (Handle V)) : Exec V F S T :=
  match st.scopes s, st.futures f with
  | some x, some y =>
    let fail (e : Errno) : Exec V F S T := .done ⟨st, [.consumeFailed s f], some e, none⟩
    let commit (st : Store V F S T) (v : Option V) : Exec V F S T :=
      .done ⟨(st.setScope s x.reserve).setFuture f
        { y with object := { y.object with refs := y.object.refs + 1 }, argument := v }, [.spawnTask s f v], none, none⟩
    if x.report.state ≠ .OPEN then fail .EPIPE
    else if reserveOverflows x y then fail .EOVERFLOW
    else
      match argument with
      | none => commit st none
      | some h =>
        match valueClaim st h with
        | .error e => fail e
        | .ok st' => commit st' (some h.1)
  | _, _ => .aborted

/-- `llam_runtime_spawn_scoped`: no task was started, or the task runs on a thread of its own. -/
def spawnScoped (argument : Option V) (env : Env F T) : Exec V F S T :=
  match env.fails, env.child with
  | some e, _ =>
    .done ⟨st, [match argument with
      | none => .rollbackSpawn s f
      | some v => .rollbackClaim s f v], some e, none⟩
  | none, none => .blocked
  | none, some child =>
    .done ⟨st, [match argument with
      | none => .announce s f
      | some v => .commitClaim s f v], none, some (child, f, s)⟩

/-- `*out` gets the handle of the future. -/
def announceFuture (error : Option Errno) : Exec V F S T :=
  match st.futures f with
  | none => .aborted
  | some y => .done ⟨st.setFuture f { y with announced := true }, [.finishSpawn s f false], error, none⟩

/-- `llam_scope_rollback_spawn` after the claim is rolled back. -/
def scopeRollbackSpawn (error : Option Errno) : Exec V F S T :=
  match st.scopes s, st.futures f with
  | some x, some y =>
    match x.object.dropKept, y.object.dropKept with
    | some xo, some yo =>
      .done ⟨(st.setScope s { x with
          object := xo
          report := { x.report with
            admittedTasks := x.report.admittedTasks - 1
            pendingTasks := x.report.pendingTasks - 1 } }).setFuture f
        { y with object := yo, argument := none, retracted := false }, [.finishSpawn s f true], error, none⟩
    | _, _ => .aborted
  | _, _ => .aborted

/-- `llam_scope_finish_spawn` -/
def scopeFinishSpawn (failed : Bool) (error : Option Errno) : Exec V F S T :=
  match st.scopes s with
  | none => .aborted
  | some x =>
    let (report, notify) := { x.report with activeSpawns := x.report.activeSpawns - 1 }.finishClosing
    .done ⟨st.setScope s { x with report := report },
      notification s notify ++
        if failed then [.consumeFailed s f] else [.endOp (.future f), .endOp (.scope s)], error, none⟩

/-- The future of a failed spawn gives up the handle that nobody has got; the spawn aborts if it cannot. -/
def scopeSpawnDiscard (error : Option Errno) : Exec V F S T :=
  match st.futures f with
  | none => .aborted
  | some y =>
    match y.object.consume with
    | .ok (some o) =>
      .done ⟨st.setFuture f { y with object := o }, [.endOp (.future f), .endOp (.scope s)], error, none⟩
    | _ => .aborted

/-! ## The task and its retirement -/

/-- `llam_task_set_outcome_ex` in the task of the future `f`. -/
def taskSetOutcome (kind : Kind) (value : Option (Handle V)) (t : T) (call : Nat) : Except Errno (Store V F S T) :=
  match st.futures f with
  | none => .error .ENOTSUP
  | some y =>
    if y.kind ≠ none then .error .EBUSY
    else if kind = .CANCELLED then .ok (st.setFuture f { y with kind := some kind })
    else
      match valueTake st value (if kind = .OK then y.contract.success else y.contract.error) t call with
      | .error e => .error e
      | .ok (st', v) => .ok (st'.setFuture f { y with kind := some kind, result := v })

/-- `llam_scoped_task_entry_returned` -/
def scopedEntryReturned (error : Option Errno) : Exec V F S T :=
  match st.futures f with
  | none => .aborted
  | some y => .done ⟨st.setFuture f { y with entryReturned := true }, [.prepareRetire s f], error, none⟩

/-- The outcome of a task that has set none, or that did not return. -/
def Future.settle (y : Future V) (cancelled : Bool) (fatal : Option Errno) : Future V :=
  if y.entryReturned && y.kind.isSome then y
  else
    let y := { y with discarded := y.result, result := none }
    match fatal with
    | some e => { y with kind := some .RUNTIME_ERROR, runtimeError := some e }
    | none =>
      if cancelled then { y with kind := some .CANCELLED }
      else if y.entryReturned && y.contract.success.isUnit then { y with kind := some .OK }
      else
        { y with
          kind := some .RUNTIME_ERROR
          runtimeError := some (if y.entryReturned then .EINVAL else .ECANCELED) }

/-- `llam_scoped_task_prepare_retire` -/
def scopedPrepareRetire (env : Env F T) (error : Option Errno) : Exec V F S T :=
  match st.futures f with
  | none => .aborted
  | some y => .done ⟨st.setFuture f (y.settle env.cancelled env.fatal), [.releaseInputs s f], error, none⟩

/-- The releases of what was in a slot. -/
def releaseSlot (v : Option V) : List (Section V F S) := v.toList.map fun v => .release (.value v)

/-- `llam_scoped_release_inputs` -/
def scopedReleaseInputs (error : Option Errno) : Exec V F S T :=
  match st.futures f with
  | none => .aborted
  | some y =>
    .done ⟨st.setFuture f { y with argument := none, discarded := none },
      releaseSlot y.argument ++ releaseSlot y.discarded ++ [.publish s f], error, none⟩

/-- `llam_scope_account_completion_locked`; `none` is `abort()`. -/
def Report.accountCompletion (r : Report) (kind : Option Kind) (runtimeError : Option Errno) : Option Report :=
  match r.pendingTasks, kind with
  | n + 1, some .OK => some { r with pendingTasks := n, succeeded := r.succeeded + 1 }
  | n + 1, some .APP_ERROR => some { r with pendingTasks := n, applicationErrors := r.applicationErrors + 1 }
  | n + 1, some .CANCELLED => some { r with pendingTasks := n, cancelled := r.cancelled + 1 }
  | n + 1, some .RUNTIME_ERROR =>
    some { r with
      pendingTasks := n
      runtimeErrors := r.runtimeErrors + 1
      runtimeError := if r.runtimeError = none then runtimeError else r.runtimeError }
  | _, _ => none

/-- `llam_scoped_publish_completion`: a result that nobody can take any more is released first. -/
def scopedPublish (error : Option Errno) : Exec V F S T :=
  match st.scopes s, st.futures f with
  | some x, some y =>
    match y.object.publicLive, y.result with
    | false, some v =>
      .done ⟨st.setFuture f { y with result := none }, [.release (.value v), .publish s f], error, none⟩
    | _, _ =>
      match x.report.accountCompletion y.kind y.runtimeError with
      | none => .aborted
      | some report =>
        let (report, notify) := report.finishClosing
        .done ⟨(st.setFuture f { y with ready := true }).setScope s { x with report := report },
          .notifyFuture f :: notification s notify ++ [.release (.scope s), .release (.future f)], error, none⟩
  | _, _ => .aborted

/-- `llam_structured_notify` for a future. -/
def notifyFuture (fails error : Option Errno) : Exec V F S T :=
  match st.futures f with
  | none => .aborted
  | some y =>
    if fails = none then .done ⟨st.setFuture f { y with doneClosed := true }, [], error, none⟩
    else .done ⟨st, [], error, none⟩

/-! ## The system -/

/-- Perform the topmost section of a thread. -/
def exec (t : T) (th : Thread V F S) (env : Env F T) : Section V F S → Exec V F S T
  | .endOp r => structuredEnd st r th.error
  | .release r => structuredRelease st r th.error
  | .freeArgument f => futureFreeArgument st f th.error
  | .freeResult f => futureFreeResult st f th.error
  | .consume r => structuredConsume st r t th.calls
  | .valueType v type => valueData st v type
  | .awaitReady f => futureAwaitReady st f
  | .awaitDone f => futureAwaitDone st f env.fails
  | .awaitCheck f => futureAwaitCheck st f th.error
  | .take f contract => futureTake st f contract env.fails t th.calls
  | .destroy s => scopeDestroy st s t th.calls
  | .cancelClose s => scopeCancel st s
  | .requestCheck s after => scopeRequestCheck st s after
  | .requestToken s after => scopeRequestToken st s after env.fails
  | .requestDone s after => scopeRequestDone st s after th.error
  | .notifyScope s => notifyScope st s env.fails th.error
  | .beginDrain s cancel => scopeBeginDrain st s cancel (th.completion.any fun c => c.2 = s)
  | .drainWait s => scopeCleanupWait st s env.fails
  | .finishDrain s => scopeFinishDrain st s th.error
  | .spawnCheck s argument contract => scopeSpawnCheck st s argument contract
  | .prepare s argument contract => futurePrepare st s argument contract env
  | .reserve s f argument => scopeReserveSpawn st s f argument
  | .spawnTask s f argument => spawnScoped st s f argument env
  | .commitClaim s f v => valueCommitClaim st s f v t th.calls
  | .announce s f => announceFuture st s f th.error
  | .rollbackClaim s f v => valueRollbackClaim st s f v th.error
  | .rollbackSpawn s f => scopeRollbackSpawn st s f th.error
  | .finishSpawn s f failed => scopeFinishSpawn st s f failed th.error
  | .consumeFailed s f => scopeSpawnDiscard st s f th.error
  | .entryReturned s f => scopedEntryReturned st s f th.error
  | .prepareRetire s f => scopedPrepareRetire st s f env th.error
  | .releaseInputs s f => scopedReleaseInputs st s f th.error
  | .publish s f => scopedPublish st s f th.error
  | .notifyFuture f => notifyFuture st f env.fails th.error

/-- The arguments a call checks before it looks at any object. -/
def Call.validate : Call V F S → Bool
  | .valueCreate _ type => type.validate
  | .valueData _ type => type.validate
  | .scopeSpawn _ _ contract => contract.validate
  | .setOutcome kind value => kind != .RUNTIME_ERROR && !(kind == .CANCELLED && value.isSome)
  | .futureTake _ contract => contract.validate
  | _ => true

/-- The handle a call begins an operation on, and the section that follows. -/
def Call.target : Call V F S → Option (Ref V F S × Nat × Section V F S)
  | .valueCreate _ _ => none
  | .scopeCreate _ => none
  | .setOutcome _ _ => none
  | .valueData h type => some (.value h.1, h.2, .valueType h.1 type)
  | .valueRelease h => some (.value h.1, h.2, .consume (.value h.1))
  | .scopeSpawn h argument contract => some (.scope h.1, h.2, .spawnCheck h.1 argument contract)
  | .futureWait h => some (.future h.1, h.2, .awaitReady h.1)
  | .futureTake h contract => some (.future h.1, h.2, .take h.1 contract)
  | .futureRelease h => some (.future h.1, h.2, .consume (.future h.1))
  | .scopeReport h => some (.scope h.1, h.2, .endOp (.scope h.1))
  | .scopeCancel h => some (.scope h.1, h.2, .cancelClose h.1)
  | .scopeDrain h cancel => some (.scope h.1, h.2, .beginDrain h.1 cancel)
  | .scopeDestroy h => some (.scope h.1, h.2, .destroy h.1)

/-- Go on with `todo`; a thread with nothing left to do has returned from its call. -/
def Thread.proceed (th : Thread V F S) (todo : List (Section V F S)) (error : Option Errno) : Thread V F S :=
  match todo with
  | [] => { th with todo := [], call := none, error := error, last := (th.call.map fun c => (c, error)).or th.last }
  | m :: rest => { th with todo := m :: rest, error := error }

/-- A new call. -/
def Thread.enter (th : Thread V F S) (c : Call V F S) : Thread V F S :=
  { th with call := some c, calls := th.calls + 1, error := none }

/-- The owner of an object may refuse the call; values have no owner. -/
def ownerRefuses (r : Ref V F S) (fails : Option Errno) : Option Errno :=
  match r with
  | .value _ => none
  | _ => fails

/-- The first section of a call: the store after it, what is left to do, and the result so far. `none`: the allocator
does not give out storage that is in use. -/
def firstSection (t : T) (th : Thread V F S) (c : Call V F S) (env : Env F T) :
    Option (Store V F S T × List (Section V F S) × Option Errno) :=
  if !c.validate then some (st, [], some .EINVAL)
  else
    match c with
    | .valueCreate v type =>
      match st.values v, env.fails with
      | some _, _ => none
      | none, some e => some (st, [], some e)
      | none, none => some (st.setValue v ⟨.published, type⟩, [], none)
    | .scopeCreate s =>
      match st.scopes s, env.fails with
      | some _, _ => none
      | none, some e => some (st, [], some e)
      | none, none => some (st.setScope s .allocate, [], none)
    | .setOutcome kind value =>
      match th.completion with
      | none => some (st, [], some .ENOTSUP)
      | some (f, _) =>
        match taskSetOutcome st f kind value t th.calls with
        | .error e => some (st, [], some e)
        | .ok st' => some (st', [], none)
    | c =>
      match c.target with
      | none => none
      | some (r, generation, first) =>
        match st.begin r generation with
        | .error e => some (st, [], some e)
        | .ok st' =>
          match ownerRefuses r env.fails with
          | some e => some (st', [.endOp r], some e)
          | none => some (st', [first], none)

inductive Action (V F S T : Type)
  | call (t : T) (c : Call V F S) (env : Env F T)
  | run (t : T) (env : Env F T)
  | exit (t : T) (returned : Bool)

/-- Start the task of `f` on a thread. -/
def Thread.launch (th : Thread V F S) (f : F) (s : S) : Thread V F S :=
  { th with alive := true, completion := some (f, s) }

/-- A thread runs no task and nothing else. -/
def Thread.unused (th : Thread V F S) : Bool := !th.alive && th.todo.isEmpty && th.completion.isNone

def State.setThread (s : State V F S T) (t : T) (th : Thread V F S) : State V F S T :=
  { s with threads := Function.update s.threads t th }

/-- The threads after a section: a started task is on its own thread. -/
def State.resume (s : State V F S T) (t : T) (rest : List (Section V F S)) (e : Effect V F S T) : Option (State V F S T) :=
  let s' := { s with store := e.store }.setThread t ((s.threads t).proceed (e.push ++ rest) e.error)
  match e.child with
  | none => some s'
  | some (child, f, sc) =>
    if (s.threads child).unused then some (s'.setThread child ((s.threads child).launch f sc)) else none

def step (s : State V F S T) : Action V F S T → Option (State V F S T)
  | .call t c env =>
    let th := s.threads t
    if !th.alive || !th.todo.isEmpty then none
    else
      match firstSection s.store t (th.enter c) c env with
      | none => none
      | some (st, todo, error) => some ({ s with store := st }.setThread t ((th.enter c).proceed todo error))
  | .run t env =>
    match (s.threads t).todo with
    | [] => none
    | m :: rest =>
      match exec s.store t (s.threads t) env m with
      | .blocked => none
      | .aborted => some { s with aborted := true }
      | .done e => s.resume t rest e
  | .exit t returned =>
    let th := s.threads t
    match th.alive, th.todo, th.completion with
    | true, [], some (f, sc) =>
      some (s.setThread t { th with
        alive := false, completion := none, todo := [if returned then .entryReturned sc f else .prepareRetire sc f] })
    | _, _, _ => none

/-- Nothing is allocated; some threads may call. -/
def State.init (alive : T → Bool) : State V F S T where
  store := ⟨fun _ => none, fun _ => none, fun _ => none, []⟩
  threads := fun t => ⟨alive t, none, [], none, none, 0, none⟩
  aborted := false

end Llam.Structured
