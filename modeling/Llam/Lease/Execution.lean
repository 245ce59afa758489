import Llam.Lib.Run
import Llam.Lease.Owner

/-!
# Claiming, draining, returning and stopping a processor

The steps of `execution_lease.c`, the stop steps of `scheduler.c` and `shutdown.c`, and the worker binding of
`worker_registry.c`. Each is one section with both ownership locks of its shard held. A step returns the new runtime and
whether it committed; a step that has written something before its projection is refused writes it back, as the source
does.

`Caller` holds what the thread-local checks of the calling thread answer. Processors go online and offline and merge
pauses come and go as steps of their own.
-/

namespace Llam.Lease

open Function

variable {P W : Type} [DecidableEq P] [DecidableEq W]

/-- What the calling native thread is: `native` says that it is the worker's thread with no task on it
(`g_llam_tls_worker`, `g_llam_tls_task`, `active_g`, `pthread_equal`), `scheduler` that the worker's `execution_state` is
`LLAM_WORKER_EXEC_SCHEDULER`. -/
structure Caller where
  native : Bool
  scheduler : Bool

variable (cfg : Config P W) (rt : Runtime P W) (p : P) (w : W) (incarnation : Nat)

/-- `llam_execution_lease_native_owner`. -/
def nativeOwner (caller : Caller) : Bool :=
  cfg.mode = .registered && cfg.registered w && caller.native && (rt.workers w).bindingLive incarnation

/-- No worker owns the lease and none waits to get it back. -/
def LegacyLease.vacant (lease : LegacyLease W) : Bool :=
  lease.owner = none && lease.ownerIncarnation = 0 && lease.returnWorker = none && lease.returnIncarnation = 0

/-- The common tail of both claims: reserve the worker, write the lease, compose, and undo both when that is refused. -/
def grant (state : LeaseState) : Runtime P W × Bool :=
  let before := (rt.shards p).lease
  if (rt.workers w).currentP ≠ none then (rt, false)
  else
    let rt := (rt.setCurrentP w (some p)).setLease p { before with
      owner := some w
      ownerIncarnation := incarnation
      epoch := before.epoch + 1
      state := state }
    match composePairLocked cfg rt p with
    | some rt => (rt, true)
    | none => ((rt.setLease p before).setCurrentP w none, false)

/-- `llam_execution_lease_claim_locked`. -/
def claimLocked (caller : Caller) : Runtime P W × Bool :=
  let shard := rt.shards p
  let lease := shard.lease
  let record := shard.ownerRecord
  if !nativeOwner cfg rt w incarnation caller || !shard.online || rt.shutdownRequested || shard.mergePauseRequested ||
      !caller.scheduler then (rt, false)
  else if lease.state ≠ .registeredFree || !lease.vacant || sizeMax - 1 ≤ lease.epoch || record.state ≠ .free ||
      record.ownerM ≠ none || sizeMax - 1 ≤ record.pGeneration then (rt, false)
  else grant cfg rt p w incarnation .registeredOwned

/-- `llam_execution_lease_claim_drain_locked`. -/
def claimDrainLocked (caller : Caller) : Runtime P W × Bool :=
  let lease := (rt.shards p).lease
  let record := (rt.shards p).ownerRecord
  if !nativeOwner cfg rt w incarnation caller || !rt.shutdownRequested || !caller.scheduler then (rt, false)
  else if (lease.state ≠ .stopping && lease.state ≠ .registeredFree) || !lease.vacant || sizeMax - 1 ≤ lease.epoch ||
      !record.wellFormed || record.ownerM ≠ none || record.workerIncarnation ≠ 0 || record.leaseState ≠ lease.state ||
      record.leaseProjectionEpoch ≠ lease.epoch ||
      record.state ≠ (if lease.state = .stopping then OwnerState.stopping else .free) ||
      sizeMax - 1 ≤ record.pGeneration then (rt, false)
  else grant cfg rt p w incarnation .stopping

/-- The record names `w` as the owner in state `state`, as the lease does. -/
def OwnerRecord.names (record : OwnerRecord W) (lease : LegacyLease W) (w : W) (incarnation : Nat)
    (state : OwnerState) : Bool :=
  record.wellFormed && record.state = state && record.ownerM = some w && record.workerIncarnation = incarnation &&
    record.leaseState = lease.state && record.leaseProjectionEpoch = lease.epoch

/-- The stop flag may precede the `STOPPING` projection: the owner itself projects it before it drains. `none` when the
projection is refused. -/
def closeStopGap : Option (Runtime P W) :=
  let lease := (rt.shards p).lease
  if lease.state = .registeredOwned && rt.shutdownRequested then
    if !(rt.shards p).ownerRecord.names lease w incarnation .owned then none
    else composePairLocked cfg (rt.setLease p { lease with state := .stopping }) p
  else some rt

/-- The last part of `llam_execution_lease_return_locked`: clear the owner and compose. -/
def clearOwner : Runtime P W × Bool :=
  let before := (rt.shards p).lease
  let rt := rt.setLease p { before with
    owner := none
    ownerIncarnation := 0
    epoch := if before.epoch ≠ sizeMax then before.epoch + 1 else before.epoch
    state := if before.state ≠ .stopping then .registeredFree else .stopping }
  match composePairLocked cfg rt p with
  | some rt => (rt, true)
  | none => (rt.setLease p before, false)

/-- `llam_execution_lease_return_locked`; without a ticket it is the drain return of a stopping runtime. -/
def returnLocked (ticket : Option (Ticket P W)) (caller : Caller) : Runtime P W × Bool :=
  let incarnation := (rt.workers w).bindingIncarnation
  let lease := (rt.shards p).lease
  if !cfg.registered w || !nativeOwner cfg rt w incarnation caller then (rt, false)
  else if lease.owner ≠ some w || lease.ownerIncarnation ≠ incarnation || (rt.workers w).currentP ≠ some p then
    (rt, false)
  else match ticket with
    | some ticket =>
      if lease.state ≠ .registeredOwned || !ticketValidate cfg rt p ticket then (rt, false)
      else clearOwner cfg rt p
    | none =>
      match closeStopGap cfg rt p w incarnation with
      | none => (rt, false)
      | some rt =>
        let lease := (rt.shards p).lease
        if lease.state ≠ .stopping || !rt.shutdownRequested ||
            !(rt.shards p).ownerRecord.names lease w incarnation .stopping then (rt, false)
        else clearOwner cfg rt p

/-- `llam_legacy_lease_compose_or_restore`, after the lease of `p` was written. -/
def composeOrRestore (before : LegacyLease W) : Runtime P W × Bool :=
  match composePairLocked cfg rt p with
  | some rt => (rt, true)
  | none => (rt.setLease p before, false)

/-- `llam_legacy_lease_begin_stop_locked`. -/
def beginStopLocked : Runtime P W × Bool :=
  let before := (rt.shards p).lease
  composeOrRestore cfg (rt.setLease p { before with state := .stopping }) p before

/-- `llam_legacy_lease_finalize_stop_locked`. -/
def finalizeStopLocked : Runtime P W × Bool :=
  composeOrRestore cfg (rt.setLease p ⟨none, 0, 0, none, 0, 0, 0, .stopping⟩) p (rt.shards p).lease

/-- `llam_worker_bind_registered`, once its thread-local checks and its native setup have passed. -/
def bindRegistered : Runtime P W × Bool :=
  let worker := rt.workers w
  if cfg.registered w && cfg.mode = .registered && !rt.shutdownRequested && !worker.nativeThreadLive &&
      worker.currentP = none && worker.incarnation < sizeMax - 1 then
    (rt.setWorker w { worker with
      incarnation := worker.incarnation + 1
      bindingIncarnation := worker.incarnation + 1
      nativeThreadLive := true }, true)
  else (rt, false)

/-- `llam_worker_unbind_registered`. -/
def unbindRegistered : Runtime P W × Bool :=
  let worker := rt.workers w
  if cfg.registered w && worker.currentP = none && worker.nativeThreadLive then
    (rt.setWorker w { worker with nativeThreadLive := false, bindingIncarnation := 0 }, true)
  else (rt, false)

/-! ## Runs -/

/-- The steps of a runtime, with their arguments. -/
inductive Action (P W : Type)
  | claim (p : P) (w : W) (incarnation : Nat) (caller : Caller)
  | claimDrain (p : P) (w : W) (incarnation : Nat) (caller : Caller)
  | giveBack (p : P) (w : W) (ticket : Option (Ticket P W)) (caller : Caller)
  | requestShutdown
  | beginStop (p : P)
  | finalizeStop (p : P)
  | bind (w : W)
  | unbind (w : W)
  | setOnline (p : P) (online : Bool)
  | setMergePause (p : P) (requested : Bool)

/-- Perform one step: the new runtime and whether it committed. -/
def perform : Action P W → Runtime P W × Bool
  | .claim p w incarnation caller => claimLocked cfg rt p w incarnation caller
  | .claimDrain p w incarnation caller => claimDrainLocked cfg rt p w incarnation caller
  | .giveBack p w ticket caller => returnLocked cfg rt p w ticket caller
  | .requestShutdown => ({ rt with shutdownRequested := true }, true)
  | .beginStop p => beginStopLocked cfg rt p
  | .finalizeStop p => finalizeStopLocked cfg rt p
  | .bind w => bindRegistered cfg rt w
  | .unbind w => unbindRegistered cfg rt w
  | .setOnline p online =>
    ({ rt with shards := update rt.shards p { rt.shards p with online := online } }, true)
  | .setMergePause p requested =>
    ({ rt with shards := update rt.shards p { rt.shards p with mergePauseRequested := requested } }, true)

/-- The runtime after one step, as a step function of runs. -/
def step (a : Action P W) : Option (Runtime P W) := some (perform cfg rt a).1

/-- A runtime after `llam_runtime_init`: `llam_legacy_lease_init` has run, nothing is projected yet. -/
def Runtime.init : Runtime P W where
  shards _ :=
    { lease := ⟨none, 0, 0, none, 0, 0, 0,
        if cfg.mode = .registered then .registeredFree else .redirectedNoExecutor⟩
      ownerRecord := ⟨none, 0, 0, 0, .redirectedNoExecutor, .free⟩
      online := false
      mergePauseRequested := false }
  workers _ := ⟨none, 0, 0, false, 0, 0⟩
  shutdownRequested := false

end Llam.Lease
