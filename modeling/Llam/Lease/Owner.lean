import Llam.Basic

/-!
# Processor ownership: the lease, its projection and the worker field

Who executes on a processor P is stored three times: in the execution lease of its shard, in the processor's owner record
and in the `current_p` field of the owning worker. `composePairLocked` projects the lease to the other two, or refuses
and changes nothing (`runtime_state.h`). A ticket is a copy of the owner record that is compared field by field later.

`P` and `W` are the processors and the workers of one runtime. What the runtime fixes before it starts a thread is in
`Config`; the lock checks, which fail only for storage that was never initialised, are left out.
-/

namespace Llam.Lease

open Function

/-! ## Data -/

/-- `llam_execution_lease_mode_t`. -/
inductive Mode
  | legacy | registered
  deriving DecidableEq, Repr

/-- `llam_worker_role_t`. -/
inductive Role
  | primary | opaqueHelper | managed | nativeAffine | legacyCompat
  deriving DecidableEq, Repr

/-- `llam_legacy_lease_state_t`. -/
inductive LeaseState
  | primaryOwned | transferToHelper | helperOwned | transferToPrimary | redirectedNoExecutor | stopping
  | registeredFree | registeredOwned
  deriving DecidableEq, Repr

/-- `llam_processor_owner_state_t`. -/
inductive OwnerState
  | free | owned | transferring | stopping
  deriving DecidableEq, Repr

/-- `llam_legacy_lease_t`. -/
structure LegacyLease (W : Type) where
  owner : Option W
  ownerIncarnation : Nat
  epoch : Nat
  returnWorker : Option W
  returnIncarnation : Nat
  transferSequence : Nat
  handbackAckSequence : Nat
  state : LeaseState
  deriving DecidableEq

/-- `llam_processor_owner_record_t`. -/
structure OwnerRecord (W : Type) where
  ownerM : Option W
  workerIncarnation : Nat
  leaseProjectionEpoch : Nat
  pGeneration : Nat
  leaseState : LeaseState
  state : OwnerState
  deriving DecidableEq

/-- `llam_processor_owner_ticket_t`. -/
structure Ticket (P W : Type) where
  processor : P
  ownerM : W
  workerIncarnation : Nat
  leaseProjectionEpoch : Nat
  pGeneration : Nat
  leaseState : LeaseState
  state : OwnerState
  deriving DecidableEq

/-- The ownership fields of `llam_worker_t`. -/
structure Worker (P : Type) where
  currentP : Option P
  incarnation : Nat
  bindingIncarnation : Nat
  nativeThreadLive : Bool
  asyncPreemptTicketLeaseEpoch : Nat
  asyncPreemptTicketGeneration : Nat

/-- The ownership fields of `llam_shard_t` and its processor. -/
structure Shard (W : Type) where
  lease : LegacyLease W
  ownerRecord : OwnerRecord W
  online : Bool
  mergePauseRequested : Bool

structure Runtime (P W : Type) where
  shards : P → Shard W
  workers : W → Worker P
  shutdownRequested : Bool

/-- What is immutable once the runtime is initialised. -/
structure Config (P W : Type) where
  mode : Mode
  registered : W → Bool
  role : W → Role
  managedPolicyPools : Bool
  portable : P → Bool
  home : W → P
  primaryWorker : P → W
  opaqueHelperWorker : P → W

variable {P W : Type} [DecidableEq P] [DecidableEq W]

variable (cfg : Config P W) (rt : Runtime P W) (p : P)

def Runtime.setLease (lease : LegacyLease W) : Runtime P W :=
  { rt with shards := update rt.shards p { rt.shards p with lease := lease } }

def Runtime.setRecord (record : OwnerRecord W) : Runtime P W :=
  { rt with shards := update rt.shards p { rt.shards p with ownerRecord := record } }

def Runtime.setWorker (w : W) (worker : Worker P) : Runtime P W :=
  { rt with workers := update rt.workers w worker }

def Runtime.setCurrentP (w : W) (p : Option P) : Runtime P W :=
  rt.setWorker w { rt.workers w with currentP := p }

/-! ## Predicates -/

/-- `llam_worker_can_own_processor`. -/
def Config.canOwn (w : W) (p : P) : Bool :=
  match cfg.mode with
  | .registered =>
    cfg.registered w && (!cfg.managedPolicyPools || (!cfg.portable p) == (cfg.role w == .legacyCompat))
  | .legacy =>
    cfg.home w = p && ((w = cfg.primaryWorker p && cfg.role w = .primary) ||
      (w = cfg.opaqueHelperWorker p && cfg.role w = .opaqueHelper))

/-- `llam_worker_binding_live`. -/
def Worker.bindingLive (worker : Worker P) (incarnation : Nat) : Bool :=
  incarnation ≠ 0 && worker.nativeThreadLive && worker.incarnation = incarnation &&
    worker.bindingIncarnation = incarnation

/-- `llam_execution_lease_state_owned`. -/
def LeaseState.isOwned : LeaseState → Bool
  | .primaryOwned | .helperOwned | .registeredOwned => true
  | _ => false

/-- `llam_execution_lease_state_matches`. -/
def LeaseState.matchesMode : Mode → LeaseState → Bool
  | .legacy, .registeredFree | .legacy, .registeredOwned => false
  | .legacy, _ => true
  | .registered, .registeredFree | .registered, .registeredOwned | .registered, .stopping => true
  | .registered, _ => false

/-- `llam_processor_owner_record_well_formed`. -/
def OwnerRecord.wellFormed (record : OwnerRecord W) : Bool :=
  match record.state with
  | .free => record.ownerM = none && record.workerIncarnation = 0
  | .owned => record.ownerM ≠ none && record.workerIncarnation ≠ 0
  | .stopping => (record.ownerM = none && record.workerIncarnation = 0) ||
      (record.ownerM ≠ none && record.workerIncarnation ≠ 0)
  | .transferring => false

/-! ## Composing the projection -/

/-- The owner the lease names may be projected to `p`. -/
def ownerAdmissible (lease : LegacyLease W) : Bool :=
  match lease.owner with
  | some w =>
    cfg.canOwn w p && lease.ownerIncarnation ≠ 0 && (rt.workers w).bindingLive lease.ownerIncarnation &&
      ((rt.workers w).currentP = none || (rt.workers w).currentP = some p)
  | none => lease.ownerIncarnation = 0

/-- The owner state a lease projects to; `none` when its state and its owner do not fit. -/
def desiredState (lease : LegacyLease W) : Option OwnerState :=
  match lease.state with
  | .registeredOwned => if lease.owner = none then none else some .owned
  | .primaryOwned | .helperOwned | .transferToHelper | .transferToPrimary =>
    some (if lease.owner = none then .free else .owned)
  | .redirectedNoExecutor | .registeredFree => if lease.owner = none then some .free else none
  | .stopping => some .stopping

/-- `current_p_mismatch`: some worker's `current_p` has to change. -/
def currentPMismatch : Bool :=
  let desired := (rt.shards p).lease.owner
  let previous := (rt.shards p).ownerRecord.ownerM
  (match desired with
    | some w => decide ((rt.workers w).currentP ≠ some p)
    | none => false) ||
  (match previous with
    | some w => decide (some w ≠ desired) && cfg.canOwn w p && decide ((rt.workers w).currentP = some p)
    | none => false) ||
  (cfg.mode ≠ .registered && desired ≠ some (cfg.primaryWorker p) &&
    (rt.workers (cfg.primaryWorker p)).currentP = some p) ||
  (cfg.mode ≠ .registered && desired ≠ some (cfg.opaqueHelperWorker p) &&
    (rt.workers (cfg.opaqueHelperWorker p)).currentP = some p)

/-- The record of `p` differs from what the lease projects to. -/
def projectionChanged (desired : OwnerState) : Bool :=
  let lease := (rt.shards p).lease
  let current := (rt.shards p).ownerRecord
  !current.wellFormed || current.ownerM ≠ lease.owner || current.workerIncarnation ≠ lease.ownerIncarnation ||
    current.leaseProjectionEpoch ≠ lease.epoch || current.leaseState ≠ lease.state || current.state ≠ desired ||
    currentPMismatch cfg rt p

/-- `retiring_owner`: at the last generation only the owner that is there may enter `STOPPING`. -/
def retiringOwner (desired : OwnerState) : Bool :=
  let lease := (rt.shards p).lease
  let current := (rt.shards p).ownerRecord
  match lease.owner with
  | some w =>
    cfg.mode = .registered && current.pGeneration = sizeMax - 1 && desired = .stopping && current.state = .owned &&
      current.leaseState = .registeredOwned && current.ownerM = some w &&
      current.workerIncarnation = lease.ownerIncarnation && current.leaseProjectionEpoch = lease.epoch &&
      (rt.workers w).currentP = some p && rt.shutdownRequested
  | none => false

/-- Revoke the advisory ticket of one mirrored worker, and its `current_p` unless it is the new owner. -/
def clearMirror (desired : Option W) (rt : Runtime P W) : Option W → Runtime P W
  | none => rt
  | some w =>
    if !cfg.canOwn w p then rt
    else if some w ≠ desired && (rt.workers w).currentP ≠ some p then rt
    else rt.setWorker w { rt.workers w with
      currentP := if some w ≠ desired then none else (rt.workers w).currentP
      asyncPreemptTicketLeaseEpoch := 0
      asyncPreemptTicketGeneration := 0 }

/-- The record that replaces the current one. -/
def projectedRecord (current : OwnerRecord W) (lease : LegacyLease W) (desired : OwnerState) (retiring : Bool) :
    OwnerRecord W where
  ownerM := lease.owner
  workerIncarnation := lease.ownerIncarnation
  leaseProjectionEpoch := lease.epoch
  pGeneration := if current.pGeneration ≠ sizeMax && !retiring then current.pGeneration + 1 else current.pGeneration
  leaseState := lease.state
  state := desired

/-- The mutating tail of `llam_processor_owner_compose_pair_locked`. -/
def commitProjection (desired : OwnerState) (retiring : Bool) : Runtime P W :=
  let lease := (rt.shards p).lease
  let current := (rt.shards p).ownerRecord
  let mirrors := [current.ownerM, lease.owner, some (cfg.primaryWorker p), some (cfg.opaqueHelperWorker p)]
  let record := projectedRecord current lease desired retiring
  let rt := (mirrors.foldl (clearMirror cfg p lease.owner) rt).setRecord p record
  match lease.owner with
  | none => rt
  | some w => rt.setWorker w { rt.workers w with
      asyncPreemptTicketLeaseEpoch := lease.epoch
      asyncPreemptTicketGeneration := record.pGeneration
      currentP := some p }

/-- `llam_processor_owner_compose_pair_locked`; `none` when it refuses, which it does before it writes anything. -/
def composePairLocked : Option (Runtime P W) :=
  let lease := (rt.shards p).lease
  let current := (rt.shards p).ownerRecord
  if !lease.state.matchesMode cfg.mode || !ownerAdmissible cfg rt p lease then none
  else match desiredState lease with
    | none => none
    | some desired =>
      if !current.wellFormed && lease.owner ≠ none then none
      else if !projectionChanged cfg rt p desired then some rt
      else
        let lastGeneration := lease.owner ≠ none && sizeMax - 1 ≤ current.pGeneration
        let retiring := lastGeneration && retiringOwner cfg rt p desired
        if lastGeneration && !retiring then none
        else some (commitProjection cfg rt p desired retiring)

/-! ## Tickets -/

/-- `llam_processor_owner_ticket_snapshot_pair_locked`. -/
def ticketSnapshot : Option (Ticket P W) :=
  let shard := rt.shards p
  let record := shard.ownerRecord
  let lease := shard.lease
  match record.ownerM with
  | none => none
  | some w =>
    if shard.online && lease.state.matchesMode cfg.mode && !rt.shutdownRequested && record.wellFormed &&
        record.state = .owned && record.pGeneration ≠ 0 && record.pGeneration ≠ sizeMax &&
        record.workerIncarnation ≠ 0 && record.leaseState = lease.state &&
        record.leaseProjectionEpoch = lease.epoch && lease.owner = some w &&
        record.workerIncarnation = lease.ownerIncarnation && lease.state.isOwned && cfg.canOwn w p &&
        (rt.workers w).currentP = some p && (rt.workers w).bindingLive record.workerIncarnation then
      some ⟨p, w, record.workerIncarnation, record.leaseProjectionEpoch, record.pGeneration, record.leaseState,
        record.state⟩
    else none

/-- `llam_processor_owner_ticket_validate_pair_locked`. -/
def ticketValidate (ticket : Ticket P W) : Bool :=
  ticketSnapshot cfg rt p = some ticket

end Llam.Lease
