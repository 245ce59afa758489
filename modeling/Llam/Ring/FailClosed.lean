import Llam.Broker.TaskSlots
import Llam.Ring.Submission

/-!
# Submissions fail closed

A submission writes only its output window, leaves zeros there when it fails, and leaves the tables of the broker as they
were (`ring_operations_fail_closed`). The exception is a join or detach that finds its task completed: the slot of the task
is free before the result, or the task of the runtime, turns out to be an error.
-/

namespace Llam.Ring

open Llam.Lib Llam.Broker Function Control

variable {n : Nat} {offset : UInt64}

/-! ## Windows -/

theorem dataRange_some {length : UInt64} {w : Nat × Nat} (h : dataRange offset length = some w) :
    w = (offset.toNat, length.toNat) ∧ offset.toNat + length.toNat ≤ 4096 := by
  unfold dataRange at h
  split at h
  · cases h
  split at h
  · cases h
  rename_i hrange
  rw [not_or, UInt64.not_lt, UInt64.not_lt] at hrange
  have hsum : (offset + length).toNat = (offset.toNat + length.toNat) % 2 ^ 64 := UInt64.toNat_add offset length
  have hlength := length.toNat_lt
  have hle : offset.toNat ≤ (offset + length).toNat := UInt64.le_iff_toNat_le.mp hrange.1
  have hbound : (offset + length).toNat ≤ 4096 := UInt64.le_iff_toNat_le.mp hrange.2
  refine ⟨(Option.some.inj h).symm, ?_⟩
  omega

theorem output_le {sub : Submission} {offset length : Nat} (h : sub.output = some (offset, length)) :
    offset + length ≤ 4096 := by
  have hrange : ∀ {offset' length' : UInt64}, dataRange offset' length' = some (offset, length) → offset + length ≤ 4096 := by
    intro offset' length' h
    obtain ⟨hw, hle⟩ := dataRange_some h
    obtain ⟨rfl, rfl⟩ := Prod.mk.inj hw
    exact hle
  unfold Submission.output at h
  split at h <;> first | exact hrange h | cases h

/-- `d'` differs from `d` in the window only. -/
def WritesWithin (w : Option (Nat × Nat)) (d d' : Bytes) : Prop :=
  ∀ j, (∀ offset length, w = some (offset, length) → j < offset ∨ offset + length ≤ j) → d' j = d j

/-- The window is all zero. -/
def Zeroed (w : Option (Nat × Nat)) (d : Bytes) : Prop :=
  ∀ offset length, w = some (offset, length) → ∀ j, offset ≤ j → j < offset + length → d j = 0

section Windows

variable {w : Option (Nat × Nat)} {d d' : Bytes} {offset length : Nat} {bytes : List UInt8} {sub : Submission}

theorem WritesWithin.refl (d : Bytes) : WritesWithin w d d := fun _ _ => rfl

theorem WritesWithin.trans {d'' : Bytes} (h : WritesWithin w d d') (h' : WritesWithin w d' d'') : WritesWithin w d d'' :=
  fun j hj => (h' j hj).trans (h j hj)

theorem writesWithin_write (hw : w = some (offset, length)) (hlength : bytes.length ≤ length) :
    WritesWithin w d (d.write offset bytes) := by
  intro j hj
  refine Bytes.write_outside ?_
  have := hj offset length hw
  omega

theorem writesWithin_clear {from_ count : Nat} (hw : w = some (offset, length)) (hfrom : offset ≤ from_)
    (hto : from_ + count ≤ offset + length) : WritesWithin w d (d.clear from_ count) := by
  intro j hj
  refine Bytes.clear_outside ?_
  have := hj offset length hw
  omega

theorem writesWithin_clearOutput : WritesWithin sub.output d (sub.clearOutput d) := by
  unfold Submission.clearOutput
  split
  · exact .refl d
  · rename_i offset length hw
    exact writesWithin_clear hw (Nat.le_refl _) (Nat.le_refl _)

theorem zeroed_clearOutput : Zeroed sub.output (sub.clearOutput d) := by
  intro offset length hw j hle hlt
  unfold Submission.clearOutput
  rw [hw]
  exact Bytes.clear_inside hle hlt

end Windows

/-! ## What is written -/

/-- The operation reads or receives bytes into its window. -/
def Submission.reads (sub : Submission) : Prop :=
  RingOp.ofCode sub.op = some .BUFFER_READ ∨ RingOp.ofCode sub.op = some .DESCRIPTOR_READ ∨
    RingOp.ofCode sub.op = some .CHANNEL_RECV

/-- The outcome of an operation stays within the window. -/
structure Submission.Fits (sub : Submission) (out : Outcome) : Prop where
  output : sub.reads → out.output.length ≤ sub.arg1.toNat
  result : sub.reads → ∀ v, out.status = .ok v → v.toNat ≤ sub.arg1.toNat

/-- What the end of a submission does to the data area. -/
structure Submission.Closed (sub : Submission) (d : Bytes) (r : Bytes × Completion) : Prop where
  within : WritesWithin sub.output d r.1
  zeroed : r.2.errorCode ≠ none → Zeroed sub.output r.1
  suffix : sub.reads → r.2.errorCode = none → ∀ offset length, sub.output = some (offset, length) →
    ∀ j, offset + r.2.result0.toNat ≤ j → j < offset + length → r.1 j = 0

section Written

variable {sub : Submission} {d : Bytes} {out : Outcome}

theorem closed_refuse (e : Errno) : sub.Closed d (sub.refuse d e) :=
  ⟨writesWithin_clearOutput, fun _ => zeroed_clearOutput, nofun⟩

theorem closed_none (hnone : sub.output = none) (hreads : ¬ sub.reads) (c : Completion) : sub.Closed d (d, c) :=
  ⟨.refl d, fun _ offset length h => (by cases hnone.symm.trans h), fun h => absurd h hreads⟩

variable {window : Nat × Nat}

section

variable (hwindow : sub.output = some window)

include hwindow

theorem closed_finishToken (hrange : dataRange sub.arg2 tokenBytes = some window) (hreads : ¬ sub.reads) :
    sub.Closed d (sub.finishToken d out) := by
  obtain ⟨rfl, -⟩ := dataRange_some hrange
  unfold Submission.finishToken
  split
  · exact ⟨writesWithin_clearOutput, fun _ => zeroed_clearOutput, nofun⟩
  · exact ⟨.refl d, fun h => absurd rfl h, fun h => absurd h hreads⟩
  · exact ⟨writesWithin_write hwindow (by rw [Token.bytes_length]; decide), fun h => absurd rfl h, fun h => absurd h hreads⟩

theorem within_output (hrange : dataRange sub.arg2 sub.arg1 = some window) (hreads : sub.reads) (hfits : sub.Fits out) :
    WritesWithin sub.output d (d.write sub.arg2.toNat out.output) := by
  obtain ⟨rfl, -⟩ := dataRange_some hrange
  exact writesWithin_write hwindow (hfits.output hreads)

theorem closed_finishRead
    (hrange : dataRange sub.arg2 sub.arg1 = some window) (hreads : sub.reads) (hfits : sub.Fits out) :
    sub.Closed d (sub.finishRead d out) := by
  have hwithin := within_output (d := d) hwindow hrange hreads hfits
  obtain ⟨rfl, -⟩ := dataRange_some hrange
  unfold Submission.finishRead
  split
  · exact ⟨hwithin.trans writesWithin_clearOutput, fun _ => zeroed_clearOutput, nofun⟩
  rename_i v hv
  have hle := hfits.result hreads v hv
  refine ⟨hwithin.trans (writesWithin_clear hwindow (Nat.le_add_right _ _) (by omega)), fun h => absurd rfl h, ?_⟩
  intro _ _ offset length hw j hfrom hto
  cases hwindow.symm.trans hw
  exact Bytes.clear_inside hfrom (by omega)

theorem closed_finishBuffer
    (hrange : dataRange sub.arg2 sub.arg1 = some window) (hop : RingOp.ofCode sub.op = some .BUFFER_READ)
    (hfits : sub.Fits out) : sub.Closed d (sub.finish d out) := by
  have hwithin := within_output (d := d) hwindow hrange (.inl hop) hfits
  obtain ⟨rfl, -⟩ := dataRange_some hrange
  unfold Submission.finish
  rw [hop]
  dsimp only
  split
  · exact ⟨hwithin.trans writesWithin_clearOutput, fun _ => zeroed_clearOutput, nofun⟩
  refine ⟨hwithin, fun h => absurd rfl h, ?_⟩
  intro _ _ offset length hw j hfrom hto
  cases hwindow.symm.trans hw
  have hresult : (sub.completed sub.arg1).result0 = sub.arg1 := rfl
  rw [hresult] at hfrom
  omega

end

theorem window_some {range : Option (Nat × Nat)} {r : Nat → Nat → Request} (h : ∀ e, Request.within range r ≠ .refused e) :
    ∃ w, range = some w := by
  cases range with
  | none => exact absurd rfl (h .EINVAL)
  | some w => exact ⟨w, rfl⟩

/-- **The end of a submission** that was not refused. -/
theorem closed_finish (hrequest : ∀ e, sub.request d ≠ .refused e) (hfits : sub.Fits out) :
    sub.Closed d (sub.finish d out) := by
  -- operations without a window leave the area alone
  have hquiet : sub.output = none → ¬ sub.reads → (sub.finish d out).1 = d → sub.Closed d (sub.finish d out) := by
    intro hnone hreads hsame
    have hclosed := closed_none (d := d) hnone hreads (sub.finish d out).2
    rw [← Prod.mk.eta (p := sub.finish d out), hsame]
    exact hclosed
  cases hop : RingOp.ofCode sub.op with
  | none => exact absurd (by rw [Submission.request, hop]) (hrequest .EINVAL)
  | some op =>
    cases op with
    | CAP_ATTENUATE | CAP_REVOKE | TASK_SPAWN =>
      rw [Submission.request, hop] at hrequest
      obtain ⟨w, hw⟩ := window_some hrequest
      have hwindow : sub.output = some w := by rw [Submission.output, hop, hw]
      have hreads : ¬ sub.reads := by simp [Submission.reads, hop]
      have hfinish : sub.finish d out = sub.finishToken d out := by rw [Submission.finish, hop]
      exact hfinish ▸ closed_finishToken hwindow hw hreads
    | DESCRIPTOR_READ | CHANNEL_RECV =>
      rw [Submission.request, hop] at hrequest
      obtain ⟨w, hw⟩ := window_some hrequest
      have hwindow : sub.output = some w := by rw [Submission.output, hop, hw]
      have hreads : sub.reads := by simp [Submission.reads, hop]
      have hfinish : sub.finish d out = sub.finishRead d out := by rw [Submission.finish, hop]
      exact hfinish ▸ closed_finishRead hwindow hw hreads hfits
    | BUFFER_READ =>
      rw [Submission.request, hop] at hrequest
      obtain ⟨w, hw⟩ := window_some hrequest
      have hwindow : sub.output = some w := by rw [Submission.output, hop, hw]
      exact closed_finishBuffer hwindow hw hop hfits
    | NOP | CAP_VALIDATE | BUFFER_WRITE | DESCRIPTOR_WRITE | CHANNEL_SEND | CHANNEL_CLOSE | TASK_JOIN | TASK_DETACH =>
      refine hquiet (by rw [Submission.output, hop]) (by simp [Submission.reads, hop]) ?_
      rw [Submission.finish, hop]
      dsimp only
      split <;> rfl

theorem finish_errorCode (h : (sub.finish d out).2.errorCode ≠ none) : ∃ e, out.status = .error e := by
  cases hstatus : out.status with
  | error e => exact ⟨e, rfl⟩
  | ok v =>
    refine absurd ?_ h
    unfold Submission.finish Submission.finishToken Submission.finishRead
    rw [hstatus]
    split <;> first | rfl | (cases out.token <;> rfl)

end Written

/-! ## Outcomes -/

section Outcomes

variable {b : Control} {subject : UInt64} {load : Nat → UInt64} {t : Token} {env : Env} {length : UInt64}

/-- The area of a read has as many bytes as it asks for. -/
def Reads (length : UInt64) (out : Outcome) : Prop :=
  out.output.length ≤ length.toNat ∧ ∀ v, out.status = .ok v → v.toNat ≤ length.toNat

theorem reads_fail (e : Errno) : Reads length (.fail e) := ⟨Nat.zero_le _, nofun⟩

theorem reads_failClear (e : Errno) : Reads length (.failClear length.toNat e) :=
  ⟨Nat.le_of_eq List.length_replicate, nofun⟩

theorem reads_read {bytes : List UInt8} (h : bytes.length ≤ length.toNat) : Reads length (.read bytes length.toNat) := by
  refine ⟨?_, fun v hv => ?_⟩
  · rw [Outcome.read, List.length_append, List.length_replicate]
    omega
  · cases hv
    exact Nat.le_trans (Nat.mod_le _ _) h

theorem readBuffer_reads : Reads length (b.readBuffer subject load t offset length env) := by
  unfold Control.readBuffer
  split
  · exact reads_fail _
  split
  · exact reads_failClear _
  · exact reads_failClear _
  dsimp only
  split
  · exact reads_failClear _
  refine ⟨List.length_take_le _ _, fun v hv => ?_⟩
  cases hv
  exact Nat.zero_le _

theorem readHandle_reads : Reads length (b.readHandle subject load t length env) := by
  unfold Control.readHandle
  split
  · exact reads_fail _
  split
  · exact reads_failClear _
  split
  · exact reads_failClear _
  · exact reads_read (List.length_take_le _ _)

theorem channelRecv_reads : Reads length (b.channelRecv subject load t length env).2 := by
  unfold Control.channelRecv
  split
  · exact reads_fail _
  split
  · exact reads_failClear _
  · exact reads_failClear _
  dsimp only
  split
  · exact reads_failClear _
  split
  · exact reads_failClear _
  · rename_i hfits
    exact reads_read (Nat.not_lt.mp hfits)

end Outcomes

/-! ## Operations that fail -/

section Failures

variable {b : Control} {subject : UInt64} {load : Nat → UInt64} {env : Env} {o : Op} {e : Errno}

/-- The slot of a completed task is free although the join or detach of it fails. -/
def TaskConsumed (b : Control) (o : Op) (b' : Control) : Prop :=
  ∃ t i, (o = .joinTask t ∨ o = .detachTask t) ∧ (b.tasks i).named t = true ∧ (b.tasks i).body.state = .COMPLETED ∧
    b'.slots = (b.clearSlot .TASK i).slots

/-- If the operation has failed, it has changed nothing, or consumed a completed task. -/
def Spares (b : Control) (o : Op) (r : Control × Outcome) : Prop :=
  ∀ e, r.2.status = .error e → (r.1 = b ∨ TaskConsumed b o r.1) ∧ r.2.token = none

theorem Spares.fail (e : Errno) : Spares b o (b, .fail e) := fun _ _ => ⟨.inl rfl, rfl⟩

theorem Spares.failClear (length : Nat) (e : Errno) : Spares b o (b, .failClear length e) := fun _ _ => ⟨.inl rfl, rfl⟩

theorem Spares.same {out : Outcome} (h : out.status.toOption = none → out.token = none) : Spares b o (b, out) :=
  fun e he => ⟨.inl rfl, h (by rw [he]; rfl)⟩

variable {t : Token}

theorem revoke_spares {rights : Rights} : Spares b o (b.revokeObjectCap subject load t rights env) := by
  have hrotate : ∀ {f : Family} {i : Fin slotCount}, Spares b o (b.rotate f i subject (load 2) t rights env.entropy) := by
    intro f i
    unfold Control.rotate
    dsimp only
    split
    · exact .fail _
    split
    · exact .fail _
    split
    · exact .fail _
    split
    · exact .fail _
    · exact nofun
  have hfound : ∀ {f : Family}, Spares b o (b.revokeFound f subject load t rights env.entropy) := by
    intro f
    unfold Control.revokeFound
    split
    · exact .fail _
    · exact hrotate
  unfold Control.revokeObjectCap
  split
  · exact .fail _
  split
  · exact .fail _
  · exact .fail _
  split
  · exact hfound
  · unfold Control.revokeDescriptor
    split
    · exact .fail _
    split
    · exact .fail _
    · exact hrotate
  · exact hfound
  · exact .fail _

theorem attenuate_spares {rights : Rights} : Spares b o (b, b.attenuateCap subject load t rights env) := by
  unfold Control.attenuateCap
  split
  · exact .fail _
  split
  · exact .fail _
  · exact .fail _
  cases capabilityAttenuate b.key t rights (load 1) env.entropy with
  | error e => exact .fail _
  | ok t' => exact nofun

theorem writeBuffer_spares {bytes : List UInt8} : Spares b o (b.writeBuffer subject load t offset bytes env) := by
  unfold Control.writeBuffer
  split
  · exact .fail _
  split
  · exact .fail _
  · exact .fail _
  dsimp only
  split
  · exact .fail _
  · exact nofun

theorem channelSend_spares {bytes : List UInt8} : Spares b o (b.channelSend subject load t bytes env) := by
  unfold Control.channelSend
  split
  · exact .fail _
  split
  · exact .fail _
  · exact .fail _
  dsimp only
  split
  · exact .fail _
  split
  · exact .fail _
  · exact nofun

theorem channelRecv_spares {length : UInt64} : Spares b o (b.channelRecv subject load t length env) := by
  unfold Control.channelRecv
  split
  · exact .fail _
  split
  · exact .failClear _ _
  · exact .failClear _ _
  dsimp only
  split
  · exact .failClear _ _
  split
  · exact .failClear _ _
  · exact nofun

theorem channelClose_spares : Spares b o (b.channelClose subject load t env) := by
  unfold Control.channelClose
  split
  · exact .fail _
  · exact .fail _
  · exact nofun

theorem joinTask_spares : Spares b (.joinTask t) (b.joinTask subject load t env) := by
  unfold Control.joinTask
  split
  · exact .fail _
  · exact .fail _
  rename_i i _ hi
  have hnamed := (findObject_ok hi).1.named
  dsimp only
  split
  · exact .fail _
  split
  · exact .fail _
  rename_i hcompleted
  refine fun e he => ⟨.inr ⟨t, i, .inl rfl, hnamed, not_not.mp hcompleted, rfl⟩, ?_⟩
  split <;> rfl

theorem detachTask_spares : Spares b (.detachTask t) (b.detachTask subject load t env) := by
  unfold Control.detachTask
  split
  · exact .fail _
  · exact .fail _
  rename_i i _ hi
  have hnamed := (findObject_ok hi).1.named
  dsimp only
  split
  · rename_i hcompleted
    refine fun e he => ⟨.inr ⟨t, i, .inr rfl, hnamed, hcompleted, rfl⟩, ?_⟩
    split <;> rfl
  · split
    · exact .fail _
    · exact nofun
  · exact .fail _

/-- **Operations that fail** change nothing, if they create nothing. -/
theorem perform_spares (hcreates : o.creates = none) : Spares b o (b.perform subject load o env) := by
  cases o with
  | registerBuffer | registerHandle | createChannel => cases hcreates
  | validate t required => exact .same fun _ => validate_token
  | attenuate t subset => exact attenuate_spares
  | revoke t replacement => exact revoke_spares
  | readBuffer t offset length => exact .same fun _ => readBuffer_token
  | writeBuffer t offset bytes => exact writeBuffer_spares
  | readHandle t length => exact .same fun _ => readHandle_token
  | writeHandle t bytes => exact .same fun _ => writeHandle_token
  | channelSend t bytes => exact channelSend_spares
  | channelRecv t length => exact channelRecv_spares
  | channelClose t => exact channelClose_spares
  | driveAllowed t => exact .same fun _ => driveAllowed_token
  | joinTask t => exact joinTask_spares
  | detachTask t => exact detachTask_spares

end Failures

/-! ## Executions -/

/-- No object that is in use has changed, and no token was issued. -/
structure Unchanged (s s' : State n) : Prop where
  slots : ∀ f i, s'.control.slots f i = s.control.slots f i ∨
    (s.control.slots f i).active = false ∧ (s'.control.slots f i).active = false
  minted : s'.minted = s.minted

section Executions

variable {s s' : State n} {k : Fin n} {subject : UInt64} {sub : Submission} {d d' : Bytes} {e : Trial} {c : Completion}
  {o : Op}

theorem within_eq {range : Option (Nat × Nat)} {r : Nat → Nat → Request} {x : Request} (h : Request.within range r = x)
    (hx : x ≠ .refused .EINVAL) : ∃ offset length, r offset length = x := by
  cases range with
  | none => exact absurd h.symm hx
  | some w => exact ⟨w.1, w.2, h⟩

/-- What a submission asks for creates no object, and what it reads fits its window. -/
theorem request_op (h : sub.request d = .op o) :
    o.creates = none ∧ ∀ (b : Control) (subject : UInt64) (load : Nat → UInt64) (env : Env),
      sub.Fits (b.perform subject load o env).2 := by
  have hother : ¬ sub.reads → ∀ out, sub.Fits out := fun hreads out => ⟨fun h => absurd h hreads, fun h => absurd h hreads⟩
  have hfits : ∀ out, Reads sub.arg1 out → sub.Fits out := fun out hout => ⟨fun _ => hout.1, fun _ => hout.2⟩
  cases hop : RingOp.ofCode sub.op with
  | none =>
    rw [Submission.request, hop] at h
    cases h
  | some op =>
    rw [Submission.request, hop] at h
    cases op with
    | NOP => cases h
    | CAP_VALIDATE | CHANNEL_CLOSE | TASK_JOIN | TASK_DETACH =>
      cases h
      exact ⟨rfl, fun _ _ _ _ => hother (by simp [Submission.reads, hop]) _⟩
    | CAP_ATTENUATE | CAP_REVOKE | BUFFER_WRITE | DESCRIPTOR_WRITE | CHANNEL_SEND =>
      obtain ⟨_, _, h⟩ := within_eq h nofun
      cases h
      exact ⟨rfl, fun _ _ _ _ => hother (by simp [Submission.reads, hop]) _⟩
    | BUFFER_READ =>
      obtain ⟨_, _, h⟩ := within_eq h nofun
      cases h
      exact ⟨rfl, fun _ _ _ _ => hfits _ readBuffer_reads⟩
    | DESCRIPTOR_READ =>
      obtain ⟨_, _, h⟩ := within_eq h nofun
      cases h
      exact ⟨rfl, fun _ _ _ _ => hfits _ readHandle_reads⟩
    | CHANNEL_RECV =>
      obtain ⟨_, _, h⟩ := within_eq h nofun
      cases h
      exact ⟨rfl, fun _ _ _ _ => hfits _ channelRecv_reads⟩
    | TASK_SPAWN =>
      obtain ⟨_, _, h⟩ := within_eq h nofun
      split at h <;> cases h

theorem within_op (range : Option (Nat × Nat)) (o : Op) :
    Request.within range (fun _ _ => .op o) = .refused .EINVAL ∨ ∃ o', Request.within range (fun _ _ => .op o) = .op o' := by
  cases range with
  | none => exact .inl rfl
  | some w => exact .inr ⟨o, rfl⟩

/-- A submission that reads into the window is refused or an operation of the broker. -/
theorem request_reads (h : sub.reads) : sub.request d = .refused .EINVAL ∨ ∃ o, sub.request d = .op o := by
  rcases h with hop | hop | hop <;> rw [Submission.request, hop] <;> exact within_op _ _

variable {code : UInt32} {arg0 : UInt64} {env : Env} {out : Option Outcome}

/-- A submission does not ask for a sleep. -/
theorem request_spawn (h : sub.request d = .spawn code arg0) : code ≠ 4 := by
  cases hop : RingOp.ofCode sub.op with
  | none =>
    rw [Submission.request, hop] at h
    cases h
  | some op =>
    rw [Submission.request, hop] at h
    cases op with
    | NOP | CAP_VALIDATE | CHANNEL_CLOSE | TASK_JOIN | TASK_DETACH => cases h
    | CAP_ATTENUATE | CAP_REVOKE | BUFFER_READ | BUFFER_WRITE | DESCRIPTOR_READ | DESCRIPTOR_WRITE | CHANNEL_SEND
    | CHANNEL_RECV =>
      obtain ⟨_, _, h⟩ := within_eq h nofun
      cases h
    | TASK_SPAWN =>
      obtain ⟨_, _, h⟩ := within_eq h nofun
      split at h
      · cases h
      rename_i hkind
      cases h
      rw [not_or, UInt64.not_lt, UInt64.le_iff_toNat_le] at hkind
      intro hfour
      refine hkind.2 (UInt64.toNat_inj.mp ?_)
      have htoNat := congrArg UInt32.toNat hfour
      rw [UInt64.toNat_toUInt32] at htoNat
      have hle : sub.arg0.toNat ≤ 4294967295 := hkind.1
      have hsmall : sub.arg0.toNat % 2 ^ 32 = sub.arg0.toNat := Nat.mod_eq_of_lt (by omega)
      rw [hsmall] at htoNat
      exact htoNat

/-! ## Sections of a spawn -/

theorem spawnReserve_kind {b : Control} {rights : Rights} {kind : TaskKind}
    {i : Fin slotCount} (h : b.spawnReserve subject code arg0 rights env = .ok (kind, i)) :
    TaskKind.ofCode code = some kind := by
  unfold Control.spawnReserve at h
  split at h
  · cases h
  split at h
  · cases h
  · cases h
  rename_i hkind
  split at h
  · cases h
  split at h
  · cases h
  split at h
  · cases h
  split at h
  · cases h
  split at h
  · cases h
  split at h
  · cases h
  · cases h
    exact hkind

/-- What the broker does for a submission that fails. -/
def Spared (s s' : State n) (sub : Submission) (d : Bytes) (out : Outcome) : Prop :=
  (∃ e, out.status = .error e) →
    Unchanged s s' ∨ ∃ o, sub.request d = .op o ∧ TaskConsumed s.control o s'.control ∧ s'.minted = s.minted

theorem Unchanged.refl (s : State n) : Unchanged s s := ⟨fun _ _ => .inl rfl, rfl⟩

theorem op_spared (h : sub.request d = .op o) (overtakes : Nat → Nat) (env : Env) :
    Spared s (s.performOp subject o overtakes env).1 sub d (s.performOp subject o overtakes env).2 := by
  rintro ⟨e, he⟩
  obtain ⟨hspares, htoken⟩ := perform_spares (request_op h).1 e he
  have hminted : (s.performOp subject o overtakes env).1.minted = s.minted := by
    have : (s.performOp subject o overtakes env).1.minted = s.minted ++
      (s.control.perform subject (s.load overtakes) o env).2.token.toList := rfl
    rw [this, htoken]
    exact List.append_nil _
  rcases hspares with hsame | ⟨t, i, hop, hnamed, hcompleted, hslots⟩
  · have hslots : (s.control.perform subject (s.load overtakes) o env).1.slots = s.control.slots :=
      congrArg Control.slots hsame
    exact .inl ⟨fun f i => .inl (congrFun (congrFun hslots f) i), hminted⟩
  · exact .inr ⟨o, h, ⟨t, i, hop, hnamed, hcompleted, hslots⟩, hminted⟩

theorem exec_spawn {rights : Rights} (h : s.exec (.spawn k subject code arg0 rights env) = some (s', out)) :
    (s' = s ∧ ∃ e, out = some (.fail e)) ∨
      out = none ∧ s'.minted = s.minted ∧ ∃ c, s'.calls k = some c ∧ TaskKind.ofCode code = some c.kind ∧
        c.token = none ∧ c.task = none ∧ (s.control.tasks c.index).active = false ∧
        ∀ f i, ¬ (f = .TASK ∧ i = c.index) → s'.control.slots f i = s.control.slots f i := by
  cases State.exec_executes h with
  | refused => exact .inl ⟨rfl, _, rfl⟩
  | @reserved _ _ _ _ _ _ kind i hk hreserve =>
    refine .inr ⟨rfl, rfl, ⟨i, kind, arg0, rights, subject, none, none⟩, update_self .., spawnReserve_kind hreserve,
      rfl, rfl, (spawnReserve_ok hreserve).1, fun f j hne => setSlot_of_ne hne⟩

theorem exec_issue {overtakes : Nat → Nat} {call : Call} (hcall : s.calls k = some call)
    (h : s.exec (.issue k overtakes env) = some (s', out)) :
    (∃ e, out = some (.fail e)) ∧ s'.minted = s.minted ∧ (s'.control.tasks call.index).active = false ∧
        (∀ f i, ¬ (f = .TASK ∧ i = call.index) → s'.control.slots f i = s.control.slots f i) ∨
      out = none ∧ ∃ t, s'.calls k = some { call with token := some t } := by
  cases State.exec_executes h with
  | unissued hc =>
    cases hcall.symm.trans hc
    refine .inl ⟨⟨_, rfl⟩, rfl, ?_, fun f j hne => setSlot_of_ne hne⟩
    have htasks : (s.control.clearSlot .TASK call.index).tasks = _ := tasks_setSlot s.control call.index _
    have hslot := congrArg Slot.active (congrFun htasks call.index)
    rw [update_self] at hslot
    exact hslot
  | issued hc =>
    cases hcall.symm.trans hc
    exact .inr ⟨rfl, _, update_self ..⟩

theorem exec_finish {call : Call} {started : Except Errno Nat} (hcall : s.calls k = some call)
    (hkind : call.kind ≠ .SLEEP_NS_RETURN_U64) (h : s.exec (.finish k started) = some (s', out)) :
    ∃ t, out = some (.give (.ok t)) := by
  cases State.exec_executes h with
  | unstarted hc _ _ hsleep | started hc _ _ hsleep =>
    cases hcall.symm.trans hc
    exact absurd hsleep hkind
  | computed => exact ⟨_, rfl⟩

theorem ofCode_sleep (h : TaskKind.ofCode code = some .SLEEP_NS_RETURN_U64) : code = 4 := by
  unfold TaskKind.ofCode at h
  split at h
  · cases h
  split at h
  · cases h
  split at h
  · cases h
  split at h
  · assumption
  · cases h

theorem spawn_kind {kind : TaskKind} (hrequest : sub.request d = .spawn code arg0)
    (hkind : TaskKind.ofCode code = some kind) : kind ≠ .SLEEP_NS_RETURN_U64 := by
  rintro rfl
  exact request_spawn hrequest (ofCode_sleep hkind)

/-- The sections of a spawn together: it succeeds, or what it reserved is free again. -/
theorem spawn_spared {e : Trial} {d' : Bytes} {c : Completion}
    (hrequest : sub.request d = .spawn code arg0) (h : sub.execute s k subject d e = some (s', d', c)) :
    ∃ out, (d', c) = sub.finish d out ∧ Spared s s' sub d out := by
  unfold Submission.execute at h
  rw [hrequest] at h
  dsimp only at h
  split at h
  · cases h
  · rename_i s₁ out hspawn
    obtain ⟨rfl, hr⟩ := Prod.mk.inj (Option.some.inj h)
    refine ⟨out, hr.symm, fun _ => .inl ?_⟩
    rcases exec_spawn hspawn with ⟨rfl, -⟩ | ⟨hnone, -⟩
    · exact .refl _
    · cases hnone
  rename_i s₁ hspawn
  rcases exec_spawn hspawn with ⟨-, _, hsome⟩ | ⟨-, hminted, call, hcall, hkind, -, -, hfree, hsame⟩
  · cases hsome
  split at h
  · cases h
  · rename_i s₂ out hissue
    obtain ⟨rfl, hr⟩ := Prod.mk.inj (Option.some.inj h)
    refine ⟨out, hr.symm, fun _ => .inl ?_⟩
    rcases exec_issue hcall hissue with ⟨-, hminted', hcleared, hsame'⟩ | ⟨hnone, -⟩
    · refine ⟨fun f i => ?_, hminted'.trans hminted⟩
      by_cases hslot : f = .TASK ∧ i = call.index
      · obtain ⟨rfl, rfl⟩ := hslot
        exact .inr ⟨hfree, hcleared⟩
      · exact .inl ((hsame' f i hslot).trans (hsame f i hslot))
    · cases hnone
  · rename_i s₂ hissue
    rcases exec_issue hcall hissue with ⟨⟨_, hsome⟩, -⟩ | ⟨-, t, hcall'⟩
    · cases hsome
    obtain ⟨⟨s₃, out⟩, hfinish, hr⟩ := Option.bind_eq_some_iff.mp h
    obtain ⟨t', rfl⟩ := exec_finish hcall' (spawn_kind hrequest hkind) hfinish
    obtain ⟨-, hr⟩ := Prod.mk.inj (Option.some.inj hr)
    refine ⟨_, hr.symm, ?_⟩
    rintro ⟨_, he⟩
    cases he

/-- **What a submission does** to the data area and, if it fails, to the broker. -/
theorem execute_spec {e : Trial} {d' : Bytes} {c : Completion} (h : sub.execute s k subject d e = some (s', d', c)) :
    sub.Closed d (d', c) ∧ (c.errorCode ≠ none → Unchanged s s' ∨
      ∃ o, sub.request d = .op o ∧ TaskConsumed s.control o s'.control ∧ s'.minted = s.minted) := by
  cases hrequest : sub.request d with
  | nothing =>
    unfold Submission.execute at h
    rw [hrequest] at h
    cases h
    have hreads : ¬ sub.reads := by
      intro hreads
      rcases request_reads (d := d) hreads with hr | ⟨_, hr⟩ <;> cases hrequest.symm.trans hr
    exact ⟨⟨.refl d, fun h => absurd rfl h, fun h => absurd h hreads⟩, fun h => absurd rfl h⟩
  | refused err =>
    unfold Submission.execute at h
    rw [hrequest] at h
    cases h
    exact ⟨closed_refuse err, fun _ => .inl (.refl s)⟩
  | op o =>
    unfold Submission.execute at h
    rw [hrequest] at h
    obtain ⟨rfl, hdone⟩ := Prod.mk.inj (Option.some.inj h)
    have hspared : Spared s (s.performOp subject o e.overtakes e.env).1 sub d _ :=
      op_spared hrequest e.overtakes e.env
    rw [← hdone, ← hrequest]
    refine ⟨closed_finish (fun err he => ?_) ((request_op hrequest).2 ..), fun herror => ?_⟩
    · cases hrequest.symm.trans he
    · have hfinish : (sub.finish d (s.performOp subject o e.overtakes e.env).2).2.errorCode ≠ none := by
        rw [hdone]
        exact herror
      exact hspared (finish_errorCode hfinish)
  | spawn code arg0 =>
    obtain ⟨out, hr, hspared⟩ := spawn_spared hrequest h
    rw [hr, ← hrequest]
    have hreads : ¬ sub.reads := by
      intro hreads
      rcases request_reads (d := d) hreads with hr | ⟨_, hr⟩ <;> cases hrequest.symm.trans hr
    refine ⟨closed_finish (fun err he => ?_) ⟨fun h => absurd h hreads, fun h => absurd h hreads⟩, fun herror => ?_⟩
    · cases hrequest.symm.trans he
    · have hfinish : (sub.finish d out).2.errorCode ≠ none := by
        rw [← hr]
        exact herror
      exact hspared (finish_errorCode hfinish)

/-- A thread that is in no other spawn executes any submission. -/
theorem execute_total (hk : s.calls k = none) (e : Trial) : ∃ r, sub.execute s k subject d e = some r := by
  unfold Submission.execute
  split
  · exact ⟨_, rfl⟩
  · exact ⟨_, rfl⟩
  · exact ⟨_, rfl⟩
  rename_i code arg0 hrequest
  cases hspawn : s.exec (.spawn k subject code arg0 (.JOIN ||| .DETACH) e.env) with
  | none =>
    simp only [State.exec, hk] at hspawn
    split at hspawn <;> contradiction
  | some r =>
    obtain ⟨s₁, _ | out⟩ := r
    · rcases exec_spawn hspawn with ⟨-, _, hsome⟩ | ⟨-, -, call, hcall, hkind, htoken, htask, -⟩
      · cases hsome
      dsimp only
      cases hissue : s₁.exec (.issue k e.overtakesIssue e.envIssue) with
      | none =>
        simp only [State.exec, hcall, htoken, if_true] at hissue
        cases hissue
      | some r =>
        obtain ⟨s₂, _ | out⟩ := r
        · rcases exec_issue hcall hissue with ⟨⟨_, hsome⟩, -⟩ | ⟨-, t, hcall'⟩
          · cases hsome
          cases hfinish : s₂.exec (.finish k (.error .EINVAL)) with
          | none =>
            simp only [State.exec, hcall', htask] at hfinish
            cases hfinish
          | some r =>
            obtain ⟨s₃, out⟩ := r
            obtain ⟨t', rfl⟩ := exec_finish hcall' (spawn_kind hrequest hkind) hfinish
            refine ⟨(s₃, sub.finish d (.give (.ok t'))), ?_⟩
            dsimp only
            rw [hfinish]
            rfl
        · exact ⟨_, rfl⟩
    · exact ⟨_, rfl⟩

end Executions

/-! ## The result -/

/-- **Ring operations fail closed.** A submission is executed whatever it contains. It writes its output window only, which
lies in the data area; a submission that fails leaves zeros in the window; what a read leaves of it is zero as well. A
submission that fails leaves the tables and the tokens as they were, unless it is a join or detach of a completed task:
then the slot of that task is free, and nothing else is changed. -/
theorem ring_operations_fail_closed (s : State n) (k : Fin n) (hk : s.calls k = none) (subject : UInt64) (sub : Submission)
    (d : Bytes) (e : Trial) : ∃ s' d' c, sub.execute s k subject d e = some (s', d', c) ∧
    (∀ offset length, sub.output = some (offset, length) → offset + length ≤ 4096) ∧
    WritesWithin sub.output d d' ∧
    (c.errorCode ≠ none → Zeroed sub.output d') ∧
    (sub.reads → c.errorCode = none → ∀ offset length, sub.output = some (offset, length) →
      ∀ j, offset + c.result0.toNat ≤ j → j < offset + length → d' j = 0) ∧
    (c.errorCode ≠ none → Unchanged s s' ∨
      ∃ o, sub.request d = .op o ∧ TaskConsumed s.control o s'.control ∧ s'.minted = s.minted) := by
  obtain ⟨⟨s', d', c⟩, hexecute⟩ := execute_total hk e
  obtain ⟨hclosed, hfails⟩ := execute_spec hexecute
  exact ⟨s', d', c, hexecute, fun offset length h => output_le h, hclosed.within, hclosed.zeroed, hclosed.suffix, hfails⟩

/-- A read of eight bytes that nobody has a token for. -/
theorem ring_operations_fail_closed_read : ∃ d' : Bytes, ∃ c : Completion, c.errorCode ≠ none ∧
    Zeroed (some (16, 8)) d' ∧ WritesWithin (some (16, 8)) (fun _ => 7) d' := by
  let sub : Submission := ⟨1, 2, 0, 8, 16, ⟨0, 0, 0, 0, 0, ⊥, 0, 0, (0, 0), (0, 0)⟩⟩
  let e : Trial := ⟨fun _ => 0, .plain, fun _ => 0, .plain⟩
  obtain ⟨s', d', c, hexecute, -, hwithin, hzeroed, -, -⟩ :=
    ring_operations_fail_closed (State.init 1 1 ⟨1, 2, 3, 4⟩) 0 rfl 7 sub (fun _ => 7) e
  have herror : (sub.execute (State.init 1 1 ⟨1, 2, 3, 4⟩) 0 7 (fun _ => 7) e).map (fun r => r.2.2.errorCode) =
    some (some .EINVAL) := by decide +kernel
  rw [hexecute] at herror
  have hne : c.errorCode ≠ none := by
    intro hnone
    cases hnone.symm.trans (Option.some.inj herror)
  exact ⟨d', c, hne, hzeroed hne, hwithin⟩

set_option maxRecDepth 100000 in
/-- A sleep of subject 7 is cancelled. The join of the task fails with the error of the sleep, and the task is gone. -/
theorem ring_join_failure_consumes_task : ∃ s : State 1, Reachable step (State.init 1 1 ⟨1, 2, 3, 4⟩) s ∧ ∃ t ∈ s.minted,
    ∃ s' d' c, (⟨1, 10, 0, 0, 0, t⟩ : Submission).execute s 0 7 (fun _ => 0) ⟨fun _ => 0, .plain, fun _ => 0, .plain⟩ =
      some (s', d', c) ∧ c.errorCode = some .ECANCELED ∧ (s.control.tasks 0).active = true ∧
        (s'.control.tasks 0).active = false := by
  obtain ⟨s, hs, hf⟩ := exists_reachable step (State.init 1 1 ⟨1, 2, 3, 4⟩)
    (fun s => s.minted.any fun t => ((⟨1, 10, 0, 0, 0, t⟩ : Submission).execute s 0 7 (fun _ => 0)
      ⟨fun _ => 0, .plain, fun _ => 0, .plain⟩).any fun r => decide (r.2.2.errorCode = some .ECANCELED ∧
        (s.control.tasks 0).active = true ∧ (r.1.control.tasks 0).active = false))
    [.spawn 0 7 4 100 (.JOIN ||| .DETACH) .plain, .issue 0 (fun _ => 0) .plain, .finish 0 (.ok 1), .store 0,
      .fiber 0 (some .ECANCELED), .fiber 0 none] (b := true) (by decide +kernel)
  obtain ⟨t, ht, hjoin⟩ := List.any_eq_true.mp hf
  obtain ⟨⟨s', d', c⟩, hexecute, hlost⟩ := (Option.any_eq_true _ _).mp hjoin
  exact ⟨s, hs, t, ht, s', d', c, hexecute, of_decide_eq_true hlost⟩

end Llam.Ring
