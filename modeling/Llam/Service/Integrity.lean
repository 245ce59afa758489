import Llam.Service.Batches
import Llam.Service.Calls

/-!
# Ring integrity

What the client of a ring cannot disturb, whatever it writes to the shared memory (`ring_integrity`): the cursors of the
session advance together, every private index is executed once and in order, a batch is published as a whole or not at
all, and a session whose batch was refused is gone. The invariant (`Ledger`) ties the cursors and the batches of a session
to its history.
-/

namespace Llam.Service

open Llam.Lib Llam.Broker Llam.Ring Function

variable {n : Nat}

/-! ## Histories -/

/-- The slot of the completion with the private index `j` -/
def completionSlot (j : Nat) : UInt64 := UInt64.ofNat j &&& ringMask

/-- Indices are executed in order, one completion follows another, and completions are published in order in their slots. -/
structure History.Ok (h : History) : Prop where
  indices : h.executed.map (fun e => e.1.toNat) = List.range h.executed.length
  requests : h.completed.map Completion.requestId <+: h.executed.map fun e => e.2.requestId
  published : h.published = (h.completed.take h.published.length).mapIdx fun j c => (completionSlot j, c)

/-- An active session and its history. -/
structure Session.Keeps (x : Session) (h : History) : Prop where
  head : x.submitHead = UInt64.ofNat h.published.length
  tail : x.completeTail = x.submitHead
  bound : h.published.length < 2 ^ 64
  live : h.refused = false
  idle : x.busy = false → h.executed.length = h.completed.length ∧ h.completed.length = h.published.length

/-- A batch and the history of its session: what is done is completed and not published. -/
structure Batch.Keeps (b : Batch) (h : History) : Prop where
  done : h.completed.drop h.published.length = b.done
  published : h.published.length ≤ h.completed.length
  started : b.spawning = false ∧ h.executed.length = h.completed.length ∨
    b.spawning = true ∧ ∃ executed e rest, h.executed = executed ++ [e] ∧ b.todo = e.2 :: rest ∧
      executed.length = h.completed.length
  bound : h.published.length + b.done.length + b.todo.length < 2 ^ 64
  space : b.done.length + b.todo.length ≤ b.space

theorem Batch.Keeps.lengths {b : Batch} {h : History} (hkeeps : b.Keeps h) (hspawning : b.spawning = false) :
    h.completed.length = h.published.length + b.done.length ∧ h.executed.length = h.completed.length := by
  have hdone := congrArg List.length hkeeps.done
  rw [List.length_drop] at hdone
  have hpublished := hkeeps.published
  rcases hkeeps.started with ⟨-, heq⟩ | ⟨htrue, -⟩
  · omega
  · cases hspawning.symm.trans htrue

/-- **The invariant** of sessions, batches and histories. -/
structure Ledger (sessions : Sessions) (jobs : Fin n → Job) (serials : Nat) (history : Nat → History) : Prop where
  ok : ∀ q, (history q).Ok
  serial : ∀ i, (sessions i).active = true → (sessions i).serial < serials
  unique : ∀ i j, (sessions i).active = true → (sessions j).active = true → (sessions i).serial = (sessions j).serial → i = j
  fresh : ∀ q, serials ≤ q → history q = ⟨[], [], [], false⟩
  session : ∀ i, (sessions i).active = true → (sessions i).Keeps (history (sessions i).serial)
  batch : ∀ k b, jobs k = .batch b → b.Keeps (history b.serial)

theorem History.ok_nil : History.Ok ⟨[], [], [], false⟩ := ⟨rfl, List.prefix_rfl, rfl⟩

section Histories

variable {h : History} {b : Batch} {x : Session}

theorem History.Ok.refuse (hok : h.Ok) : ({ h with refused := true } : History).Ok := ⟨hok.indices, hok.requests, hok.published⟩

/-- The next index is executed. -/
theorem History.Ok.start (hok : h.Ok) {index : UInt64} (hindex : index.toNat = h.executed.length) (sub : Submission) :
    ({ h with executed := h.executed ++ [(index, sub)] } : History).Ok := by
  refine ⟨?_, ?_, hok.published⟩
  · rw [List.map_append, hok.indices, List.length_append, List.length_singleton, List.range_succ, List.map_singleton, hindex]
  · rw [List.map_append]
    exact hok.requests.trans (List.prefix_append _ _)

/-- The submission that was executed last is completed. -/
theorem History.Ok.complete (hok : h.Ok) {executed : List (UInt64 × Submission)} {e : UInt64 × Submission} {c : Completion}
    (hexecuted : h.executed = executed ++ [e]) (hlength : executed.length = h.completed.length)
    (hpublished : h.published.length ≤ h.completed.length) (hc : c.requestId = e.2.requestId) :
    ({ h with completed := h.completed ++ [c] } : History).Ok := by
  refine ⟨hok.indices, ?_, ?_⟩
  · have hrequests := hok.requests
    rw [hexecuted, List.map_append] at hrequests ⊢
    have hinitial : h.completed.map Completion.requestId = executed.map fun e => e.2.requestId := by
      refine List.IsPrefix.eq_of_length ?_ (by rw [List.length_map, List.length_map, hlength])
      exact List.prefix_of_prefix_length_le hrequests (List.prefix_append _ _)
        (by rw [List.length_map, List.length_map, hlength])
    rw [List.map_append, hinitial, List.map_singleton, List.map_singleton, hc]
  · rw [List.take_append_of_le_length hpublished]
    exact hok.published

/-- All that is completed is published. -/
theorem History.Ok.publish (hok : h.Ok) (hkeeps : b.Keeps h) {tail : UInt64}
    (htail : tail = UInt64.ofNat h.published.length) :
    ({ h with published := h.published ++ b.done.mapIdx fun i c => ((tail + UInt64.ofNat i) &&& ringMask, c) } :
      History).Ok := by
  refine ⟨hok.indices, hok.requests, ?_⟩
  have hsplit : h.completed = h.completed.take h.published.length ++ b.done := by
    rw [← hkeeps.done, List.take_append_drop]
  have hlength : h.completed.length = h.published.length + b.done.length := by
    have hcount := congrArg List.length hsplit
    rw [List.length_append, List.length_take, Nat.min_eq_left hkeeps.published] at hcount
    exact hcount
  dsimp only
  rw [List.length_append, List.length_mapIdx, ← hlength, List.take_length]
  conv_rhs => rw [hsplit]
  rw [List.mapIdx_append, ← hok.published, List.length_take, Nat.min_eq_left hkeeps.published]
  congr 1
  refine congrArg (fun f => List.mapIdx f b.done) (funext fun i => funext fun c => ?_)
  rw [htail, ← UInt64.ofNat_add, Nat.add_comm]
  rfl

end Histories

/-! ## Steps of the ledger -/

section Ledger

variable {sessions sessions' : Sessions} {jobs : Fin n → Job} {serials : Nat} {history : Nat → History} {k : Fin n} {j : Job}
  {b b' : Batch} {i : Fin sessionCount} {x : Session} {h' : History}

variable (hl : Ledger sessions jobs serials history)

include hl

/-- Sessions end, or stay as far as their history goes. -/
theorem Ledger.table
    (hkept : ∀ i, (sessions' i).active = true → (sessions i).active = true ∧ (sessions' i).serial = (sessions i).serial ∧
      (sessions' i).submitHead = (sessions i).submitHead ∧ (sessions' i).completeTail = (sessions i).completeTail ∧
      (sessions' i).busy = (sessions i).busy) : Ledger sessions' jobs serials history := by
  refine ⟨hl.ok, fun i hi => ?_, fun i j hi hj heq => ?_, hl.fresh, fun i hi => ?_, hl.batch⟩
  · obtain ⟨hactive, hserial, -⟩ := hkept i hi
    rw [hserial]
    exact hl.serial i hactive
  · obtain ⟨hi, hserial, -⟩ := hkept i hi
    obtain ⟨hj, hserial', -⟩ := hkept j hj
    rw [hserial, hserial'] at heq
    exact hl.unique i j hi hj heq
  · obtain ⟨hactive, hserial, hhead, htail, hbusy⟩ := hkept i hi
    have hkeeps := hl.session i hactive
    rw [hserial]
    refine ⟨hhead.trans hkeeps.head, ?_, hkeeps.bound, hkeeps.live, fun hidle => hkeeps.idle (hbusy ▸ hidle)⟩
    rw [htail, hhead]
    exact hkeeps.tail

theorem Ledger.opens (hserial : x.serial = serials) (hhead : x.submitHead = 0)
    (htail : x.completeTail = 0) : Ledger (update sessions i x) jobs (serials + 1) history := by
  have hcases : ∀ l, (update sessions i x l).active = true →
      l = i ∧ update sessions i x l = x ∨ l ≠ i ∧ update sessions i x l = sessions l := by
    intro l _
    rcases eq_or_ne l i with rfl | hne
    · exact .inl ⟨rfl, update_self ..⟩
    · exact .inr ⟨hne, update_of_ne hne ..⟩
  -- its serial is new
  have hnew : ∀ l, (sessions l).active = true → (sessions l).serial ≠ x.serial := fun l hl' heq =>
    absurd (hl.serial l hl') (by rw [heq, hserial]; exact Nat.lt_irrefl _)
  refine ⟨hl.ok, fun l hl' => ?_, fun l m hl' hm heq => ?_, fun q hq => hl.fresh q (Nat.le_of_succ_le hq), fun l hl' => ?_,
    hl.batch⟩
  · rcases hcases l hl' with ⟨-, heq⟩ | ⟨-, heq⟩ <;> rw [heq] at hl' ⊢
    · rw [hserial]
      exact Nat.lt_succ_self _
    · exact Nat.lt_succ_of_lt (hl.serial l hl')
  · rcases hcases l hl' with ⟨rfl, heq₁⟩ | ⟨-, heq₁⟩ <;> rcases hcases m hm with ⟨rfl, heq₂⟩ | ⟨-, heq₂⟩
    · rfl
    · rw [heq₁, heq₂] at heq
      rw [heq₂] at hm
      exact absurd heq.symm (hnew m hm)
    · rw [heq₁, heq₂] at heq
      rw [heq₁] at hl'
      exact absurd heq (hnew l hl')
    · rw [heq₁] at hl' heq
      rw [heq₂] at hm heq
      exact hl.unique l m hl' hm heq
  · rcases hcases l hl' with ⟨-, heq⟩ | ⟨-, heq⟩ <;> rw [heq] at hl' ⊢
    · rw [hserial, hl.fresh serials (Nat.le_refl _)]
      exact ⟨hhead, htail.trans hhead.symm, Nat.two_pow_pos 64, rfl, fun _ => ⟨rfl, rfl⟩⟩
    · exact hl.session l hl'

theorem Ledger.skip : Ledger sessions jobs (serials + 1) history :=
  ⟨hl.ok, fun i hi => Nat.lt_succ_of_lt (hl.serial i hi), hl.unique, fun q hq => hl.fresh q (Nat.le_of_succ_le hq),
    hl.session, hl.batch⟩

theorem Ledger.job (hnew : j.Other) : Ledger sessions (update jobs k j) serials history := by
  refine ⟨hl.ok, hl.serial, hl.unique, hl.fresh, hl.session, fun l b hl' => ?_⟩
  rw [update_apply] at hl'
  split at hl'
  · exact absurd hl' (hnew.ne b)
  · exact hl.batch l b hl'

theorem Ledger.reserves (hb : b.Keeps (history b.serial)) : Ledger (update sessions i { sessions i with busy := true }) (update jobs k (.batch b)) serials
      history := by
  have hbusy : ∀ l, ∃ busy, update sessions i { sessions i with busy := true } l =
      { sessions l with busy := busy } ∧ (busy = false → (sessions l).busy = false) := by
    intro l
    rcases eq_or_ne l i with rfl | hne
    · exact ⟨true, update_self .., nofun⟩
    · exact ⟨(sessions l).busy, update_of_ne hne .., fun h => h⟩
  refine ⟨hl.ok, fun l hl' => ?_, fun l m hl' hm heq => ?_, hl.fresh, fun l hl' => ?_, fun l b' hl' => ?_⟩
  · obtain ⟨busy, heq, -⟩ := hbusy l
    rw [heq] at hl' ⊢
    exact hl.serial l hl'
  · obtain ⟨_, heq₁, -⟩ := hbusy l
    obtain ⟨_, heq₂, -⟩ := hbusy m
    rw [heq₁] at hl' heq
    rw [heq₂] at hm heq
    exact hl.unique l m hl' hm heq
  · obtain ⟨busy, heq, hfree⟩ := hbusy l
    rw [heq] at hl' ⊢
    have hkeeps := hl.session l hl'
    exact ⟨hkeeps.head, hkeeps.tail, hkeeps.bound, hkeeps.live, fun hidle => hkeeps.idle (hfree hidle)⟩
  · rw [update_apply] at hl'
    split at hl'
    · cases hl'
      exact hb
    · exact hl.batch l b' hl'

/-- What happens to the history of a batch concerns no other session or batch. -/
theorem Ledger.apart (hbatches : Batches sessions jobs) (hjob : jobs k = .batch b) :
    (∀ l, (sessions l).active = true → l ≠ b.session → (sessions l).serial ≠ b.serial) ∧
      ∀ l b', jobs l = .batch b' → l ≠ k → b'.serial ≠ b.serial := by
  have hserves := hbatches.serves k b hjob
  have hsessions : ∀ l, (sessions l).active = true → l ≠ b.session → (sessions l).serial ≠ b.serial :=
    fun l hl' hne heq => hne (hl.unique l b.session hl' hserves.active (heq.trans hserves.serial.symm))
  refine ⟨hsessions, fun l b' hl' hne heq => ?_⟩
  have hserves' := hbatches.serves l b' hl'
  refine hsessions b'.session hserves'.active ?_ (hserves'.serial.trans heq)
  exact fun hsession => hne (hbatches.apart l k b' b hl' hjob hsession)

/-- The batch goes on, or ends. -/
theorem Ledger.advance (hbatches : Batches sessions jobs) (hjob : jobs k = .batch b) (hok : h'.Ok)
    (hx : x.active = true → x.serial = b.serial ∧ x.Keeps h') (hj : ∀ b', j = .batch b' → b'.serial = b.serial ∧ b'.Keeps h') :
    Ledger (update sessions b.session x) (update jobs k j) serials (update history b.serial h') := by
  obtain ⟨hsessions, hothers⟩ := hl.apart hbatches hjob
  have hserves := hbatches.serves k b hjob
  have hlt : b.serial < serials := hserves.serial ▸ hl.serial b.session hserves.active
  refine ⟨fun q => ?_, fun l hl' => ?_, fun l m hl' hm heq => ?_, fun q hq => ?_, fun l hl' => ?_, fun l b' hl' => ?_⟩
  · rw [update_apply]
    split
    · exact hok
    · exact hl.ok q
  · rcases eq_or_ne l b.session with rfl | hne
    · rw [update_self] at hl' ⊢
      rw [(hx hl').1]
      exact hlt
    · rw [update_of_ne hne] at hl' ⊢
      exact hl.serial l hl'
  · rcases eq_or_ne l b.session with rfl | hne <;> rcases eq_or_ne m b.session with rfl | hne'
    · rfl
    · rw [update_self] at hl'
      rw [update_of_ne hne'] at hm
      rw [update_self, update_of_ne hne', (hx hl').1] at heq
      exact absurd heq.symm (hsessions m hm hne')
    · rw [update_of_ne hne] at hl'
      rw [update_self] at hm
      rw [update_self, update_of_ne hne, (hx hm).1] at heq
      exact absurd heq (hsessions l hl' hne)
    · rw [update_of_ne hne] at hl'
      rw [update_of_ne hne'] at hm
      rw [update_of_ne hne, update_of_ne hne'] at heq
      exact hl.unique l m hl' hm heq
  · rw [update_of_ne (Nat.ne_of_gt (Nat.lt_of_lt_of_le hlt hq))]
    exact hl.fresh q hq
  · rcases eq_or_ne l b.session with rfl | hne
    · rw [update_self] at hl' ⊢
      rw [(hx hl').1, update_self]
      exact (hx hl').2
    · rw [update_of_ne hne] at hl' ⊢
      rw [update_of_ne (hsessions l hl' hne)]
      exact hl.session l hl'
  · rw [update_apply] at hl'
    split at hl'
    · obtain ⟨hserial, hkeeps⟩ := hj b' hl'
      rw [hserial, update_self]
      exact hkeeps
    · rename_i hne
      rw [update_of_ne (hothers l b' hl' hne)]
      exact hl.batch l b' hl'

end Ledger

/-! ## Sections -/

section Reserve

variable {x : Session} {mem : Shared} {max : Nat} {submissions : List Submission}

theorem reserveBatch_ok (h : x.reserveBatch mem max = .ok submissions) :
    submissions.length ≤ (ringCap - (x.completeTail - mem.completeHead)).toNat ∧
      x.submitHead.toNat + submissions.length < 2 ^ 64 := by
  unfold Session.reserveBatch at h
  split at h
  · cases h
  split at h
  · cases h
  split at h
  · cases h
  rename_i hwindow
  split at h
  · cases h
  split at h
  · cases h
  split at h
  · cases h
  split at h
  · cases h
  cases h
  rw [Bool.not_eq_false, windowValid, decide_eq_true_eq] at hwindow
  have hle : x.submitHead.toNat ≤ mem.submitTail.toNat := UInt64.le_iff_toNat_le.mp hwindow.1
  have hsub : (mem.submitTail - x.submitHead).toNat = mem.submitTail.toNat - x.submitHead.toNat :=
    UInt64.toNat_sub_of_le _ _ hwindow.1
  have hlt := mem.submitTail.toNat_lt
  rw [List.length_map, List.length_range]
  omega

end Reserve

section Sections

variable {w w' : World n} {k : Fin n} {A : UInt64} {i : Fin sessionCount} {b : Batch} {sub : Submission}
  {rest : List Submission}

def World.Ledgered (w : World n) : Prop := Ledger w.sessions w.jobs w.serials w.history

/-- The private index of the next submission of a batch. -/
theorem index_toNat (hw : w.Ledgered) (hbatched : w.Batched) (hjob : w.jobs k = .batch b) (hspawning : b.spawning = false) :
    (b.head + UInt64.ofNat b.done.length).toNat = (w.history b.serial).executed.length ∧
      (w.history b.serial).executed.length = (w.history b.serial).completed.length := by
  have hkeeps := hw.batch k b hjob
  have hserves := hbatched.serves k b hjob
  have hsession := hw.session b.session hserves.active
  rw [hserves.serial] at hsession
  obtain ⟨hcompleted, hexecuted⟩ := hkeeps.lengths hspawning
  have hbound := hkeeps.bound
  rw [← hserves.head, hsession.head, ← UInt64.ofNat_add, UInt64.toNat_ofNat', Nat.mod_eq_of_lt (by omega)]
  omega

/-- A batch with one submission less. -/
theorem Batch.Keeps.complete {h : History} (hkeeps : b.Keeps h) (hnext : b.todo = sub :: rest)
    {executed : List (UInt64 × Submission)} {c : Completion} {created : List Token}
    (hexecuted : executed.length = h.completed.length + 1) :
    ({ b with todo := rest, done := b.done ++ [c], created := created, spawning := false } : Batch).Keeps
      { h with executed := executed, completed := h.completed ++ [c] } := by
  have hpublished := hkeeps.published
  have hbound := hkeeps.bound
  have hspace := hkeeps.space
  rw [hnext, List.length_cons] at hbound hspace
  refine ⟨?_, ?_, .inl ⟨rfl, ?_⟩, ?_, ?_⟩ <;> dsimp only
  · rw [List.drop_append_of_le_length hpublished, hkeeps.done]
  · rw [List.length_append]
    omega
  · rw [hexecuted, List.length_append, List.length_singleton]
  · rw [List.length_append, List.length_singleton]
    omega
  · show (b.done ++ [c]).length + rest.length ≤ b.space
    rw [List.length_append, List.length_singleton]
    omega

/-- A busy session keeps its history if nothing is published. -/
theorem Session.Keeps.busy {x : Session} {h h' : History} (hkeeps : x.Keeps h) (hbusy : x.busy = true)
    (hpublished : h'.published = h.published) (hrefused : h'.refused = h.refused) : x.Keeps h' := by
  refine ⟨?_, hkeeps.tail, ?_, hrefused.trans hkeeps.live, fun hfree => ?_⟩
  · rw [hpublished]
    exact hkeeps.head
  · rw [hpublished]
    exact hkeeps.bound
  · cases hbusy.symm.trans hfree

theorem Ledger.goesOn {sessions : Sessions} {jobs : Fin n → Job} {serials : Nat} {history : Nat → History} {b' : Batch}
    {h' : History} (hl : Ledger sessions jobs serials history) (hbatches : Batches sessions jobs) (hjob : jobs k = .batch b)
    (hok : h'.Ok) (hpublished : h'.published = (history b.serial).published)
    (hrefused : h'.refused = (history b.serial).refused) (hserial : b'.serial = b.serial) (hkeeps : b'.Keeps h') :
    Ledger sessions (update jobs k (.batch b')) serials (update history b.serial h') := by
  have hserves := hbatches.serves k b hjob
  have hadvance : Ledger (update sessions b.session (sessions b.session)) (update jobs k (.batch b')) serials
      (update history b.serial h') := by
    refine hl.advance hbatches hjob hok (fun hactive => ⟨hserves.serial, ?_⟩) ?_
    · have hsession := hl.session b.session hactive
      rw [hserves.serial] at hsession
      exact hsession.busy hserves.busy hpublished hrefused
    · rintro _ ⟨⟩
      exact ⟨hserial, hkeeps⟩
  rw [update_eq_self] at hadvance
  exact hadvance

theorem complete_ledgered (hw : w.Ledgered) (hbatched : w.Batched) (hnext : w.Next k b sub rest) (hspawning : b.spawning = false)
    {c : Completion} {token : Option Token} (hc : c.requestId = sub.requestId) :
    ((w.start b sub).complete k b sub rest c token).Ledgered := by
  obtain ⟨hindex, hexecuted⟩ := index_toNat hw hbatched hnext.job hspawning
  have hkeeps := hw.batch k b hnext.job
  have hok := ((hw.ok b.serial).start hindex sub).complete (c := c) rfl hexecuted hkeeps.published hc
  have hlength : ((w.history b.serial).executed ++ [(b.head + UInt64.ofNat b.done.length, sub)]).length =
      (w.history b.serial).completed.length + 1 := by
    rw [List.length_append, hexecuted, List.length_singleton]
  unfold World.Ledgered World.complete World.start World.setHistory World.setJob
  dsimp only
  rw [update_self, update_idem]
  exact hw.goesOn hbatched hnext.job hok rfl rfl rfl (hkeeps.complete hnext.todo hlength)

theorem beginSpawn_ledgered (hw : w.Ledgered) (hbatched : w.Batched) (hnext : w.Next k b sub rest)
    (hspawning : b.spawning = false) : ((w.start b sub).setJob k (.batch { b with spawning := true })).Ledgered := by
  obtain ⟨hindex, hexecuted⟩ := index_toNat hw hbatched hnext.job hspawning
  have hkeeps := hw.batch k b hnext.job
  refine hw.goesOn hbatched hnext.job ((hw.ok b.serial).start hindex sub) rfl rfl rfl ?_
  exact ⟨hkeeps.done, hkeeps.published, .inr ⟨rfl, _, _, rest, rfl, hnext.todo, hexecuted⟩, hkeeps.bound, hkeeps.space⟩

theorem spawnDone_ledgered (hw : w.Ledgered) (hbatched : w.Batched) (hnext : w.Next k b sub rest)
    (hspawning : b.spawning = true) {c : Completion} {token : Option Token} (hc : c.requestId = sub.requestId) :
    (w.complete k b sub rest c token).Ledgered := by
  have hkeeps := hw.batch k b hnext.job
  rcases hkeeps.started with ⟨hfalse, -⟩ | ⟨-, executed, e, rest', hexecuted, htodo, hlength⟩
  · cases hspawning.symm.trans hfalse
  rw [hnext.todo] at htodo
  obtain ⟨rfl, -⟩ := List.cons.inj htodo
  have hok := (hw.ok b.serial).complete (c := c) hexecuted hlength hkeeps.published hc
  have hlast : (w.history b.serial).executed.length = (w.history b.serial).completed.length + 1 := by
    rw [hexecuted, List.length_append, hlength, List.length_singleton]
  exact hw.goesOn hbatched hnext.job hok rfl rfl rfl (hkeeps.complete hnext.todo hlast)

theorem publish_ledgered (hw : w.Ledgered) (hbatched : w.Batched) (hcalled : w.Called) (hjob : w.jobs k = .batch b)
    (hdone : b.todo = []) (mem : Shared) : (w.publishBatch k b mem).Ledgered := by
  have hkeeps := hw.batch k b hjob
  have hserves := hbatched.serves k b hjob
  have hsession := hw.session b.session hserves.active
  rw [hserves.serial] at hsession
  have htail : b.tail = UInt64.ofNat (w.history b.serial).published.length := by
    rw [← hserves.tail, hsession.tail, hsession.head]
  obtain ⟨hcompleted, hexecuted⟩ := hkeeps.lengths (Service.Called.spawning hcalled hjob hdone)
  have hok := (hw.ok b.serial).publish hkeeps htail
  unfold World.publishBatch
  dsimp only
  split
  · cases hpending : (w.sessions b.session).reclaimPending with
    | true => exact hw.advance hbatched hjob hok nofun nofun
    | false =>
      refine hw.advance hbatched hjob hok (fun _ => ⟨hserves.serial, ?_⟩) nofun
      have hhead : (w.sessions b.session).submitHead + UInt64.ofNat b.done.length =
          UInt64.ofNat ((w.history b.serial).published.length + b.done.length) := by
        rw [hsession.head, UInt64.ofNat_add]
      have hbound := hkeeps.bound
      refine ⟨?_, ?_, ?_, hsession.live, fun _ => ⟨hexecuted, ?_⟩⟩
      · refine hhead.trans ?_
        rw [List.length_append, List.length_mapIdx]
      · show b.tail + UInt64.ofNat b.done.length = (w.sessions b.session).submitHead + UInt64.ofNat b.done.length
        rw [← hserves.tail, hsession.tail]
      · rw [List.length_append, List.length_mapIdx]
        omega
      · rw [hcompleted, List.length_append, List.length_mapIdx]
  · exact hw.advance hbatched hjob (hw.ok b.serial).refuse nofun nofun

theorem got_ledger {sessions : Sessions} {jobs : Fin n → Job} {serials : Nat} {history : Nat → History} {ring : Nat}
    {x x' : Session} (hl : Ledger sessions jobs serials history) (hgot : (sessions i).Got ring A serials x)
    (hx : x'.active = x.active ∧ x'.serial = x.serial ∧ x'.submitHead = x.submitHead ∧ x'.completeTail = x.completeTail ∧
      x'.busy = x.busy) : Ledger (update sessions i x') jobs (serials + 1) history := by
  obtain ⟨hactive, hserial, hhead, htail, hbusy⟩ := hx
  rcases hgot with ⟨rfl, -, -⟩ | ⟨rfl, -⟩
  · refine Ledger.skip (hl.table fun l hl' => ?_)
    rcases eq_or_ne l i with rfl | hne
    · rw [update_self] at hl' ⊢
      exact ⟨hactive ▸ hl', hserial, hhead, htail, hbusy⟩
    · rw [update_of_ne hne] at hl' ⊢
      exact ⟨hl', rfl, rfl, rfl, rfl⟩
  · exact hl.opens hserial hhead htail

theorem Finds.ledgered (h : Finds w A w' i) (hw : w.Ledgered) : w'.Ledgered := by
  cases h with
  | owned => exact hw
  | direct _ hfound =>
    obtain ⟨x, hgot, rfl⟩ := sessionGet_ok hfound
    exact got_ledger hw hgot ⟨rfl, rfl, rfl, rfl, rfl⟩

theorem finish_requestId (data : Bytes) (out : Outcome) : (sub.finish data out).2.requestId = sub.requestId := by
  unfold Submission.finish Submission.finishToken Submission.finishRead
  split <;> (try dsimp only) <;> split <;> rfl

/-- **One section** keeps the ledger. -/
theorem Section.ledgered (h : Section w w') (hbatched : w.Batched) (hcalled : w.Called) (hw : w.Ledgered) :
    w'.Ledgered := by
  cases h with
  | connect | background | same | goesOn => exact hw
  | forget | answer | ask | spawn | spawned | delivered | rollback | unwind | reclaimObjects | reclaimed =>
    exact Ledger.job hw rfl
  | createRing hfresh hasks hregister =>
    obtain ⟨x, hgot, -, rfl⟩ := registerMapping_ok hregister
    exact Ledger.job (got_ledger hw hgot ⟨rfl, rfl, rfl, rfl, rfl⟩) rfl
  | @spawnDone k b sub rest a core out ha hnext hexec =>
    obtain ⟨c, hc, -⟩ := exec_thread_calls ha hexec
    have hspawns := hcalled.call k c hc
    have hspawning : b.spawning = true := by
      by_contra hfalse
      rw [hnext.job, spawns_of_idle (Bool.not_eq_true _ ▸ hfalse)] at hspawns
      cases hspawns
    exact spawnDone_ledgered (w := { w with core := core }) hw hbatched ⟨hnext.job, hnext.todo⟩ hspawning
      (finish_requestId _ _)
  | @withdraw k p r id hjob hundo =>
    have hforget : Ledger (forgetSession w.sessions id p.subject) w.jobs w.serials w.history := by
      rcases forgetSession_cases w.sessions id p.subject with hsame | ⟨i, -, -, -, -, hcleared⟩
      · rw [hsame]
        exact hw
      rw [hcleared]
      refine hw.table fun l hl => ?_
      rcases eq_or_ne l i with rfl | hne
      · rw [update_self] at hl
        cases hl
      · rw [update_of_ne hne] at hl ⊢
        exact ⟨hl, rfl, rfl, rfl, rfl⟩
    exact hforget.job rfl
  | found hfinds => exact hfinds.ledgered hw
  | @reserve k w₁ A i mem max submissions hidle hfinds hbusy hreserve htodo =>
    have hw₁ := hfinds.ledgered hw
    obtain ⟨hlength, hbound⟩ := reserveBatch_ok hreserve
    obtain ⟨hactive, -⟩ := hfinds.session
    have hsession := hw₁.session i hactive
    obtain ⟨hexecuted, hcompleted⟩ := hsession.idle hbusy
    have htake : (submissions.take (authoritySafeBatchCount submissions)).length ≤ submissions.length :=
      List.length_take_le' _ _
    refine hw₁.reserves ⟨?_, Nat.le_of_eq hcompleted.symm, .inl ⟨rfl, hexecuted⟩, ?_, ?_⟩
    · exact List.drop_eq_nil_of_le (Nat.le_of_eq hcompleted)
    · have hhead := congrArg UInt64.toNat hsession.head
      rw [UInt64.toNat_ofNat', Nat.mod_eq_of_lt hsession.bound] at hhead
      show (w₁.history (w₁.sessions i).serial).published.length + 0 +
        (submissions.take (authoritySafeBatchCount submissions)).length < 2 ^ 64
      omega
    · show 0 + (submissions.take (authoritySafeBatchCount submissions)).length ≤
        (ringCap - ((w₁.sessions i).completeTail - (w₁.memory i mem).completeHead)).toNat
      omega
  | dismiss hnext hspawning hc => exact complete_ledgered hw hbatched hnext hspawning hc
  | @execute k b sub rest a core data out hnext hspawning henters hexec =>
    exact complete_ledgered (w := { w with core := core }) hw hbatched ⟨hnext.job, hnext.todo⟩ hspawning
      (finish_requestId _ _)
  | @beginSpawn k b sub rest a core hnext hspawning henters hexec =>
    exact beginSpawn_ledgered (w := { w with core := core }) hw hbatched ⟨hnext.job, hnext.todo⟩ hspawning
  | publish mem hjob hdone => exact publish_ledgered hw hbatched hcalled hjob hdone mem
  | @unwound k A reclaim hjob => cases reclaim <;> exact Ledger.job hw rfl
  | @reclaimRings k A hjob =>
    have hrings : Ledger (Service.reclaimRings w.sessions A).1 w.jobs w.serials w.history := by
      refine hw.table fun i hi => ?_
      rcases reclaimRings_cases w.sessions A i with hsame | ⟨-, ⟨hbusy, hpending⟩ | ⟨-, hcleared⟩⟩
      · rw [hsame] at hi ⊢
        exact ⟨hi, rfl, rfl, rfl, rfl⟩
      · rw [hpending] at hi ⊢
        exact ⟨hi, rfl, rfl, rfl, rfl⟩
      · rw [hcleared] at hi
        cases hi
    refine hrings.job ?_
    split <;> rfl

end Sections

/-! ## What a section adds to a history -/

/-- What a batch adds to the history of its session: submissions and completions one by one, and at its end all its
completions at once, in the slots that follow. -/
structure Batch.Adds (b : Batch) (h h' : History) : Prop where
  executed : h.executed <+: h'.executed
  completed : h.completed <+: h'.completed
  published : h'.published = h.published ∨ b.todo = [] ∧ h'.executed = h.executed ∧ h'.completed = h.completed ∧
    h'.published = h.published ++ b.done.mapIdx fun i c => ((b.tail + UInt64.ofNat i) &&& ringMask, c)

section Growth

variable {w w' : World n}

/-- Only a batch adds to a history, to that of its session. -/
theorem Section.history (h : Section w w') : w'.history = w.history ∨ ∃ k b h', w.jobs k = .batch b ∧
    w'.history = update w.history b.serial h' ∧ b.Adds (w.history b.serial) h' := by
  have hcomplete : ∀ (core : State n) {k : Fin n} {b : Batch} {sub : Submission} {rest : List Submission} {c : Completion}
      {token : Option Token}, w.jobs k = .batch b →
      (({ w with core := core }.start b sub).complete k b sub rest c token).history = w.history ∨ ∃ k b' h',
        w.jobs k = .batch b' ∧ (({ w with core := core }.start b sub).complete k b sub rest c token).history =
          update w.history b'.serial h' ∧ b'.Adds (w.history b'.serial) h' := by
    intro core k b sub rest c token hjob
    refine .inr ⟨k, b, ⟨(w.history b.serial).executed ++ [(b.head + UInt64.ofNat b.done.length, sub)],
      (w.history b.serial).completed ++ [c], (w.history b.serial).published, (w.history b.serial).refused⟩, hjob, ?_,
      ⟨List.prefix_append _ _, List.prefix_append _ _, .inl rfl⟩⟩
    unfold World.complete World.start World.setHistory World.setJob
    dsimp only
    rw [update_self, update_idem]
  cases h with
  | connect | forget | background | same | answer | ask | spawn | createRing | goesOn | spawned | delivered | withdraw
  | rollback | unwind | unwound | reclaimRings | reclaimObjects | reclaimed => exact .inl rfl
  | spawnDone ha hnext hexec =>
    exact .inr ⟨_, _, _, hnext.job, rfl, List.prefix_rfl, List.prefix_append _ _, .inl rfl⟩
  | found hfinds => cases hfinds <;> exact .inl rfl
  | reserve _ hfinds => cases hfinds <;> exact .inl rfl
  | dismiss hnext => exact hcomplete w.core hnext.job
  | execute hnext => exact hcomplete _ hnext.job
  | beginSpawn hnext => exact .inr ⟨_, _, _, hnext.job, rfl, List.prefix_append _ _, List.prefix_rfl, .inl rfl⟩
  | publish mem hjob hdone =>
    unfold World.publishBatch
    dsimp only
    split
    · exact .inr ⟨_, _, _, hjob, rfl, List.prefix_rfl, List.prefix_rfl, .inr ⟨hdone, rfl, rfl, rfl⟩⟩
    · exact .inr ⟨_, _, _, hjob, rfl, List.prefix_rfl, List.prefix_rfl, .inl rfl⟩

/-- The invariants of sessions, batches, spawns and histories. -/
structure World.Whole (w : World n) : Prop where
  batched : w.Batched
  called : w.Called
  ledgered : w.Ledgered

theorem step_whole {a : Act n} (hw : w.Whole) (h : w.step a = some w') : w'.Whole :=
  have hsection := step_section h
  ⟨hsection.batched hw.batched, hsection.called hw.called, hsection.ledgered hw.batched hw.called hw.ledgered⟩

theorem reachable_whole {runtimeId : UInt64} {key : Key} (h : Reachable World.step (World.init n runtimeId key) w) :
    w.Whole := by
  refine h.induction ⟨init_batched runtimeId key, ⟨nofun, fun _ => rfl⟩, ?_⟩ fun _ _ _ hw hstep => step_whole hw hstep
  exact ⟨fun _ => History.ok_nil, nofun, nofun, fun _ _ => rfl, nofun, nofun⟩

/-- Nothing more happens to a session whose batch was refused. -/
theorem Section.frozen (h : Section w w') (hw : w.Whole) {q : Nat} (hrefused : (w.history q).refused = true) :
    w'.history q = w.history q := by
  rcases h.history with hsame | ⟨k, b, h', hjob, hupdate, -⟩
  · rw [hsame]
  rw [hupdate]
  refine update_of_ne ?_ _ _
  rintro rfl
  have hserves := hw.batched.serves k b hjob
  have hlive := (hw.ledgered.session b.session hserves.active).live
  rw [hserves.serial] at hlive
  cases hlive.symm.trans hrefused

theorem run_frozen (hw : w.Whole) {q : Nat} (hrefused : (w.history q).refused = true) {as : List (Act n)}
    (h : run World.step w as = some w') : w'.history q = w.history q := by
  have hstep : ∀ (u : World n) (a : Act n) (u' : World n), u.Whole ∧ u.history q = w.history q → u.step a = some u' →
      u'.Whole ∧ u'.history q = w.history q := by
    rintro u a u' ⟨hu, hsame⟩ hstep
    refine ⟨step_whole hu hstep, ?_⟩
    rw [(step_section hstep).frozen hu (hsame ▸ hrefused), hsame]
  exact (run_induction hstep ⟨hw, rfl⟩ h).2

/-- A batch that is done has executed what it has completed. -/
theorem World.Whole.executed (hw : w.Whole) {k : Fin n} {b : Batch} (hjob : w.jobs k = .batch b) (hdone : b.todo = []) :
    (w.history b.serial).executed.length = (w.history b.serial).published.length + b.done.length := by
  have hkeeps := hw.ledgered.batch k b hjob
  have hlengths := hkeeps.lengths (Service.Called.spawning hw.called hjob hdone)
  omega

/-- **All or nothing**: a section publishes nothing, or all that was executed. -/
theorem Section.published (h : Section w w') (hw : w.Whole) (q : Nat) :
    (w'.history q).published = (w.history q).published ∨ (w.history q).published <+: (w'.history q).published ∧
      (w'.history q).executed = (w.history q).executed ∧
      (w'.history q).published.length = (w'.history q).executed.length := by
  rcases h.history with hsame | ⟨k, b, h', hjob, hupdate, hadds⟩
  · rw [hsame]
    exact .inl rfl
  rw [hupdate]
  rcases eq_or_ne q b.serial with rfl | hne
  · rw [update_self]
    rcases hadds.published with heq | ⟨hdone, hexecuted, -, hpublished⟩
    · exact .inl heq
    refine .inr ⟨?_, hexecuted, ?_⟩
    · rw [hpublished]
      exact List.prefix_append _ _
    · rw [hexecuted, hw.executed hjob hdone, hpublished, List.length_append, List.length_mapIdx]
  · rw [update_of_ne hne]
    exact .inl rfl

/-- The cursors of a session are where its history says. -/
theorem World.Whole.cursors (hw : w.Whole) {i : Fin sessionCount} (hactive : (w.sessions i).active = true) :
    (w.sessions i).submitHead.toNat = (w.history (w.sessions i).serial).published.length ∧
      (w.sessions i).completeTail = (w.sessions i).submitHead := by
  have hkeeps := hw.ledgered.session i hactive
  refine ⟨?_, hkeeps.tail⟩
  rw [hkeeps.head, UInt64.toNat_ofNat', Nat.mod_eq_of_lt hkeeps.bound]

theorem Section.cursors (h : Section w w') (hw : w.Whole) (hw' : w'.Whole) {i : Fin sessionCount}
    (hactive : (w.sessions i).active = true) (hactive' : (w'.sessions i).active = true)
    (hserial : (w'.sessions i).serial = (w.sessions i).serial) :
    ∃ m, (w'.sessions i).submitHead.toNat = (w.sessions i).submitHead.toNat + m ∧
      (w'.sessions i).completeTail.toNat = (w.sessions i).completeTail.toNat + m := by
  obtain ⟨hhead, htail⟩ := hw.cursors hactive
  obtain ⟨hhead', htail'⟩ := hw'.cursors hactive'
  have hle : (w.history (w.sessions i).serial).published.length ≤ (w'.history (w.sessions i).serial).published.length := by
    rcases h.published hw (w.sessions i).serial with heq | ⟨hinitial, -⟩
    · rw [heq]
    · exact hinitial.length_le
  rw [hserial] at hhead'
  refine ⟨(w'.history (w.sessions i).serial).published.length - (w.history (w.sessions i).serial).published.length, ?_, ?_⟩
  · omega
  · rw [htail, htail']
    omega

end Growth

/-! ## The result -/

/-- **Ring integrity.** Whatever the shared memory holds at any section: the private cursors of a session advance together;
the submissions of a session are executed at the private indices 0, 1, 2 and so on, each once; one completion per
submission is published, in the order of execution, in the slots that follow each other; a step publishes nothing or all
that was executed; a batch has room for all its completions; and a session whose batch was refused is in no slot, and
nothing of it is executed any more. -/
theorem ring_integrity {runtimeId : UInt64} {key : Key} {w : World n}
    (h : Reachable World.step (World.init n runtimeId key) w) :
    (∀ a w', w.step a = some w' → ∀ i, (w.sessions i).active = true → (w'.sessions i).active = true →
      (w'.sessions i).serial = (w.sessions i).serial → ∃ m,
        (w'.sessions i).submitHead.toNat = (w.sessions i).submitHead.toNat + m ∧
        (w'.sessions i).completeTail.toNat = (w.sessions i).completeTail.toNat + m) ∧
    (∀ q, (w.history q).executed.map (fun e => e.1.toNat) = List.range (w.history q).executed.length) ∧
    (∀ q, (w.history q).completed.map Completion.requestId <+: (w.history q).executed.map (fun e => e.2.requestId) ∧
      (w.history q).published =
        ((w.history q).completed.take (w.history q).published.length).mapIdx fun j c => (completionSlot j, c)) ∧
    (∀ a w', w.step a = some w' → ∀ q, (w'.history q).published = (w.history q).published ∨
      (w.history q).published <+: (w'.history q).published ∧ (w'.history q).executed = (w.history q).executed ∧
        (w'.history q).published.length = (w'.history q).executed.length) ∧
    (∀ k b, w.jobs k = .batch b → b.done.length + b.todo.length ≤ b.space) ∧
    (∀ q, (w.history q).refused = true → (∀ i, (w.sessions i).active = true → (w.sessions i).serial ≠ q) ∧
      ∀ as w', run World.step w as = some w' → w'.history q = w.history q) := by
  have hw := reachable_whole h
  refine ⟨fun a w' hstep i hactive hactive' hserial => ?_, fun q => (hw.ledgered.ok q).indices,
    fun q => ⟨(hw.ledgered.ok q).requests, (hw.ledgered.ok q).published⟩,
    fun a w' hstep q => (step_section hstep).published hw q, fun k b hjob => (hw.ledgered.batch k b hjob).space,
    fun q hrefused => ⟨?_, fun as w' hrun => run_frozen hw hrefused hrun⟩⟩
  · exact (step_section hstep).cursors hw (step_whole hw hstep) hactive hactive' hserial
  · rintro i hactive rfl
    cases (hw.ledgered.session i hactive).live.symm.trans hrefused

/-- A request without rights, token or data. -/
def Request.bare (op : UInt32) (slot length : UInt64) : Request :=
  ⟨true, op, slot, ⊥, ⊥, 0, length, ⟨0, 0, 0, 0, 0, ⊥, 0, 0, (0, 0), (0, 0)⟩, [], none⟩

/-- A request of subject 7. -/
def asks (r : Request) (mem : Shared) : Act 1 := .request ⟨0, Nat.one_pos⟩ 7 r 5 mem (fun _ => 0) .plain

set_option maxRecDepth 100000 in
/-- The client submits a `NOP` and then writes to `submit_head`. -/
theorem ring_integrity_tampered : ∃ w : World 1, (w.history 0).executed.length = 1 ∧ (w.history 0).refused = true ∧
    ∀ as w', run World.step w as = some w' → w'.history 0 = w.history 0 := by
  obtain ⟨w, hw, hf⟩ := exists_reachable World.step (World.init 1 1 ⟨1, 2, 3, 4⟩)
    (fun w => ((w.history 0).executed.length, (w.history 0).refused))
    [.connect 7, asks (.bare 21 0 0) .initial, .delivered 0, asks (.bare 22 1 1) { Shared.initial with submitTail := 1 },
      .execute 0 (fun _ => 0) (fun _ => 0) .plain, .publish 0 { Shared.initial with submitHead := 9, submitTail := 1 }]
    (b := (1, true)) (by decide +kernel)
  obtain ⟨hexecuted, hrefused⟩ := Prod.mk.inj hf
  exact ⟨w, hexecuted, hrefused, ((ring_integrity hw).2.2.2.2.2 0 hrefused).2⟩

end Llam.Service
