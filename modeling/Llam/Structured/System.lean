import Llam.Structured.Retire

/-!
# The invariant of the system

Every section fits (`exec_runs`), every call begins in order (`firstSection_opens`), and a task that ends hands its entries
over to its retirement. So every step keeps the invariant (`step_inv`), and it holds in every reachable state
(`reachable_inv`).
-/

namespace Llam.Structured

open Llam.Lib Function Store Thread

variable {V F S T : Type} [DecidableEq V] [DecidableEq F] [DecidableEq S] [DecidableEq T]
  {s s' : State V F S T} {st st' : Store V F S T} {t : T} {m : Section V F S} {rest todo : List (Section V F S)}
  {k : Account V F S} {r : Ref V F S} {sc : S} {f : F} {v : V} {x : Scope} {y : Future V} {error : Option Errno} {n : Nat}

/-! ## Sections -/

/-- **No section aborts, and every section fits.** -/
theorem exec_runs (env : Env F T) (h : Inv s) (htodo : (s.threads t).todo = m :: rest) :
    Runs s t m (exec s.store t (s.threads t) env m) := by
  cases m with
  | endOp r => exact structuredEnd_runs h htodo
  | release r => exact structuredRelease_runs h htodo
  | freeArgument f => exact futureFreeArgument_runs h htodo
  | freeResult f => exact futureFreeResult_runs h htodo
  | consume r => exact structuredConsume_runs h htodo rfl rfl
  | valueType v type => exact valueData_runs h htodo
  | awaitReady f => exact futureAwaitReady_runs h htodo
  | awaitDone f => exact futureAwaitDone_runs h htodo
  | awaitCheck f => exact futureAwaitCheck_runs h htodo
  | take f contract => exact futureTake_runs h htodo
  | destroy sc => exact scopeDestroy_runs h htodo
  | cancelClose sc => exact scopeCancel_runs h htodo
  | requestCheck sc after => exact scopeRequestCheck_runs h htodo
  | requestToken sc after => exact scopeRequestToken_runs h htodo
  | requestDone sc after => exact scopeRequestDone_runs h htodo
  | notifyScope sc => exact notifyScope_runs h htodo
  | beginDrain sc cancel => exact scopeBeginDrain_runs h htodo
  | drainWait sc => exact scopeCleanupWait_runs h htodo
  | finishDrain sc => exact scopeFinishDrain_runs h htodo
  | spawnCheck sc argument contract => exact scopeSpawnCheck_runs h htodo
  | prepare sc argument contract => exact futurePrepare_runs h
  | reserve sc f argument => exact scopeReserveSpawn_runs h htodo
  | spawnTask sc f argument => exact spawnScoped_runs h htodo
  | commitClaim sc f v => exact valueCommitClaim_runs h htodo
  | announce sc f => exact announceFuture_runs h htodo
  | rollbackClaim sc f v => exact valueRollbackClaim_runs h htodo
  | rollbackSpawn sc f => exact scopeRollbackSpawn_runs h htodo
  | finishSpawn sc f failed => exact scopeFinishSpawn_runs h htodo
  | consumeFailed sc f => exact scopeSpawnDiscard_runs h htodo
  | entryReturned sc f => exact scopedEntryReturned_runs h htodo
  | prepareRetire sc f => exact scopedPrepareRetire_runs h htodo
  | releaseInputs sc f => exact scopedReleaseInputs_runs h htodo
  | publish sc f => exact scopedPublish_runs h htodo
  | notifyFuture f => exact notifyFuture_runs h htodo

/-! ## Calls -/

/-- What the first section of the `n`th call of a thread has to do. -/
structure Opens (st : Store V F S T) (t : T) (n : Nat) (st' : Store V F S T) (todo : List (Section V F S))
    (error : Option Errno) : Prop where
  few : st'.Few
  law : ∀ k, st'.total k = st.total k + todoBooks todo k
  records : st'.Ok
  frame : ∀ f, SamePhase st st' f
  ledger : Ledger st'
  phase : ∀ m ∈ todo, m.Phase st'
  guarded : Guarded todo
  alone : ∀ m ∈ todo, todo = [m]
  log : st'.consumed = st.consumed ∨
    (error = none ∧ todo = [] ∧ ∃ r g, st'.consumed = st.consumed ++ [⟨r, g, t, n⟩])

section

variable (h : Inv s)

include h

/-- Whoever works on a future finds it as it was. -/
theorem Inv.phased_of_frame (hframe : ∀ f, SamePhase s.store st' f) (u : T) : (s.threads u).Phased st' := by
  have hsome (f : F) (hlife : 0 < (s.threads u).books (.life f)) : s.store.futures f ≠ none :=
    (Balanced.life_le f s.store).2 (Int.lt_of_lt_of_le hlife (h.balanced.covers u _))
  refine ⟨fun m hm => ?_, ?_, (h.phased u).guarded⟩
  · refine ((h.phased u).todo m hm).keep fun f hlife => ⟨hsome f ?_, hframe f⟩
    have hle := entries_le_todoBooks hm (.life f)
    have htask := entries_nonneg (taskAccounts (s.threads u).completion) (.life f : Account V F S)
    unfold Thread.books
    omega
  · refine (h.phased u).task.keep fun f hlife => ⟨hsome f ?_, hframe f⟩
    have htodo := todoBooks_nonneg (s.threads u).todo (.life f)
    unfold Thread.books
    omega

/-- **The invariant after the first section of a call.** -/
theorem Inv.opens (c : Call V F S) (htodo : (s.threads t).todo = [])
    (hopens : Opens s.store t ((s.threads t).calls + 1) st' todo error) :
    Inv ({ s with store := st' }.setThread t (((s.threads t).enter c).proceed todo error)) := by
  have hphased := h.phased_of_frame hopens.frame
  refine {
    balanced := ⟨hopens.few, h.balanced.busy.update t _, fun k => ?_⟩
    records := hopens.records
    phased := fun u => ?_
    ledger := hopens.ledger
    kept := fun u => ?_
    sound := h.sound }
  · show st'.total k = tally (fun _ th => Thread.books th k) (update s.threads t _)
    rw [tally_update h.balanced.busy (fun _ _ hb => hb.books k), ← h.balanced.law, hopens.law, Thread.books, Thread.books,
      htodo, proceed_todo, proceed_completion, todoBooks_nil]
    show _ = _ - (0 + entries (taskAccounts (s.threads t).completion) k) +
      (_ + entries (taskAccounts (s.threads t).completion) k)
    omega
  · show Thread.Phased st' (update s.threads t _ u)
    rcases eq_or_ne u t with rfl | hne
    · rw [update_self]
      refine ⟨fun m hm => ?_, ?_, ?_⟩
      · rw [proceed_todo] at hm
        exact hopens.phase m hm
      · rw [proceed_completion]
        exact (hphased u).task
      · rw [proceed_todo]
        exact hopens.guarded
    · rw [update_of_ne hne]
      exact hphased u
  · show Thread.Kept st'.consumed u (update s.threads t _ u)
    rcases eq_or_ne u t with rfl | hne
    · rw [update_self]
      refine ⟨fun cs hcs hcu => ?_, fun m hm _ => ?_, proceed_idle⟩
      · rw [proceed_calls]
        show cs.call ≤ (s.threads u).calls + 1 ∧ (cs.call = (s.threads u).calls + 1 → _)
        rcases hopens.log with hsame | ⟨herror, hnil, r, g, hnew⟩
        · have := ((h.kept u).past cs (hsame ▸ hcs) hcu).1
          exact ⟨by omega, fun heq => by omega⟩
        rw [hnew] at hcs
        rcases List.mem_append.mp hcs with hcs | hcs
        · have := ((h.kept u).past cs hcs hcu).1
          exact ⟨by omega, fun heq => by omega⟩
        cases List.mem_singleton.mp hcs
        refine ⟨Nat.le_refl _, fun _ => ⟨?_, fun _ m hm => ?_⟩⟩
        · rw [proceed_outcome, if_neg (by rintro ⟨⟩)]
          exact herror
        · rw [proceed_todo, hnil] at hm
          cases hm
      · rw [proceed_todo] at hm ⊢
        obtain rfl := hopens.alone m hm
        exact ⟨rfl, by rintro ⟨⟩⟩
    · rw [update_of_ne hne]
      refine ⟨fun cs hcs hcu => (h.kept u).past cs ?_ hcu, (h.kept u).alone, (h.kept u).idle⟩
      rcases hopens.log with hsame | ⟨-, -, r, g, hnew⟩
      · exact hsame ▸ hcs
      rw [hnew] at hcs
      rcases List.mem_append.mp hcs with hcs | hcs
      · exact hcs
      · cases List.mem_singleton.mp hcs
        exact absurd hcu.symm hne

theorem Opens.same : Opens s.store t n s.store [] error :=
  ⟨h.balanced.few, fun _ => (Int.add_zero _).symm, h.records, .refl s.store, h.ledger, nofun, trivial, nofun, .inl rfl⟩

theorem Opens.begin {g : Nat} (hbegin : s.store.begin r g = .ok st') (hm : m.accounts = pin r)
    (hphase : m.Phase st') (hnotifies : m.notifies = none) : Opens s.store t n st' [m] error := by
  unfold Store.begin at hbegin
  split at hbegin
  · cases hbegin
  rename_i o hresolve
  obtain ⟨ho, hlive, -, hshown, hclaimed⟩ := resolve_ok hresolve
  have hrefs := h.live_refs ho hlive
  split at hbegin
  · cases hbegin
  cases hbegin
  have hfine : Object.Fine s.store r o { o with refs := o.refs + 1, publicOps := o.publicOps + 1 } :=
    ⟨(h.records.disposal ho).retain hrefs _ _, fun hc => ⟨hc, hlive⟩, rfl, .inl hshown, .inr hrefs, .inl hshown⟩
  refine ⟨h.balanced.few.setObject r _, fun k => ?_, h.records.setObject ho hfine, fun f => .setObject ho f,
    h.ledger.setObject ho rfl rfl, by simpa using hphase, guarded_one hnotifies, by simp,
    .inl (setObject_consumed _ _)⟩
  have hheader : headerBooks s.store r o { o with refs := o.refs + 1, publicOps := o.publicOps + 1 } k = 0 := by
    have h₁ : (o.refs == 0) = false := by simp; omega
    cases r with
    | value v => simp [headerBooks]
    | scope sc => rfl
    | future f =>
      simp only [headerBooks]
      split
      · rfl
      · simp [h₁]
  rw [total_setObject h.balanced.few ho hfine.shown, hheader, todoBooks_cons, todoBooks_nil, hm]
  simp only [pin, entries_cons, entries_nil]
  push_cast
  ring

/-- A new object has its handle as the only reference, so the books do not change. -/
theorem Opens.newValue {type : Descriptor} (hv : s.store.values v = none) :
    Opens s.store t n (s.store.setValue v ⟨.published, type⟩) [] none := by
  refine ⟨h.balanced.few.setValue v _, fun k => ?_, h.records.setValue ⟨rfl, nofun, Nat.le_refl 1⟩, fun f => .refl _ f, ?_,
    nofun, trivial, nofun, .inl rfl⟩
  · rw [total_setValue h.balanced.few, hv]
    simp [Value.books, Object.books, Object.published]
  · refine h.ledger.fresh (r := .value v) ?_ ?_ (fun q hq => ?_) (fun q _ hq => ?_) rfl
    · rw [Store.handle, Store.object, hv]
      rfl
    · rw [Store.handle, object_setValue, if_pos rfl]
      rfl
    · rw [Store.handle, object_setValue, if_neg hq]
      rfl
    · rwa [announced_setValue] at hq

theorem Opens.newScope (hsc : s.store.scopes sc = none) : Opens s.store t n (s.store.setScope sc .allocate) [] none := by
  refine ⟨h.balanced.few.setScope sc _, fun k => ?_, h.records.setScope ⟨rfl, rfl, rfl, rfl, nofun, nofun⟩,
    fun f => .refl _ f, ?_, nofun, trivial, nofun, .inl rfl⟩
  · rw [total_setScope h.balanced.few, hsc]
    simp [Scope.books, Object.books, Object.published, Scope.allocate]
  · refine h.ledger.fresh (r := .scope sc) ?_ ?_ (fun q hq => ?_) (fun q _ hq => ?_) rfl
    · rw [Store.handle, Store.object, hsc]
      rfl
    · rw [Store.handle, object_setScope, if_pos rfl]
      rfl
    · rw [Store.handle, object_setScope, if_neg hq]
      rfl
    · rwa [announced_setScope] at hq

end

/-! ## Setting the outcome -/

/-- A value that is taken loses its handle, and the reference of the handle goes to whoever took it. -/
theorem valueTake_ok {hd : Option (Handle V)} {expected : Descriptor} {w : Option V}
    (h : valueTake st hd expected t n = .ok (st', w)) : (w = none ∧ st' = st) ∨ ∃ v x, w = some v ∧
      st.values v = some x ∧ x.object.publicLive = true ∧ x.object.claimed = false ∧
      st' = (st.setObject (.value v) { x.object with publicLive := false, claimed := false }).consumes (.value v)
        x.object.generation t n := by
  unfold valueTake at h
  cases hd with
  | none =>
    simp only at h
    split at h <;> cases h
    exact .inl ⟨rfl, rfl⟩
  | some hd =>
    simp only at h
    split at h
    · rename_i o x hresolve hx
      obtain ⟨ho, hlive, -, -, hclaimed⟩ := resolve_ok hresolve
      obtain ⟨z, hz, rfl⟩ := object_value.mp ho
      cases hz.symm.trans hx
      split at h
      · cases h
      split at h
      · cases h
      · cases h
        exact .inr ⟨hd.1, x, rfl, hx, hlive, hclaimed, rfl⟩
    · cases h
    · cases h

/-- The future of a running task is not completed. -/
theorem Inv.task (h : Inv s) (hcompletion : (s.threads t).completion = some (f, sc)) :
    ∃ y, s.store.futures f = some y ∧ y.unfinished = true ∧ 0 < y.object.refs := by
  have hcovers (k : Account V F S) : entries (.life f :: taskRefs sc f) k ≤ s.store.total k := by
    have hle := h.balanced.covers t k
    have htodo := todoBooks_nonneg (s.threads t).todo k
    rw [Thread.books, hcompletion] at hle
    have htask : entries (taskAccounts (some (f, sc))) k = entries (.life f :: taskRefs sc f) k := rfl
    omega
  have hlife := hcovers (.life f)
  have hrefs := hcovers (.refs (.future f))
  rw [total_future rfl] at hlife
  rw [total_future rfl] at hrefs
  cases hy : s.store.futures f with
  | none =>
    rw [hy] at hlife
    simp [Future.books, entry] at hlife
  | some y =>
    rw [hy] at hlife hrefs
    refine ⟨y, rfl, ?_, ?_⟩
    · by_contra hnot
      rw [Bool.not_eq_true] at hnot
      simp [Future.books, Object.books, entry, slotBooks_other, hnot] at hlife
    · have := flag_nonneg y.object.publicLive
      simp [Future.books, Object.books, entry, slotBooks_other] at hrefs
      omega

theorem taskSetOutcome_opens {kind : Kind} {hd : Option (Handle V)} (h : Inv s)
    (hcompletion : (s.threads t).completion = some (f, sc)) (hset : taskSetOutcome s.store f kind hd t n = .ok st') :
    Opens s.store t n st' [] none := by
  obtain ⟨y, hy, hunfinished, hrefs⟩ := h.task hcompletion
  have hok := h.records.futures f y hy
  simp only [taskSetOutcome, hy] at hset
  split at hset
  · cases hset
  rename_i hkind
  rw [not_not] at hkind
  -- the outcome of a future that had none, in a store from which the result was taken
  have record {st : Store V F S T} {w : Option V} (hfew : st.Few) (hst : st.Ok) (hledger : Ledger st)
      (hfutures : st.futures = s.store.futures) (hlaw : ∀ k, st.total k = s.store.total k + slotBooks w k)
      (hlog : st.consumed = s.store.consumed ∨ ∃ r g, st.consumed = s.store.consumed ++ [⟨r, g, t, n⟩]) :
      Opens s.store t n (st.setFuture f { y with kind := some kind, result := w }) [] none := by
    have hy' : st.futures f = some y := by rw [hfutures, hy]
    refine ⟨hfew.setFuture f _, fun k => ?_, hst.setFuture ?_, fun g => ?_, hledger.setFuture hy' rfl rfl id, by simp, trivial,
      (by simp), ?_⟩
    · rw [total_setFuture hfew, hy', hlaw, todoBooks_nil]
      simp only [Future.books, Future.hidden, Future.unfinished, Future.dead, Future.heldArgument, hok.result hkind,
        slotBooks]
      ring
    · refine { hok with result := by simp, freed := fun hf => ?_, finished := fun hf => ?_ }
      · have := (hok.freed hf).1
        omega
      · have hf : y.unfinished = false := hf
        rw [hunfinished] at hf
        cases hf
    · intro z hz
      rcases eq_or_ne g f with rfl | hne
      · cases (setFuture_self g _).symm.trans hz
        exact .inr ⟨y, hy, rfl, rfl, rfl, fun _ => (by simp)⟩
      · rw [setFuture_of_ne hne, hfutures] at hz
        exact .inr ⟨z, hz, .refl z⟩
    · rcases hlog with hsame | hnew
      · exact .inl hsame
      · exact .inr ⟨rfl, rfl, hnew⟩
  have hnone {k : Account V F S} : s.store.total k = s.store.total k + slotBooks none k := by simp [slotBooks]
  split at hset
  · cases hset
    have hy' : { y with kind := some kind } = { y with kind := some kind, result := none } := by
      rw [← hok.result hkind]
    rw [hy']
    exact record h.balanced.few h.records h.ledger rfl (fun _ => hnone) (.inl rfl)
  · split at hset
    · cases hset
    rename_i st'' w htake
    cases hset
    rcases valueTake_ok htake with ⟨rfl, rfl⟩ | ⟨v, x, rfl, hx, hlive, hclaimed, rfl⟩
    · exact record h.balanced.few h.records h.ledger rfl (fun _ => hnone) (.inl rfl)
    have ho : s.store.object (.value v) = some x.object := by rw [Store.object, hx]; rfl
    have hxok := h.records.values v x hx
    refine record ((h.balanced.few.setObject _ _).consumes _ _ _ _) ?_ (h.ledger.consumeObject h.records ho hlive rfl rfl) rfl
      (fun k => ?_) (.inr ⟨.value v, x.object.generation, ?_⟩)
    · rw [setObject_value hx]
      refine Store.Ok.consumes (h.records.setValue ?_) _ _ _ _
      exact ⟨hxok.disposal, by simp, hxok.published⟩
    · rw [total_consumes, total_setObject h.balanced.few ho (.inl rfl)]
      simp only [headerBooks, hlive, hclaimed, flag_true, flag_false, slotBooks]
      ring
    · rw [Store.consumes, setObject_consumed]

/-! ## Steps -/

/-- The section that follows the begin of an operation has the operation as its only entry. -/
theorem Call.target_spec (st : Store V F S T) {c : Call V F S} {g : Nat} (h : c.target = some (r, g, m)) :
    m.accounts = pin r ∧ m.Phase st ∧ m.notifies = none := by
  cases c <;> cases h <;> exact ⟨rfl, trivial, rfl⟩

/-- How a call begins: what its first section leaves in the store, to be done, and as its result. -/
inductive Begins (st : Store V F S T) (t : T) (th : Thread V F S) (c : Call V F S) :
    Store V F S T → List (Section V F S) → Option Errno → Prop
  | refused (e : Errno) : Begins st t th c st [] (some e)
  | newValue {v : V} (type : Descriptor) (hv : st.values v = none) :
      Begins st t th c (st.setValue v ⟨.published, type⟩) [] none
  | newScope {sc : S} (hsc : st.scopes sc = none) : Begins st t th c (st.setScope sc .allocate) [] none
  | outcome {f : F} {sc : S} {kind : Kind} {value : Option (Handle V)} {st' : Store V F S T}
      (hf : th.completion = some (f, sc)) (hset : taskSetOutcome st f kind value t th.calls = .ok st') :
      Begins st t th c st' [] none
  | target {r : Ref V F S} {g : Nat} {first : Section V F S} {st' : Store V F S T} (m : Section V F S)
      (error : Option Errno) (htarget : c.target = some (r, g, first)) (hbegin : st.begin r g = .ok st')
      (hm : m = .endOp r ∨ m = first) : Begins st t th c st' [m] error

theorem firstSection_begins {st : Store V F S T} {c : Call V F S} {env : Env F T} {th : Thread V F S}
    (h : firstSection st t th c env = some (st', todo, error)) : Begins st t th c st' todo error := by
  unfold firstSection at h
  split at h
  · cases h
    exact .refused _
  split at h
  · split at h <;> cases h
    · exact .refused _
    · exact .newValue _ ‹_›
  · split at h <;> cases h
    · exact .refused _
    · exact .newScope ‹_›
  · split at h
    · cases h
      exact .refused _
    split at h <;> cases h
    · exact .refused _
    · exact .outcome ‹_› ‹_›
  · split at h
    · cases h
    split at h
    · cases h
      exact .refused _
    split at h <;> cases h
    · exact .target _ _ ‹_› ‹_› (.inl rfl)
    · exact .target _ _ ‹_› ‹_› (.inr rfl)

/-- **Every call begins in order.** -/
theorem firstSection_opens {c : Call V F S} {env : Env F T} {th : Thread V F S} (h : Inv s)
    (hcompletion : th.completion = (s.threads t).completion)
    (hfirst : firstSection s.store t th c env = some (st', todo, error)) : Opens s.store t th.calls st' todo error := by
  cases firstSection_begins hfirst with
  | refused e => exact .same h
  | newValue type hv => exact .newValue h hv
  | newScope hsc => exact .newScope h hsc
  | outcome hf hset => exact taskSetOutcome_opens h (hcompletion ▸ hf) hset
  | target m error htarget hbegin hm =>
    rcases hm with rfl | rfl
    · exact .begin h hbegin rfl trivial rfl
    · obtain ⟨haccounts, hphase, hnotifies⟩ := Call.target_spec st' htarget
      exact .begin h hbegin haccounts hphase hnotifies

/-- A task that ends hands its entries over to its retirement. -/
theorem exit_inv (h : Inv s) (htodo : (s.threads t).todo = []) (hcompletion : (s.threads t).completion = some (f, sc))
    (hm : m = .entryReturned sc f ∨ m = .prepareRetire sc f) :
    Inv (s.setThread t { s.threads t with alive := false, completion := none, todo := [m] }) := by
  have haccounts : m.accounts = .life f :: taskRefs sc f := by rcases hm with rfl | rfl <;> rfl
  have hphase : m.Phase s.store := by
    have htask := (h.phased t).task f sc hcompletion
    rcases hm with rfl | rfl <;> exact htask
  have hplain : m.notifies = none ∧ m.mayConsume = false := by rcases hm with rfl | rfl <;> exact ⟨rfl, rfl⟩
  refine {
    balanced := ⟨h.balanced.few, h.balanced.busy.update t _, fun k => ?_⟩
    records := h.records
    phased := fun u => ?_
    ledger := h.ledger
    kept := fun u => ?_
    sound := h.sound }
  · show s.store.total k = tally (fun _ th => Thread.books th k) (update s.threads t _)
    rw [tally_update h.balanced.busy (fun _ _ hb => hb.books k), ← h.balanced.law, Thread.books, Thread.books, htodo,
      hcompletion, todoBooks_cons, todoBooks_nil, haccounts]
    simp only [taskAccounts, entries_nil]
    ring
  · show Thread.Phased s.store (update s.threads t _ u)
    rw [update_apply]
    split
    · exact ⟨by simpa using hphase, fun _ _ hc => absurd hc (by simp), guarded_one hplain.1⟩
    · exact h.phased u
  · show Thread.Kept s.store.consumed u (update s.threads t _ u)
    rcases eq_or_ne u t with rfl | hne
    · rw [update_self]
      refine ⟨fun c hc hcu => ?_, fun m' hm' hmay => ?_, by simp⟩
      · obtain ⟨hle, hlast⟩ := (h.kept u).past c hc hcu
        exact ⟨hle, fun heq => ⟨(hlast heq).1, fun hne => absurd ((h.kept u).idle htodo) hne⟩⟩
      · cases List.mem_singleton.mp hm'
        rw [hplain.2] at hmay
        cases hmay
    · rw [update_of_ne hne]
      exact h.kept u

/-- **Every step keeps the invariant.** -/
theorem step_inv {a : Action V F S T} (h : Inv s) (hstep : step s a = some s') : Inv s' := by
  cases a with
  | call t c env =>
    simp only [step] at hstep
    split at hstep
    · cases hstep
    rename_i hidle
    have htodo : (s.threads t).todo = [] := by
      rw [Bool.or_eq_true, not_or] at hidle
      simpa using hidle.2
    split at hstep
    · cases hstep
    rename_i st todo error hfirst
    cases hstep
    have hcompletion : ((s.threads t).enter c).completion = (s.threads t).completion := rfl
    exact h.opens c htodo (firstSection_opens h hcompletion hfirst)
  | run t env =>
    simp only [step] at hstep
    split at hstep
    · cases hstep
    rename_i m rest htodo
    obtain ⟨hsound, hfits⟩ := exec_runs env h htodo
    split at hstep
    · cases hstep
    · rename_i haborted
      exact absurd haborted hsound
    · rename_i e hdone
      exact h.resume htodo (hfits e hdone) hstep
  | exit t returned =>
    simp only [step] at hstep
    split at hstep
    · rename_i f sc _ htodo hcompletion
      cases hstep
      cases returned with
      | true => exact exit_inv h htodo hcompletion (.inl rfl)
      | false => exact exit_inv h htodo hcompletion (.inr rfl)
    · cases hstep

theorem init_balanced (alive : T → Bool) : Balanced (State.init alive : State V F S T) := by
  have hnone {ι β : Type} : FewBusy (· = none) (fun _ : ι => (none : Option β)) := by
    simp [FewBusy]
  have hthreads : FewBusy Thread.Blank (State.init alive : State V F S T).threads := by
    simp [FewBusy, Thread.Blank, State.init]
  refine ⟨⟨hnone, hnone, hnone⟩, hthreads, fun k => ?_⟩
  have hblank : ∀ u, ((State.init alive : State V F S T).threads u).Blank := fun _ => ⟨rfl, rfl⟩
  rw [tally_eq_zero (w := fun _ th => Thread.books th k) fun u => (hblank u).books k, Store.total,
    tally_eq_zero (w := fun v x => Value.books v x k) fun _ => rfl,
    tally_eq_zero (w := fun f y => Future.books f y k) fun _ => rfl,
    tally_eq_zero (w := fun s x => Scope.books s x k) fun _ => rfl]
  rfl

theorem init_inv (alive : T → Bool) : Inv (State.init alive : State V F S T) where
  balanced := init_balanced alive
  records := ⟨fun _ _ hx => (nomatch hx), fun _ _ hy => (nomatch hy), fun _ _ hx => (nomatch hx)⟩
  phased := fun _ => ⟨fun _ hm => (List.not_mem_nil hm).elim, fun _ _ hc => (nomatch hc), trivial⟩
  ledger := by
    refine ⟨List.nodup_nil, fun _ hc => (List.not_mem_nil hc).elim, fun r _ _ hr => ?_,
      fun _ hc => (List.not_mem_nil hc).elim⟩
    cases r <;> cases hr
  kept := fun _ => ⟨fun _ hc => (List.not_mem_nil hc).elim, fun _ hm => (List.not_mem_nil hm).elim, fun _ => rfl⟩
  sound := rfl

/-- **The invariant holds in every reachable state.** -/
theorem reachable_inv {alive : T → Bool} (h : Reachable step (State.init alive) s) : Inv s :=
  h.induction (I := Inv) (init_inv alive) fun _ _ _ hs hstep => step_inv hs hstep

end Llam.Structured
