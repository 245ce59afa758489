import Llam.Structured.Objects

/-!
# Sections on a future

Waiting for a future, taking its outcome, notifying and freeing it fit. A future that nobody refers to any more has been
completed or given up (`Inv.finished_of_dead`), so only its result can be left to release. A taken result becomes a
handle: the reference in the slot of the future is the reference of the handle then (`futureTake_runs`).
-/

namespace Llam.Structured

open Llam.Lib Store

variable {V F S T : Type} [DecidableEq V] [DecidableEq F] [DecidableEq S] [DecidableEq T]
  {s : State V F S T} {st : Store V F S T} {t : T} {m : Section V F S} {rest : List (Section V F S)}
  {k : Account V F S} {f : F} {v : V} {y y' : Future V} {error : Option Errno} {push : List (Section V F S)}
  {fails : Option Errno}

/-! ## A new record -/

theorem Inv.future (h : Inv s) (htodo : (s.threads t).todo = m :: rest) (href : 0 < entries m.accounts (.refs (.future f))) :
    ∃ y, s.store.futures f = some y ∧ y.Ok := by
  obtain ⟨o, ho⟩ := h.allocated htodo href
  obtain ⟨y, hy, -⟩ := object_future.mp ho
  exact ⟨y, hy, h.records.futures f y hy⟩

theorem Ledger.setFuture (h : Ledger st) (hy : st.futures f = some y)
    (hgeneration : y'.object.generation = y.object.generation) (hlive : y'.object.publicLive = y.object.publicLive)
    (hannounced : y'.announced = true → y.announced = true) : Ledger (st.setFuture f y') := by
  refine h.congr (fun r => ?_) (fun r hr => ?_) rfl
  · rw [Store.handle, object_setFuture]
    split
    · rename_i hr
      rw [hr, Store.handle, Store.object, hy]
      simp [hgeneration, hlive]
    · rfl
  · rw [announced_setFuture] at hr
    split at hr
    · rename_i hf
      rw [hf, Store.announced, hy]
      exact hannounced hr
    · exact hr

theorem Runs.setFuture (h : Inv s) (hy : s.store.futures f = some y) (hobject : y'.object = y.object)
    (hannounced : y'.announced = y.announced) (hok : y'.Ok) (hphase : entries m.accounts (.life f) = 0 → y.SamePhase y')
    (hbooks : ∀ k, Future.books f (some y') k + entries m.accounts k = Future.books f (some y) k + todoBooks push k)
    (hhands : Hands (s.store.setFuture f y') (s.threads t) m push error) :
    Runs s t m (.done ⟨s.store.setFuture f y', push, error, none⟩) := by
  refine .write (h.balanced.few.setFuture f y') (fun k => ?_) (h.records.setFuture hok) (fun g hg => ?_)
    (h.ledger.setFuture hy (by rw [hobject]) (by rw [hobject]) (by rw [hannounced]; exact id)) rfl hhands
  · have hk := hbooks k
    rw [total_setFuture h.balanced.few, hy]
    omega
  · rcases eq_or_ne g f with rfl | hne
    · exact .setFuture hy (hphase hg) g
    · exact .setFuture_of_ne _ hne y'

/-! ## Waiting -/

theorem valueData_runs {type : Descriptor} (h : Inv s) (htodo : (s.threads t).todo = .valueType v type :: rest) :
    Runs s t (.valueType v type) (valueData s.store v type) := by
  obtain ⟨o, ho⟩ := h.allocated htodo (r := .value v) (by simp [entry])
  obtain ⟨x, hx, -⟩ := object_value.mp ho
  simp only [valueData, hx]
  exact .handOn h rfl (.plain trivial rfl)

theorem futureAwaitReady_runs (h : Inv s) (htodo : (s.threads t).todo = .awaitReady f :: rest) :
    Runs s t (.awaitReady f) (futureAwaitReady s.store f) := by
  obtain ⟨y, hy, -⟩ := h.future (f := f) htodo (by simp [entry])
  simp only [futureAwaitReady, hy]
  split <;> exact .handOn h rfl (.plain trivial rfl)

theorem futureAwaitDone_runs (h : Inv s) (htodo : (s.threads t).todo = .awaitDone f :: rest) :
    Runs s t (.awaitDone f) (futureAwaitDone s.store f fails) := by
  obtain ⟨y, hy, -⟩ := h.future (f := f) htodo (by simp [entry])
  simp only [futureAwaitDone, hy]
  split
  · exact .blocked
  · exact .handOn h rfl (.plain trivial rfl)

theorem futureAwaitCheck_runs (h : Inv s) (htodo : (s.threads t).todo = .awaitCheck f :: rest) :
    Runs s t (.awaitCheck f) (futureAwaitCheck s.store f (s.threads t).error) := by
  obtain ⟨y, hy, -⟩ := h.future (f := f) htodo (by simp [entry])
  simp only [futureAwaitCheck, hy]
  exact .handOn h rfl (.plain trivial rfl)

theorem notifyFuture_runs (h : Inv s) (htodo : (s.threads t).todo = .notifyFuture f :: rest) :
    Runs s t (.notifyFuture f) (notifyFuture s.store f fails (s.threads t).error) := by
  obtain ⟨o, ho⟩ := h.guarded htodo rfl
  obtain ⟨y, hy, -⟩ := object_future.mp ho
  have hok := h.records.futures f y hy
  simp only [notifyFuture, hy]
  split
  · exact .setFuture h hy rfl rfl
      ⟨hok.disposal, hok.claimed, hok.published, hok.single, hok.result, hok.freed, fun hf =>
        ⟨(hok.finished hf).argument, (hok.finished hf).discarded, (hok.finished hf).retracted⟩⟩
      (fun _ => ⟨rfl, rfl, rfl, id⟩) (fun k => rfl) (.nil fun _ => rfl)
  · exact .same h (fun k => rfl) (.nil fun _ => rfl)

/-! ## Freeing -/

theorem Section.life_le (m : Section V F S) (f : F) :
    entries m.accounts (.life f) ≤ entries m.accounts (.refs (.future f)) := by
  have hspawn (sc : S) (g : F) (l : List (Account V F S)) (hl : .life f ∉ l) :
      entries (.hidden g :: .life g :: (l ++ spawnPins sc g)) (.life f) ≤
        entries (.hidden g :: .life g :: (l ++ spawnPins sc g)) (.refs (.future f)) := by
    have := entries_le hl (.refs (.future f))
    by_cases hg : g = f <;> simp [entry, hg] <;> omega
  have htask (sc : S) (g : F) : entries (.life g :: taskRefs sc g) (.life f : Account V F S) ≤
      entries (.life g :: taskRefs sc g) (.refs (.future f) : Account V F S) := by
    by_cases hg : g = f <;> simp [entry, hg]
  cases m with
  | reserve sc g _ | consumeFailed sc g => exact hspawn sc g [] (by simp)
  | spawnTask sc g argument =>
    have := hspawn sc g (.active sc :: (argument.toList.map .claims ++ taskRefs sc g)) (by simp)
    simpa using this
  | rollbackClaim sc g v => exact hspawn sc g (.active sc :: .claims v :: taskRefs sc g) (by simp)
  | rollbackSpawn sc g => exact hspawn sc g (.active sc :: taskRefs sc g) (by simp)
  | finishSpawn sc g failed =>
    cases failed with
    | false => exact entries_le (by simp) _
    | true => exact hspawn sc g [.active sc] (by simp)
  | entryReturned sc g | prepareRetire sc g | releaseInputs sc g | publish sc g => exact htask sc g
  | requestCheck _ after | requestToken _ after | requestDone _ after => cases after <;> exact entries_le (by simp) _
  | _ => exact entries_le (by simp) _

theorem Thread.life_le (th : Thread V F S) (f : F) : th.books (.life f) ≤ th.books (.refs (.future f)) := by
  have htodo := todoBooks_le (Section.life_le · f) th.todo
  have htask : entries (taskAccounts th.completion) (.life f : Account V F S) ≤
      entries (taskAccounts th.completion) (.refs (.future f) : Account V F S) := by
    cases th.completion with
    | none => exact Int.le_refl 0
    | some c => by_cases hf : c.1 = f <;> simp [taskAccounts, entry, hf]
  unfold Thread.books
  omega

section

variable (h : Inv s)

include h

theorem Inv.finished_of_dead (hy : s.store.futures f = some y) (hrefs : y.object.refs = 0) : y.unfinished = false := by
  by_contra hnot
  rw [Bool.not_eq_false] at hnot
  have hlife : s.store.total (.life f) = 1 := by
    rw [total_future rfl, hy]
    simp [Future.books, Object.books, entry, slotBooks_other, hnot]
  have hobject : s.store.object (.future f) = some y.object := by
    rw [Store.object, hy]
    rfl
  have hle := total_refs_le hobject
  have hlive := flag_nonneg y.object.publicLive
  have hnonneg := tally_nonneg (w := fun _ th => Thread.books th (.refs (.future f)) - th.books (.life f))
    (f := s.threads) fun u => Int.sub_nonneg_of_le (Thread.life_le _ f)
  rw [tally_sub h.balanced.busy (fun _ _ hb => hb.books _) (fun _ _ hb => hb.books _), ← h.balanced.law,
    ← h.balanced.law, hlife] at hnonneg
  omega

theorem Inv.dead (htodo : (s.threads t).todo = m :: rest) (hm : m.accounts = [.freeing f]) :
    ∃ y, s.store.futures f = some y ∧ y.object.refs = 0 ∧ y.freed = false := by
  have hcovers := h.balanced.covers_top htodo (.freeing f)
  rw [total_future rfl, hm] at hcovers
  cases hy : s.store.futures f with
  | none => simp [hy, Future.books] at hcovers
  | some y =>
    have hdead : y.dead = true := by
      by_contra hnot
      rw [Bool.not_eq_true] at hnot
      simp [hy, Future.books, Object.books, entry, slotBooks_other, hnot] at hcovers
    rw [Future.dead, Bool.and_eq_true] at hdead
    exact ⟨y, rfl, by simpa using hdead.1, by simpa using hdead.2⟩

theorem futureFreeArgument_runs (htodo : (s.threads t).todo = .freeArgument f :: rest) :
    Runs s t (.freeArgument f) (futureFreeArgument s.store f (s.threads t).error) := by
  obtain ⟨y, hy, hrefs, -⟩ := h.dead htodo rfl
  have hclean := (h.records.futures f y hy).finished (h.finished_of_dead hy hrefs)
  simp only [futureFreeArgument, hy, hclean.argument]
  exact .handOn h rfl (.one trivial rfl (by intros; contradiction) fun _ => ⟨rfl, rfl⟩)

theorem futureFreeResult_runs (htodo : (s.threads t).todo = .freeResult f :: rest) :
    Runs s t (.freeResult f) (futureFreeResult s.store f (s.threads t).error) := by
  obtain ⟨y, hy, hrefs, hfreed⟩ := h.dead htodo rfl
  have hok := h.records.futures f y hy
  simp only [futureFreeResult, hy]
  have hok' : Future.Ok { y with result := none, freed := true } :=
    ⟨hok.disposal, hok.claimed, hok.published, hok.single, fun _ => rfl, fun _ => ⟨hrefs, rfl⟩, fun hf =>
      ⟨(hok.finished hf).argument, (hok.finished hf).discarded, (hok.finished hf).retracted⟩⟩
  refine .setFuture h hy rfl rfl hok' (fun _ => ⟨rfl, rfl, rfl, id⟩) (fun k => ?_) ?_
  · cases hresult : y.result <;>
      simp [Future.books, Future.hidden, Future.unfinished, Future.dead, Future.heldArgument, slotBooks, hrefs, hfreed, hresult] <;>
      ring
  · cases y.result with
    | none => exact .nil fun _ => rfl
    | some v => exact .one trivial rfl (by intros; contradiction) fun _ => ⟨rfl, rfl⟩

/-! ## Taking the outcome -/

theorem Inv.slots_le (f : F) : Future.slots v (s.store.futures f) ≤
    Value.books v (s.store.values v) (.refs (.value v) : Account V F S) := by
  have hle := le_tally (w := fun _ y => Future.slots v y) h.balanced.few.futures (fun _ _ hb => by rw [hb]; rfl)
    (fun g => Future.slots_nonneg v _) f
  have htotal := tally_nonneg (w := fun _ th => Thread.books th (.refs (.value v))) (f := s.threads)
    fun u => Thread.books_nonneg _ _
  rw [← h.balanced.law, total_refs_value] at htotal
  omega

theorem Inv.slotted (hy : s.store.futures f = some y)
    (hslot : y.heldArgument = some v ∨ y.result = some v ∨ y.discarded = some v) : ∃ x, s.store.values v = some x := by
  have hone : 1 ≤ Future.slots v (some y) := by
    have h₁ := flag_nonneg (decide (y.heldArgument = some v))
    have h₂ := flag_nonneg (decide (y.result = some v))
    have h₃ := flag_nonneg (decide (y.discarded = some v))
    simp only [Future.slots]
    rcases hslot with hslot | hslot | hslot <;> rw [hslot] at * <;> simp only [decide_true, flag_true] at * <;> omega
  have hle := h.slots_le f (v := v)
  rw [hy] at hle
  cases hx : s.store.values v with
  | some x => exact ⟨x, rfl⟩
  | none =>
    rw [hx] at hle
    simp only [Value.books] at hle
    omega

end

theorem Future.Ok.taken (h : y.Ok) (hrefs : 2 ≤ y.object.refs) (hannounced : y.announced = true) :
    Future.Ok { y with object := y.object.withdrawn, result := none } := by
  have hzero : y.object.disposed = 0 := by
    have := h.disposal
    rwa [Object.Disposal, if_neg (by omega)] at this
  refine ⟨?_, rfl, h.published, fun ha => ?_, fun _ => rfl, fun hf => ?_, fun hf => ?_⟩
  · show y.object.disposed = if y.object.refs - 1 = 0 then 1 else 0
    rw [hzero, if_neg (by omega)]
  · rw [show Future.announced _ = _ from hannounced] at ha
    cases ha
  · have := (h.freed hf).1
    omega
  · have hf : y.unfinished = false := by
      simpa [Future.unfinished, hannounced] using hf
    exact ⟨(h.finished hf).argument, (h.finished hf).discarded, (h.finished hf).retracted⟩

theorem Future.books_taken (hlive : y.object.publicLive = true) (hrefs : 2 ≤ y.object.refs)
    (hannounced : y.announced = true) :
    Future.books f (some { y with object := y.object.withdrawn, result := none }) k =
      Future.books f (some y) k + slotBooks y.result k := by
  have h₁ : (y.object.refs - 1 == 0) = false := by simp; omega
  have h₂ : (y.object.refs == 0) = false := by simp; omega
  simp only [Future.books, Object.books, Future.hidden, Future.unfinished, Future.dead, Future.heldArgument,
    Object.withdrawn, hannounced, hlive, h₁, h₂, slotBooks, flag_true, flag_false, Bool.not_true, Bool.and_false,
    Bool.true_or, Bool.false_and]
  rw [Nat.cast_sub (by omega)]
  ring

theorem Object.publish_ok {o o' : Object} (h : o.publish fails = .ok o') :
    o.publicLive = false ∧ o' = { o with publicLive := true, generation := o.generation + 1 } := by
  unfold Object.publish at h
  cases hlive : o.publicLive with
  | true =>
    rw [hlive] at h
    cases h
  | false =>
    rw [hlive] at h
    cases fails <;> cases h
    exact ⟨rfl, rfl⟩

theorem Value.Ok.publish {x : Value} (h : x.Ok) :
    Value.Ok { x with object := { x.object with publicLive := true, generation := x.object.generation + 1 } } :=
  ⟨h.disposal, fun _ => rfl, by show 1 ≤ x.object.generation + 1; omega⟩

theorem Ledger.publishValue {o : Object} (h : Ledger st) (ho : st.object (.value v) = some o) (hdead : o.publicLive = false) :
    Ledger (st.setObject (.value v) { o with publicLive := true, generation := o.generation + 1 }) := by
  refine h.publish (r := .value v) (g := o.generation) ?_ (handle_setObject_self ho)
    (fun q hq => handle_setObject ho hq) (fun q hq => ?_) (setObject_consumed _ _)
  · rw [Store.handle, ho, ← hdead]
    rfl
  · rwa [announced_setObject ho] at hq

theorem futureTake_runs {contract : Contract} (h : Inv s) (htodo : (s.threads t).todo = .take f contract :: rest) :
    Runs s t (.take f contract) (futureTake s.store f contract fails t (s.threads t).calls) := by
  obtain ⟨y, hy, hok⟩ := h.future (f := f) htodo (by simp [entry])
  have hr : s.store.object (.future f) = some y.object := by rw [Store.object, hy]; rfl
  have fail (e : Errno) : Runs s t (.take f contract) (.done ⟨s.store, [.endOp (.future f)], some e, none⟩) :=
    .handOn h rfl (.plain trivial rfl)
  simp only [futureTake, hy]
  split
  · exact fail .EINVAL
  rename_i hlive
  split
  · exact fail .EBUSY
  rename_i hbusy
  split
  · exact fail .EINVAL
  split
  · exact fail .EAGAIN
  have hlive : y.object.publicLive = true := by simpa using hlive
  obtain ⟨hops, hclaimed⟩ : y.object.publicOps = 1 ∧ y.object.claimed = false := by simpa using hbusy
  have hrefs : 2 ≤ y.object.refs := by
    have := h.counted htodo hr
    rw [Section.accounts, entries_pin_refs, hlive, flag_true] at this
    omega
  have hannounced : y.announced = true := by
    have := h.announced_of_pin htodo hr rfl hlive hops
    rwa [Store.announced, hy] at this
  have hconsume := Object.consume_ok hlive hclaimed hops hrefs
  -- the future gives up its handle, in a store where the result has left its slot
  have finish (st : Store V F S T) (hfew : st.Few) (hst : st.Ok) (hledger : Ledger st) (hf : st.futures f = some y)
      (hframe : ∀ g, SamePhase s.store st g) (hconsumed : st.consumed = s.store.consumed)
      (hlaw : ∀ k, st.total k = s.store.total k - slotBooks y.result k) :
      Runs s t (.take f contract) (.done ⟨(st.setFuture f { y with object := y.object.withdrawn, result := none }).consumes
        (.future f) y.object.generation t (s.threads t).calls, [.endOp (.future f)], none, none⟩) := by
    refine .log (r := .future f) (g := y.object.generation) rfl ((hfew.setFuture f _).consumes _ _ _ _) (fun k => ?_)
      ((hst.setFuture (hok.taken hrefs hannounced)).consumes _ _ _ _) (fun g _ => ?_) ?_ ?_ (by simp [Section.Phase])
      (guarded_one rfl) (by simp [Section.quiet, Section.mayConsume])
    · rw [total_consumes, total_setFuture hfew, hf, Future.books_taken hlive hrefs hannounced, hlaw,
        todoBooks_cons, todoBooks_nil, Section.accounts, Section.accounts]
      ring
    · rcases eq_or_ne g f with rfl | hne
      · intro z hz
        cases (setFuture_self g _).symm.trans hz
        exact .inr ⟨y, hy, rfl, rfl, rfl, id⟩
      · intro z hz
        exact hframe g z ((setFuture_of_ne hne _).symm.trans hz)
    · refine hledger.consume (r := .future f) (g := y.object.generation) (t := t) (n := (s.threads t).calls)
        (Nat.le_of_eq hok.published.symm) ?_ ?_ (fun q hq => ?_) (fun q hq => ?_) rfl
      · rw [Store.handle, Store.object, hf, ← hlive]
        rfl
      · rw [Store.handle, object_consumes, object_setFuture, if_pos rfl]
        rfl
      · rw [Store.handle, object_consumes, object_setFuture, if_neg hq]
        rfl
      · rw [announced_consumes, announced_setFuture] at hq
        split at hq
        · rename_i hqf
          rw [hqf, Store.announced, hf]
          exact hannounced
        · exact hq
    · rw [← hconsumed]
      rfl
  cases hresult : y.result with
  | none =>
    simp only [hconsume]
    have := finish s.store h.balanced.few h.records h.ledger hy (.refl s.store) rfl (fun k => by rw [hresult]; simp [slotBooks])
    exact this
  | some v =>
    obtain ⟨x, hx⟩ := h.slotted hy (.inr (.inl hresult))
    have ho : s.store.object (.value v) = some x.object := by rw [Store.object, hx]; rfl
    simp only [ho]
    cases hpublish : x.object.publish fails with
    | error e => exact fail e
    | ok o' =>
      simp only [hconsume]
      obtain ⟨hdead, rfl⟩ := Object.publish_ok hpublish
      refine finish _ (h.balanced.few.setObject _ _) ?_ (h.ledger.publishValue ho hdead) hy (fun g => .setObject ho g) rfl
        fun k => ?_
      · rw [setObject_value hx]
        exact h.records.setValue (h.records.values v x hx).publish
      · rw [total_setObject h.balanced.few ho (.inl rfl), hresult]
        simp only [headerBooks, hdead, flag_true, flag_false, slotBooks]
        ring

end Llam.Structured
