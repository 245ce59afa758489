import Llam.Structured.Scopes
import Llam.Structured.Futures

/-!
# The sections of a spawn

A spawn prepares a future, reserves a place in the scope and claims its argument, starts the task, and then commits or
rolls back. Every one of these sections fits; the books say why a failed spawn can undo what it has done: the claim, the
reservation and the future are all entries of its own.
-/

namespace Llam.Structured

open Llam.Lib Store

variable {V F S T : Type} [DecidableEq V] [DecidableEq F] [DecidableEq S] [DecidableEq T]
  {s : State V F S T} {st : Store V F S T} {t : T} {m : Section V F S} {rest : List (Section V F S)}
  {k : Account V F S} {sc : S} {f : F} {v : V} {x : Scope} {y : Future V} {o : Object}

/-! ## What the spawn knows about its future -/

/-- The future of whoever has to complete it is not completed. -/
theorem Inv.living (h : Inv s) (htodo : (s.threads t).todo = m :: rest) (hy : s.store.futures f = some y)
    (hm : 0 < entries m.accounts (.life f)) : y.unfinished = true := by
  have hcovers := h.balanced.covers_top htodo (.life f)
  rw [total_future rfl, hy] at hcovers
  by_contra hnot
  rw [Bool.not_eq_true] at hnot
  simp [Future.books, Object.books, entry, slotBooks_other, hnot, -Section.accounts] at hcovers
  omega

/-- The future of a spawn is published and nobody knows it, so the spawn has its only operation. -/
theorem Inv.unknown (h : Inv s) (htodo : (s.threads t).todo = m :: rest) (hy : s.store.futures f = some y)
    (hm : 0 < entries m.accounts (.hidden f)) :
    y.object.publicLive = true ∧ y.announced = false ∧ y.object.publicOps = 1 := by
  have hcovers := h.balanced.covers_top htodo (.hidden f)
  rw [total_future rfl, hy] at hcovers
  have hhidden : y.hidden = true := by
    by_contra hnot
    rw [Bool.not_eq_true] at hnot
    simp [Future.books, Object.books, entry, slotBooks_other, hnot, -Section.accounts] at hcovers
    omega
  rw [Future.hidden, Bool.and_eq_true, Bool.not_eq_true'] at hhidden
  have hops := h.balanced.covers_top htodo (.ops (.future f))
  have hle := m.hidden_le f
  have hsingle := (h.records.futures f y hy).single hhidden.2
  rw [total_ops, Store.object, hy] at hops
  simp only [Option.map_some, Option.elim_some] at hops
  exact ⟨hhidden.1, hhidden.2, by omega⟩

theorem Inv.phase (h : Inv s) (htodo : (s.threads t).todo = m :: rest) : m.Phase s.store :=
  (h.phased t).todo m (htodo ▸ List.mem_cons_self)

/-! ## Preparing -/

variable {argument : Option (Handle V)}

theorem scopeSpawnCheck_runs {contract : Contract} (h : Inv s)
    (htodo : (s.threads t).todo = .spawnCheck sc argument contract :: rest) :
    Runs s t (.spawnCheck sc argument contract) (scopeSpawnCheck s.store sc argument contract) := by
  obtain ⟨x, hx, -⟩ := h.scope sc htodo (by simp [entry])
  simp only [scopeSpawnCheck, hx]
  split
  · exact .handOn h rfl (.plain trivial rfl)
  · exact .handOn h rfl (.plain trivial rfl)

/-- A new future, with the operation of the spawn on it. -/
theorem Runs.newFuture (h : Inv s) {push : List (Section V F S)} {error : Option Errno} (hf : s.store.futures f = none)
    (hobject : y.object = { Object.published with refs := 2, publicOps := 1 }) (hannounced : y.announced = false)
    (hready : y.ready = false) (hfreed : y.freed = false) (hresult : y.result = none) (hclean : y.Clean)
    (hbooks : ∀ k, entries m.accounts k + entries (.hidden f :: .life f :: pin (.future f)) k = todoBooks push k)
    (hhands : Hands (s.store.setFuture f y) (s.threads t) m push error) :
    Runs s t m (.done ⟨s.store.setFuture f y, push, error, none⟩) := by
  have hok : y.Ok := by
    refine ⟨?_, ?_, ?_, fun _ => ?_, fun _ => hresult, fun hfree => ?_, fun _ => hclean⟩
    · rw [hobject]
      rfl
    · rw [hobject]
      rfl
    · rw [hobject]
      rfl
    · rw [hobject]
    · rw [hfreed] at hfree
      cases hfree
  refine .write (h.balanced.few.setFuture f y) (fun k => ?_) (h.records.setFuture hok) (fun g _ => ?_)
    (h.ledger.fresh (r := .future f) ?_ ?_ (fun q hq => ?_) (fun q hq hann => ?_) rfl) rfl hhands
  · rw [total_setFuture h.balanced.few, hf, ← hbooks]
    simp only [Future.books, Object.books, Future.hidden, Future.unfinished, Future.dead, Future.heldArgument, hobject,
      Object.published, hannounced, hready, hfreed, hresult, hclean.argument, hclean.discarded, hclean.retracted, slotBooks,
      pin, entries_cons, entries_nil]
    simp
    ring
  · rcases eq_or_ne g f with rfl | hne
    · intro z hz
      exact .inl hf
    · exact .setFuture_of_ne _ hne y
  · rw [Store.handle, Store.object, hf]
    rfl
  · rw [Store.handle, object_setFuture, if_pos rfl, hobject]
    rfl
  · rw [Store.handle, object_setFuture, if_neg hq]
    rfl
  · rwa [announced_setFuture, if_neg hq] at hann

theorem futurePrepare_runs {contract : Contract} {env : Env F T} (h : Inv s) :
    Runs s t (.prepare sc argument contract) (futurePrepare s.store sc argument contract env) := by
  cases hfails : env.fails with
  | some e =>
    simp only [futurePrepare, hfails]
    exact .handOn h rfl (.plain trivial rfl)
  | none =>
    cases hnew : env.future with
    | none =>
      simp only [futurePrepare, hfails, hnew]
      exact .blocked
    | some f =>
      cases hf : s.store.futures f with
      | some y =>
        simp only [futurePrepare, hfails, hnew, hf]
        exact .blocked
      | none =>
        simp only [futurePrepare, hfails, hnew, hf]
        refine .newFuture h hf rfl rfl rfl rfl rfl ⟨rfl, rfl, rfl⟩ (fun k => ?_) (.plain (fun y hy => ?_) rfl)
        · rw [todoBooks_cons, todoBooks_nil]
          simp only [Section.accounts, spawnPins, entries_cons, entries_append]
          ring
        · rw [setFuture_self] at hy
          cases hy
          exact ⟨rfl, rfl, rfl⟩

/-! ## Reserving -/

/-- A claim takes a second reference to a value with a live handle. -/
theorem valueClaim_ok {st' : Store V F S T} {hd : Handle V} (h : valueClaim st hd = .ok st') :
    ∃ x, st.values hd.1 = some x ∧ x.object.publicLive = true ∧ x.object.claimed = false ∧
      st' = st.setObject (.value hd.1) { x.object with refs := x.object.refs + 1, claimed := true } := by
  unfold valueClaim at h
  split at h
  · cases h
  rename_i o hresolve
  obtain ⟨ho, hlive, -, -, hclaimed⟩ := resolve_ok hresolve
  obtain ⟨x, hx, rfl⟩ := object_value.mp ho
  split at h
  · cases h
  split at h
  · cases h
  · cases h
    exact ⟨x, hx, hlive, hclaimed, rfl⟩

/-- A second reference to an object that has one. -/
theorem Object.Disposal.retain (h : o.Disposal) (hrefs : 0 < o.refs) (publicOps : Nat) (claimed : Bool) :
    Object.Disposal { o with refs := o.refs + 1, publicOps := publicOps, claimed := claimed } := by
  have hzero : o.disposed = 0 := by
    rw [Object.Disposal, if_neg (by omega)] at h
    exact h
  show o.disposed = if o.refs + 1 = 0 then 1 else 0
  rw [hzero, if_neg (by omega)]

/-- A live handle is a reference. -/
theorem Inv.live_refs (h : Inv s) {r : Ref V F S} (hr : s.store.object r = some o) (hlive : o.publicLive = true) :
    0 < o.refs := by
  have hle := total_refs_le hr
  have hnonneg := tally_nonneg (w := fun _ th => Thread.books th (.refs r)) (f := s.threads)
    fun u => Thread.books_nonneg _ _
  rw [← h.balanced.law] at hnonneg
  rw [hlive, flag_true] at hle
  omega

theorem Report.Ok.reserve (h : x.report.Ok) (hopen : x.report.state = .OPEN) : x.reserve.report.Ok := by
  have hadmitted := h.admitted
  refine ⟨?_, fun hc => ?_, fun hd => ?_⟩
  · simp only [Scope.reserve]
    omega
  · rw [show x.reserve.report.state = .OPEN from hopen] at hc
    cases hc
  · rw [show x.reserve.report.state = .OPEN from hopen] at hd
    cases hd

section

variable (h : Inv s)

include h

/-- The reservation, in a store where the argument is claimed. -/
theorem reserve_commits {st' : Store V F S T} {w : Option V}
    (htodo : (s.threads t).todo = .reserve sc f argument :: rest) (hx : s.store.scopes sc = some x)
    (hy : s.store.futures f = some y) (hopen : x.report.state = .OPEN) (hfew : st'.Few) (hok : st'.Ok)
    (hledger : Ledger st') (hfutures : st'.futures = s.store.futures) (hscopes : st'.scopes = s.store.scopes)
    (hconsumed : st'.consumed = s.store.consumed)
    (hlaw : ∀ k, st'.total k = s.store.total k + slotBooks w k + entries (w.toList.map .claims) k) :
    Runs s t (.reserve sc f argument) (.done ⟨(st'.setScope sc x.reserve).setFuture f
      { y with object := { y.object with refs := y.object.refs + 1 }, argument := w }, [.spawnTask sc f w], none, none⟩) := by
  have hclean : y.Clean := h.phase htodo y hy
  have hyok := h.records.futures f y hy
  have hxok := h.records.scopes sc x hx
  have hliving := h.living htodo hy (by simp [entry])
  have hyrefs : 0 < y.object.refs := by
    have := h.counted htodo (r := .future f) (by rw [Store.object, hy]; rfl)
    have := flag_nonneg y.object.publicLive
    simp [entry] at *
    omega
  have hxrefs : 0 < x.object.refs := by
    have := h.counted htodo (r := .scope sc) (by rw [Store.object, hx]; rfl)
    have := flag_nonneg x.object.publicLive
    simp [entry] at *
    omega
  have hx' : st'.scopes sc = some x := by rw [hscopes, hx]
  have hy' : (st'.setScope sc x.reserve).futures f = some y := by
    show st'.futures f = some y
    rw [hfutures, hy]
  refine .write ((hfew.setScope sc _).setFuture f _) (fun k => ?_) ?_ (fun g hg => ?_) ?_ hconsumed
    (.plain (fun z hz => ?_) rfl)
  · have h₁ : (y.object.refs == 0) = false := by simp; omega
    rw [total_setFuture (hfew.setScope sc _), hy', total_setScope hfew, hx', hlaw]
    simp only [Future.books, Scope.books, Object.books, Scope.reserve, Future.hidden, Future.unfinished, Future.dead,
      Future.heldArgument, hclean.argument, hclean.retracted, h₁, todoBooks_cons, todoBooks_nil, Section.accounts,
      spawnPins, taskRefs, pin, entries_cons, entries_nil, entries_append]
    simp [slotBooks]
    ring
  · refine (hok.setScope ?_).setFuture ?_
    · exact ⟨hxok.disposal.retain hxrefs _ _, hxok.claimed, hxok.published, hxok.report.reserve hopen⟩
    · refine ⟨hyok.disposal.retain hyrefs _ _, hyok.claimed, hyok.published, hyok.single, hyok.result, fun hf => ?_,
        fun hf => ?_⟩
      · have := (hyok.freed hf).1
        omega
      · have hf : y.unfinished = false := hf
        rw [hliving] at hf
        cases hf
  · have hne : g ≠ f := by
      rintro rfl
      simp [entry] at hg
    intro z hz
    rw [setFuture_of_ne hne] at hz
    exact .inr ⟨z, by rw [← hfutures]; exact hz, .refl z⟩
  · refine (hledger.setScope hx' ?_ ?_).setFuture hy' ?_ ?_ ?_ <;> first | rfl | exact id
  · rw [setFuture_self] at hz
    cases hz
    exact ⟨rfl, hclean.discarded, hclean.retracted⟩

theorem scopeReserveSpawn_runs (htodo : (s.threads t).todo = .reserve sc f argument :: rest) :
    Runs s t (.reserve sc f argument) (scopeReserveSpawn s.store sc f argument) := by
  obtain ⟨x, hx, -⟩ := h.scope sc htodo (by simp [entry])
  obtain ⟨y, hy, -⟩ := h.future (f := f) htodo (by simp [entry])
  have hphase : ∀ y, s.store.futures f = some y → y.Clean := h.phase htodo
  have fail (e : Errno) : Runs s t (.reserve sc f argument) (.done ⟨s.store, [.consumeFailed sc f], some e, none⟩) :=
    .handOn h rfl (.plain hphase rfl)
  simp only [scopeReserveSpawn, hx, hy]
  split
  · exact fail .EPIPE
  rename_i hopen
  rw [not_not] at hopen
  split
  · exact fail .EOVERFLOW
  cases argument with
  | none =>
    exact reserve_commits h htodo hx hy hopen h.balanced.few h.records h.ledger rfl rfl rfl fun k => by simp [slotBooks]
  | some hd =>
    simp only
    cases hclaim : valueClaim s.store hd with
    | error e => exact fail e
    | ok st' =>
      obtain ⟨z, hz, hlive, hclaimed, rfl⟩ := valueClaim_ok hclaim
      have ho : s.store.object (.value hd.1) = some z.object := by rw [Store.object, hz]; rfl
      have hzok := h.records.values hd.1 z hz
      refine reserve_commits h htodo hx hy hopen (h.balanced.few.setObject _ _) ?_ (h.ledger.setObject ho rfl rfl) rfl rfl
        rfl fun k => ?_
      · rw [setObject_value hz]
        exact h.records.setValue ⟨hzok.disposal.retain (h.live_refs ho hlive) _ _, fun _ => hlive, hzok.published⟩
      · rw [total_setObject h.balanced.few ho (.inl rfl)]
        simp only [headerBooks, hclaimed, flag_true, flag_false, slotBooks, Option.toList_some, List.map_cons, List.map_nil,
          entries_cons, entries_nil]
        push_cast
        ring

/-! ## Starting the task -/

theorem spawnScoped_runs {argument : Option V} {env : Env F T}
    (htodo : (s.threads t).todo = .spawnTask sc f argument :: rest) :
    Runs s t (.spawnTask sc f argument) (spawnScoped s.store sc f argument env) := by
  have hphase : ∀ y, s.store.futures f = some y → y.argument = argument ∧ y.Running := h.phase htodo
  cases hfails : env.fails with
  | some e =>
    cases argument with
    | none =>
      simp only [spawnScoped, hfails]
      refine .handOn h rfl (.plain (fun y hy => ?_) rfl)
      obtain ⟨hargument, hrunning⟩ := hphase y hy
      exact ⟨hrunning.discarded, by simp [Future.heldArgument, hargument]⟩
    | some v =>
      simp only [spawnScoped, hfails]
      exact .handOn h rfl (.plain hphase rfl)
  | none =>
    cases hchild : env.child with
    | none =>
      simp only [spawnScoped, hfails, hchild]
      exact .blocked
    | some child =>
      -- the new thread gets the life of the future and the two references of a task
      have start (m' : Section V F S) (hm' : ∀ k, entries (Section.spawnTask sc f argument).accounts k =
          entries m'.accounts k + entries (taskAccounts (some (f, sc))) k) (hp : m'.Phase s.store)
          (hnotifies : m'.notifies = none) : Runs s t (.spawnTask sc f argument)
            (.done ⟨s.store, [m'], none, some (child, f, sc)⟩) := by
        refine .done {
          settles := ⟨h.balanced.few, fun k => ?_⟩
          records := h.records
          advances := ⟨fun g _ => .refl _ g, by simpa using hp, ?_, guarded_one hnotifies⟩
          ledger := h.ledger
          logs := ⟨by simp [Section.mayConsume], by intros; contradiction, .inl rfl⟩ }
        · have hk := hm' k
          show s.store.total k = s.store.total k - entries (Section.spawnTask sc f argument).accounts k +
            todoBooks [m'] k + entries (taskAccounts (some (f, sc))) k
          rw [todoBooks_cons, todoBooks_nil]
          omega
        · intro g c hc y hy
          cases hc
          exact (hphase y hy).2
      cases argument with
      | none =>
        simp only [spawnScoped, hfails, hchild]
        refine start _ (fun k => ?_) trivial rfl
        simp only [Section.accounts, taskAccounts, Option.toList_none, List.map_nil, List.nil_append, entries_cons,
          entries_append]
        ring
      | some v =>
        simp only [spawnScoped, hfails, hchild]
        refine start _ (fun k => ?_) trivial rfl
        simp only [Section.accounts, taskAccounts, Option.toList_some, List.map_cons, List.map_nil, List.cons_append,
          List.nil_append, entries_cons, entries_append]
        ring

/-! ## Committing -/

/-- A claimed value has its handle still. -/
theorem Inv.claimed (htodo : (s.threads t).todo = m :: rest) (hm : 0 < entries m.accounts (.claims v)) :
    ∃ x, s.store.values v = some x ∧ x.object.claimed = true ∧ x.object.publicLive = true := by
  have hcovers := h.balanced.covers_top htodo (.claims v)
  rw [total_value rfl (by simp)] at hcovers
  cases hx : s.store.values v with
  | none =>
    simp [hx, Value.books, -Section.accounts] at hcovers
    omega
  | some x =>
    have hclaimed : x.object.claimed = true := by
      by_contra hnot
      rw [Bool.not_eq_true] at hnot
      simp [hx, Value.books, Object.books, entry, hnot, -Section.accounts] at hcovers
      omega
    exact ⟨x, rfl, hclaimed, (h.records.values v x hx).claimed hclaimed⟩

theorem valueCommitClaim_runs (htodo : (s.threads t).todo = .commitClaim sc f v :: rest) :
    Runs s t (.commitClaim sc f v) (valueCommitClaim s.store sc f v t (s.threads t).calls) := by
  obtain ⟨x, hx, hclaimed, hlive⟩ := h.claimed (v := v) htodo (by simp [entry])
  have ho : s.store.object (.value v) = some x.object := by rw [Store.object, hx]; rfl
  have hok := h.records.values v x hx
  obtain ⟨n, hn⟩ := Nat.exists_eq_succ_of_ne_zero (Nat.ne_of_gt (h.live_refs ho hlive))
  have hdrop : x.object.unpublish.bind Object.drop = some { x.object with
      refs := n, publicLive := false, claimed := false,
      disposed := if n = 0 then x.object.disposed + 1 else x.object.disposed } := by
    simp [Object.unpublish, Object.drop, hlive, hn]
  simp only [valueCommitClaim, ho, hclaimed, hdrop, Bool.not_true, Bool.false_eq_true, if_false]
  refine .log (r := .value v) (g := x.object.generation) rfl ((h.balanced.few.setObject _ _).consumes _ _ _ _) (fun k => ?_)
    ?_ (fun g _ => .refl s.store g) (h.ledger.consumeObject h.records ho hlive rfl rfl) ?_ (by simp [Section.Phase])
    (guarded_one rfl) (by simp [Section.quiet, Section.mayConsume])
  · rw [total_consumes, total_setObject h.balanced.few ho (.inl rfl), todoBooks_cons, todoBooks_nil]
    simp only [headerBooks, hclaimed, hlive, hn, flag_true, flag_false, Section.accounts, entries_cons]
    push_cast
    ring
  · rw [setObject_value hx]
    refine Store.Ok.consumes (h.records.setValue ?_) _ _ _ _
    exact ⟨hok.disposal.drop hn x.object.publicOps, by simp, hok.published⟩
  · rw [Store.consumes, setObject_consumed]

theorem announceFuture_runs (htodo : (s.threads t).todo = .announce sc f :: rest) :
    Runs s t (.announce sc f) (announceFuture s.store sc f (s.threads t).error) := by
  obtain ⟨y, hy, hok⟩ := h.future (f := f) htodo (by simp [entry])
  obtain ⟨hlive, hann, -⟩ := h.unknown htodo hy (by simp [entry])
  simp only [announceFuture, hy]
  refine .write (h.balanced.few.setFuture f _) (fun k => ?_) ?_ (fun g _ => ?_) ?_ rfl
    (.one trivial rfl (by intros; contradiction) fun _ => ⟨rfl, rfl⟩)
  · rw [total_setFuture h.balanced.few, hy, todoBooks_cons, todoBooks_nil]
    simp only [Future.books, Future.hidden, Future.unfinished, Future.dead, Future.heldArgument, hlive, hann,
      Section.accounts, entries_cons]
    simp
    ring
  · refine h.records.setFuture { hok with single := by simp, finished := fun hf => ?_ }
    have hf : y.unfinished = false := by simpa [Future.unfinished, hlive, hann] using hf
    exact ⟨(hok.finished hf).argument, (hok.finished hf).discarded, (hok.finished hf).retracted⟩
  · refine .setFuture hy ?_ g
    exact ⟨rfl, rfl, rfl, id⟩
  · refine h.ledger.announce (r := .future f) ?_ (fun r => ?_) (fun q hq hann => ?_) rfl
    · rw [Store.handle, Store.object, hy, ← hlive, ← hok.published]
      rfl
    · rw [Store.handle, object_setFuture]
      split
      · rename_i hr
        rw [hr, Store.handle, Store.object, hy]
        rfl
      · rfl
    · rwa [announced_setFuture, if_neg hq] at hann

end

/-! ## Rolling back -/

theorem Object.dropKept_of (h : 2 ≤ o.refs) : o.dropKept = some { o with refs := o.refs - 1 } := by
  obtain ⟨n, hn⟩ := Nat.exists_eq_add_of_le' h
  simp [Object.dropKept, hn]

/-- A reference goes that is not the last. -/
theorem Object.Disposal.keep {o' : Object} (h : o.Disposal) (hrefs : 2 ≤ o.refs)
    (ho' : o'.refs = o.refs - 1) (hdisposed : o'.disposed = o.disposed) : o'.Disposal := by
  rw [Object.Disposal, if_neg (by omega)] at h ⊢
  exact hdisposed.trans h

variable (h : Inv s)

include h

/-- The reference in a slot is one of its own. -/
theorem Inv.slot_refs {x : Value} (hx : s.store.values v = some x) (hy : s.store.futures f = some y)
    (hslot : y.heldArgument = some v) : flag x.object.publicLive + 1 ≤ x.object.refs := by
  have hone : 1 ≤ Future.slots v (some y) := by
    have h₂ := flag_nonneg (decide (y.result = some v))
    have h₃ := flag_nonneg (decide (y.discarded = some v))
    simp only [Future.slots, hslot, decide_true, flag_true]
    omega
  have hle := h.slots_le f (v := v)
  rw [hy, hx] at hle
  simp only [Value.books, Object.books, entry] at hle
  simp at hle
  omega

theorem valueRollbackClaim_runs (htodo : (s.threads t).todo = .rollbackClaim sc f v :: rest) :
    Runs s t (.rollbackClaim sc f v) (valueRollbackClaim s.store sc f v (s.threads t).error) := by
  obtain ⟨x, hx, hclaimed, hlive⟩ := h.claimed (v := v) htodo (by simp [entry])
  obtain ⟨y, hy, hok⟩ := h.future (f := f) htodo (by simp [entry])
  have hliving := h.living htodo hy (by simp [entry])
  have hphase : ∀ y, s.store.futures f = some y → y.argument = some v ∧ y.Running := h.phase htodo
  obtain ⟨hargument, hrunning⟩ := hphase y hy
  have hheld : y.heldArgument = some v := by simp [Future.heldArgument, hrunning.retracted, hargument]
  have ho : s.store.object (.value v) = some x.object := by rw [Store.object, hx]; rfl
  have hrefs := h.slot_refs hx hy hheld
  rw [hlive, flag_true] at hrefs
  have hxok := h.records.values v x hx
  simp only [valueRollbackClaim, ho, hy]
  rw [if_neg (by simp [hclaimed, hlive]), Object.dropKept_of (by show 2 ≤ x.object.refs; omega)]
  refine .write ((h.balanced.few.setObject _ _).setFuture f _) (fun k => ?_) ?_ (fun g hg => ?_) ?_ rfl
    (.plain (fun z hz => ?_) rfl)
  · rw [total_setFuture (h.balanced.few.setObject _ _), total_setObject h.balanced.few ho (.inl rfl),
      todoBooks_cons, todoBooks_nil]
    show _ - Future.books f (s.store.futures f) k + _ = _
    rw [hy]
    simp only [Future.books, Future.hidden, Future.unfinished, Future.dead, Future.heldArgument, headerBooks, hclaimed, hlive,
      hargument, hrunning.retracted, flag_true, flag_false, Section.accounts, entries_cons, entries_append]
    simp [slotBooks, Nat.cast_sub (show 1 ≤ x.object.refs by omega)]
    ring
  · rw [setObject_value hx]
    refine (h.records.setValue ?_).setFuture ?_
    · exact ⟨hxok.disposal.keep (by omega) rfl rfl, by simp, hxok.published⟩
    · refine { hok with finished := fun hf => ?_ }
      have hf : y.unfinished = false := hf
      rw [hliving] at hf
      cases hf
  · have hne : g ≠ f := by
      rintro rfl
      simp [entry] at hg
    exact .setFuture_of_ne (s.store.setObject (.value v) _) hne _
  · refine (h.ledger.setObject ho ?_ ?_).setFuture hy ?_ ?_ ?_ <;> first | rfl | exact id
  · rw [setFuture_self] at hz
    cases hz
    exact ⟨hrunning.discarded, rfl⟩

/-- The reservation that is rolled back is one of the scope's tasks, and the spawn is still active. -/
theorem Inv.reserved (htodo : (s.threads t).todo = m :: rest) (hx : s.store.scopes sc = some x) :
    entries m.accounts (.pending sc) ≤ x.report.pendingTasks ∧ entries m.accounts (.active sc) ≤ x.report.activeSpawns := by
  have hpending := h.balanced.covers_top htodo (.pending sc)
  have hactive := h.balanced.covers_top htodo (.active sc)
  rw [total_scope rfl, hx] at hpending
  rw [total_scope rfl, hx] at hactive
  simp [Scope.books, Object.books, entry, -Section.accounts] at hpending hactive
  exact ⟨hpending, hactive⟩

theorem scopeRollbackSpawn_runs (htodo : (s.threads t).todo = .rollbackSpawn sc f :: rest) :
    Runs s t (.rollbackSpawn sc f) (scopeRollbackSpawn s.store sc f (s.threads t).error) := by
  obtain ⟨x, hx, hxok⟩ := h.scope sc htodo (by simp [entry])
  obtain ⟨y, hy, hok⟩ := h.future (f := f) htodo (by simp [entry])
  have hphase : ∀ y, s.store.futures f = some y → y.discarded = none ∧ y.heldArgument = none := h.phase htodo
  obtain ⟨hdiscarded, hheld⟩ := hphase y hy
  obtain ⟨hpending, hactive⟩ := h.reserved htodo hx
  have hxrefs : 2 ≤ x.object.refs := by
    have := h.counted htodo (r := .scope sc) (by rw [Store.object, hx]; rfl)
    have := flag_nonneg x.object.publicLive
    simp [entry] at *
    omega
  have hyrefs : 2 ≤ y.object.refs := by
    have := h.counted htodo (r := .future f) (by rw [Store.object, hy]; rfl)
    have := flag_nonneg y.object.publicLive
    simp [entry] at *
    omega
  have hpending : 1 ≤ x.report.pendingTasks := by
    simp [entry] at hpending
    omega
  have hactive : 1 ≤ x.report.activeSpawns := by
    simp [entry] at hactive
    omega
  simp only [scopeRollbackSpawn, hx, hy, Object.dropKept_of hxrefs, Object.dropKept_of hyrefs]
  refine .write ((h.balanced.few.setScope sc _).setFuture f _) (fun k => ?_) ?_ (fun g hg => ?_) ?_ rfl
    (.plain (fun z hz => ?_) rfl)
  · have h₁ : (y.object.refs - 1 == 0) = false := by simp; omega
    have h₂ : (y.object.refs == 0) = false := by simp; omega
    rw [total_setFuture (h.balanced.few.setScope sc _), total_setScope h.balanced.few, hx, todoBooks_cons,
      todoBooks_nil]
    show _ - Future.books f (s.store.futures f) k + _ = _
    have hheld' : slotBooks y.heldArgument k = 0 := by rw [hheld]; rfl
    rw [hy]
    simp only [Future.books, hheld']
    simp only [Scope.books, Object.books, Future.hidden, Future.unfinished, Future.dead, Future.heldArgument, h₁, h₂,
      Section.accounts, taskRefs, entries_cons, entries_append, entries_nil]
    simp [slotBooks, Nat.cast_sub hpending, Nat.cast_sub (show 1 ≤ x.object.refs by omega),
      Nat.cast_sub (show 1 ≤ y.object.refs by omega)]
    ring
  · have hadmitted := hxok.report.admitted
    refine (h.records.setScope ?_).setFuture ?_
    · refine ⟨hxok.disposal.keep hxrefs rfl rfl, hxok.claimed, hxok.published, ?_, fun _ => .inr hactive, fun hd => ?_⟩
      · dsimp only
        omega
      · have := (hxok.report.drained hd).1
        omega
    · refine ⟨hok.disposal.keep hyrefs rfl rfl, hok.claimed, hok.published, hok.single, hok.result, fun hf => ?_,
        fun hf => ⟨rfl, hdiscarded, rfl⟩⟩
      have := (hok.freed hf).1
      omega
  · have hne : g ≠ f := by
      rintro rfl
      simp [entry] at hg
    exact .setFuture_of_ne (s.store.setScope sc _) hne _
  · refine (h.ledger.setScope hx ?_ ?_).setFuture hy ?_ ?_ ?_ <;> first | rfl | exact id
  · rw [setFuture_self] at hz
    cases hz
    exact ⟨rfl, hdiscarded, rfl⟩

theorem scopeFinishSpawn_runs {failed : Bool} (htodo : (s.threads t).todo = .finishSpawn sc f failed :: rest) :
    Runs s t (.finishSpawn sc f failed) (scopeFinishSpawn s.store sc f failed (s.threads t).error) := by
  obtain ⟨x, hx, hxok⟩ := h.scope sc htodo (by cases failed <;> simp [entry])
  have hactive : 1 ≤ x.report.activeSpawns := by
    have := (h.reserved htodo hx).2
    cases failed <;> simp [entry] at this <;> omega
  have hsums : Report.Sums { x.report with activeSpawns := x.report.activeSpawns - 1 } := by
    refine ⟨hxok.report.admitted, fun hd => ?_⟩
    have := (hxok.report.drained hd).2
    omega
  have hphase := h.phase htodo
  rw [scopeFinishSpawn, hx]
  have finish (l : List (Section V F S))
      (hl : ∀ x', Hands (s.store.setScope sc x') (s.threads t) (.finishSpawn sc f failed) l (s.threads t).error)
      (hnone : ∀ m' ∈ l, m'.mayConsume = false)
      (hbooks : ∀ k, entries (Section.finishSpawn sc f failed).accounts k = entry (.active sc) k + todoBooks l k)
      (hrefs : 0 < todoBooks l (.refs (.scope sc))) :
      Runs s t (.finishSpawn sc f failed) (.done ⟨s.store.setScope sc { x with
        report := (Report.finishClosing { x.report with activeSpawns := x.report.activeSpawns - 1 }).1 },
        notification sc (Report.finishClosing { x.report with activeSpawns := x.report.activeSpawns - 1 }).2 ++ l,
        (s.threads t).error, none⟩) := by
    refine .setScope h hx rfl (Report.finishClosing_ok hsums) (fun k => ?_)
      (.notified (hl _) hnone hrefs)
    rw [todoBooks_append, todoBooks_notification, hbooks]
    simp only [Scope.books, Report.finishClosing_pending, Report.finishClosing_active, Nat.cast_sub hactive]
    ring
  cases failed with
  | true =>
    refine finish [.consumeFailed sc f] (fun x' => .plain hphase rfl) (by simp [Section.mayConsume]) (fun k => ?_) ?_
    · simp only [todoBooks_cons, todoBooks_nil, Section.accounts, entries_cons]
      ring
    · simp [entry]
  | false =>
    refine finish [.endOp (.future f), .endOp (.scope sc)] (fun x' => ?_) (by simp [Section.mayConsume]) (fun k => ?_) ?_
    · refine Hands.cons (.one trivial rfl (by intros; contradiction) fun _ => ⟨rfl, rfl⟩) (by simp [Section.mayConsume]) trivial (by intros; contradiction) rfl ?_
      exact fun _ => rfl
    · simp only [todoBooks_cons, todoBooks_nil, Section.accounts, spawnPins, entries_cons, entries_append]
      ring
    · simp [entry]

/-- The future of a failed spawn: nobody has got its handle. -/
theorem scopeSpawnDiscard_runs (htodo : (s.threads t).todo = .consumeFailed sc f :: rest) :
    Runs s t (.consumeFailed sc f) (scopeSpawnDiscard s.store sc f (s.threads t).error) := by
  obtain ⟨y, hy, hok⟩ := h.future (f := f) htodo (by simp [entry])
  obtain ⟨hlive, hann, hops⟩ := h.unknown htodo hy (by simp [entry])
  have hliving := h.living htodo hy (by simp [entry])
  have hphase : ∀ y, s.store.futures f = some y → y.Clean := h.phase htodo
  have hclean := hphase y hy
  have hrefs : 2 ≤ y.object.refs := by
    have := h.counted htodo (r := .future f) (by rw [Store.object, hy]; rfl)
    rw [hlive, flag_true] at this
    simp [entry] at this
    omega
  have hready : y.ready = false := by simpa [Future.unfinished, hlive] using hliving
  simp only [scopeSpawnDiscard, hy, Object.consume_ok hlive hok.claimed hops hrefs]
  refine .write (h.balanced.few.setFuture f _) (fun k => ?_) (h.records.setFuture ?_) (fun g hg => ?_) ?_ rfl ?_
  · have h₁ : (y.object.refs - 1 == 0) = false := by simp; omega
    have h₂ : (y.object.refs == 0) = false := by simp; omega
    rw [total_setFuture h.balanced.few, hy]
    simp only [Future.books, Object.books, Object.withdrawn, Future.hidden, Future.unfinished, Future.dead,
      Future.heldArgument, h₁, h₂, hlive, hann, hready, Section.accounts, spawnPins, todoBooks_cons, todoBooks_nil,
      entries_cons, entries_append]
    simp [Nat.cast_sub (show 1 ≤ y.object.refs by omega)]
    ring
  · refine ⟨hok.disposal.keep hrefs rfl rfl, rfl, hok.published, hok.single, hok.result, fun hf => ?_,
      fun _ => ⟨hclean.argument, hclean.discarded, hclean.retracted⟩⟩
    have := (hok.freed hf).1
    omega
  · have hne : g ≠ f := by
      rintro rfl
      simp [entry] at hg
    exact .setFuture_of_ne _ hne _
  · refine h.ledger.withdraw (r := .future f) (g := y.object.generation) ?_ ?_ (fun q hq => ?_) ?_ (fun q hq => ?_) rfl
    · rw [Store.handle, Store.object, hy, ← hlive]
      rfl
    · rw [Store.handle, object_setFuture, if_pos rfl]
      rfl
    · rw [Store.handle, object_setFuture, if_neg hq]
      rfl
    · rw [announced_setFuture, if_pos rfl]
      exact hann
    · rw [announced_setFuture] at hq
      split at hq
      · rw [show Future.announced _ = _ from hann] at hq
        cases hq
      · exact hq
  · refine Hands.cons (.plain trivial rfl) (by simp [Section.mayConsume]) trivial (by intros; contradiction) rfl (by intros; contradiction)

end Llam.Structured
