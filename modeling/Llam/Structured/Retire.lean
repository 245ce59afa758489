import Llam.Structured.Spawn

/-!
# The sections of a retiring task

A task that has returned, or was abandoned, settles its outcome, releases its inputs and publishes its completion. The
sections fit; the last one makes the future ready, counts the task in its scope and drains the scope if it was the last
(`scopedPublish_runs`).
-/

namespace Llam.Structured

open Llam.Lib

variable {V F S T : Type} [DecidableEq V] [DecidableEq F] [DecidableEq S] [DecidableEq T]
  {s : State V F S T} {st : Store V F S T} {t : T} {m : Section V F S} {rest : List (Section V F S)}
  {k : Account V F S} {sc : S} {f : F} {v : V} {x : Scope} {y y' : Future V}

/-! ## Settling the outcome -/

theorem scopedEntryReturned_runs (h : Inv s) (htodo : (s.threads t).todo = .entryReturned sc f :: rest) :
    Runs s t (.entryReturned sc f) (scopedEntryReturned s.store sc f (s.threads t).error) := by
  obtain ⟨y, hy, hok⟩ := h.future (f := f) htodo (by simp [entry])
  have hphase : ∀ y, s.store.futures f = some y → y.Running := h.phase htodo
  simp only [scopedEntryReturned, hy]
  refine .setFuture h hy rfl rfl ?_ (fun _ => ⟨rfl, rfl, rfl, id⟩) (fun k => ?_) (.plain (fun z hz => ?_) rfl)
  · exact ⟨hok.disposal, hok.claimed, hok.published, hok.single, hok.result, hok.freed, fun hf =>
      ⟨(hok.finished hf).argument, (hok.finished hf).discarded, (hok.finished hf).retracted⟩⟩
  · rw [todoBooks_cons, todoBooks_nil, Int.add_zero]
    rfl
  · rw [Store.setFuture_self] at hz
    cases hz
    exact ⟨(hphase y hy).discarded, (hphase y hy).retracted⟩

/-- What settling the outcome does to a future: a result that does not count is discarded. -/
structure Future.Settled (y y' : Future V) : Prop where
  object : y'.object = y.object
  announced : y'.announced = y.announced
  ready : y'.ready = y.ready
  freed : y'.freed = y.freed
  argument : y'.argument = y.argument
  retracted : y'.retracted = y.retracted
  kind : y'.kind ≠ none
  slots : (y'.result = y.result ∧ y'.discarded = y.discarded) ∨ (y'.result = none ∧ y'.discarded = y.result)

theorem Future.settle_settled (y : Future V) (cancelled : Bool) (fatal : Option Errno) :
    y.Settled (y.settle cancelled fatal) := by
  unfold Future.settle
  split
  · rename_i hset
    rw [Bool.and_eq_true, Option.isSome_iff_ne_none] at hset
    exact ⟨rfl, rfl, rfl, rfl, rfl, rfl, hset.2, .inl ⟨rfl, rfl⟩⟩
  cases fatal with
  | some e => exact ⟨rfl, rfl, rfl, rfl, rfl, rfl, nofun, .inr ⟨rfl, rfl⟩⟩
  | none =>
    simp only
    split
    · exact ⟨rfl, rfl, rfl, rfl, rfl, rfl, nofun, .inr ⟨rfl, rfl⟩⟩
    · split <;> exact ⟨rfl, rfl, rfl, rfl, rfl, rfl, nofun, .inr ⟨rfl, rfl⟩⟩

theorem Future.Settled.books (h : y.Settled y') (hdiscarded : y.discarded = none) :
    Future.books f (some y') k = Future.books f (some y) k := by
  simp only [Future.books, Future.hidden, Future.unfinished, Future.dead, Future.heldArgument, h.object, h.announced,
    h.ready, h.freed, h.argument, h.retracted]
  rcases h.slots with ⟨hr, hd⟩ | ⟨hr, hd⟩
  · rw [hr, hd]
  rw [hr, hd, hdiscarded]
  simp only [slotBooks]
  ring

theorem scopedPrepareRetire_runs {env : Env F T} (h : Inv s) (htodo : (s.threads t).todo = .prepareRetire sc f :: rest) :
    Runs s t (.prepareRetire sc f) (scopedPrepareRetire s.store sc f env (s.threads t).error) := by
  obtain ⟨y, hy, hok⟩ := h.future (f := f) htodo (by simp [entry])
  have hphase : ∀ y, s.store.futures f = some y → y.Running := h.phase htodo
  have hliving := h.living htodo hy (by simp [entry])
  have hsettled := y.settle_settled env.cancelled env.fatal
  simp only [scopedPrepareRetire, hy]
  generalize y.settle env.cancelled env.fatal = y' at hsettled
  refine .setFuture h hy hsettled.object hsettled.announced ?_ (fun hlife => ?_) (fun k => ?_)
    (.plain (fun z hz => ?_) rfl)
  · have hobject := hsettled.object
    refine ⟨hobject ▸ hok.disposal, hobject ▸ hok.claimed, hobject ▸ hok.published, fun ha => ?_,
      fun hk => absurd hk hsettled.kind, fun hf => ?_, fun hf => ?_⟩
    · rw [hsettled.announced] at ha
      exact hobject ▸ hok.single ha
    · rw [hsettled.freed] at hf
      refine ⟨hobject ▸ (hok.freed hf).1, ?_⟩
      rcases hsettled.slots with ⟨hr, -⟩ | ⟨hr, -⟩
      · rw [hr, (hok.freed hf).2]
      · exact hr
    · rw [Future.unfinished, hsettled.ready, hsettled.announced, hobject, ← Future.unfinished, hliving] at hf
      cases hf
  · simp [entry] at hlife
  · rw [hsettled.books (hphase y hy).discarded, todoBooks_cons, todoBooks_nil, Int.add_zero]
    rfl
  · rw [Store.setFuture_self] at hz
    cases hz
    exact ⟨hsettled.retracted.trans (hphase y hy).retracted, hsettled.kind⟩

/-! ## Releasing the inputs -/

theorem todoBooks_releaseSlot (v : Option V) : todoBooks (releaseSlot v : List (Section V F S)) k = slotBooks v k := by
  cases v <;> simp [releaseSlot, slotBooks]

/-- The releases of a slot come before anything else. -/
theorem Hands.releaseSlot {th : Thread V F S} {l : List (Section V F S)} {error : Option Errno} (v : Option V)
    (hl : Hands st th m l error) (hnone : ∀ m' ∈ l, m'.mayConsume = false) :
    Hands st th m (releaseSlot v ++ l) error ∧ ∀ m' ∈ (Llam.Structured.releaseSlot v ++ l), m'.mayConsume = false := by
  cases v with
  | none => exact ⟨hl, hnone⟩
  | some v =>
    exact ⟨hl.cons hnone trivial nofun rfl fun _ => rfl, List.forall_mem_cons.mpr ⟨rfl, hnone⟩⟩

theorem scopedReleaseInputs_runs (h : Inv s) (htodo : (s.threads t).todo = .releaseInputs sc f :: rest) :
    Runs s t (.releaseInputs sc f) (scopedReleaseInputs s.store sc f (s.threads t).error) := by
  obtain ⟨y, hy, hok⟩ := h.future (f := f) htodo (by simp [entry])
  have hphase : ∀ y, s.store.futures f = some y → y.retracted = false ∧ y.kind ≠ none := h.phase htodo
  obtain ⟨hretracted, hkind⟩ := hphase y hy
  simp only [scopedReleaseInputs, hy]
  refine .setFuture h hy rfl rfl ?_ (fun hlife => ?_) (fun k => ?_) ?_
  · exact ⟨hok.disposal, hok.claimed, hok.published, hok.single, hok.result, hok.freed, fun _ => ⟨rfl, rfl, hretracted⟩⟩
  · simp [entry] at hlife
  · rw [todoBooks_append, todoBooks_append, todoBooks_releaseSlot, todoBooks_releaseSlot, todoBooks_cons, todoBooks_nil]
    simp only [Future.books, Future.hidden, Future.unfinished, Future.dead, Future.heldArgument, hretracted, slotBooks,
      Section.accounts]
    simp
    ring
  · rw [List.append_assoc]
    have hpublish : Hands (s.store.setFuture f { y with argument := none, discarded := none }) (s.threads t)
        (.releaseInputs sc f) [.publish sc f] (s.threads t).error := by
      refine .plain (fun z hz => ?_) rfl
      rw [Store.setFuture_self] at hz
      cases hz
      exact ⟨⟨rfl, rfl, hretracted⟩, hkind⟩
    obtain ⟨hdiscarded, hnone⟩ := hpublish.releaseSlot y.discarded (by simp [Section.mayConsume])
    exact (hdiscarded.releaseSlot y.argument hnone).1

/-! ## Publishing the completion -/

/-- A completion is counted once, under its kind. -/
structure Report.Counts (r r' : Report) : Prop where
  pending : r.pendingTasks = r'.pendingTasks + 1
  active : r'.activeSpawns = r.activeSpawns
  admitted : r'.admittedTasks = r.admittedTasks
  state : r'.state = r.state
  completed : r'.succeeded + r'.applicationErrors + r'.cancelled + r'.runtimeErrors =
    r.succeeded + r.applicationErrors + r.cancelled + r.runtimeErrors + 1

theorem Report.accountCompletion_counts {r : Report} {kind : Option Kind} (runtimeError : Option Errno)
    (hpending : 1 ≤ r.pendingTasks) (hkind : kind ≠ none) :
    ∃ r', r.accountCompletion kind runtimeError = some r' ∧ r.Counts r' := by
  obtain ⟨n, hn⟩ := Nat.exists_eq_add_of_le' hpending
  obtain ⟨c, rfl⟩ := Option.ne_none_iff_exists'.mp hkind
  unfold Report.accountCompletion
  rw [hn]
  cases c <;> refine ⟨_, rfl, hn, rfl, rfl, rfl, ?_⟩ <;> dsimp only <;> omega

theorem Report.Counts.sums {r r' : Report} (h : r.Counts r') (hr : r.Ok) : r'.Sums := by
  have hadmitted := hr.admitted
  have hcompleted := h.completed
  have hpending := h.pending
  have hsame := h.admitted
  refine ⟨by omega, fun hd => ?_⟩
  have := (hr.drained (h.state ▸ hd)).1
  omega

/-- The task is counted and its future is ready. -/
theorem publish_completes {r' : Report} (h : Inv s) (htodo : (s.threads t).todo = .publish sc f :: rest)
    (hx : s.store.scopes sc = some x) (hy : s.store.futures f = some y) (hcounts : x.report.Counts r') :
    Runs s t (.publish sc f) (.done ⟨(s.store.setFuture f { y with ready := true }).setScope sc
      { x with report := r'.finishClosing.1 }, .notifyFuture f :: notification sc r'.finishClosing.2 ++
        [.release (.scope sc), .release (.future f)], (s.threads t).error, none⟩) := by
  have hphase : ∀ y, s.store.futures f = some y → y.Clean ∧ y.kind ≠ none := h.phase htodo
  obtain ⟨hclean, -⟩ := hphase y hy
  have hliving := h.living htodo hy (by simp [entry])
  have hok := h.records.futures f y hy
  have hxok := h.records.scopes sc x hx
  have hx' : (s.store.setFuture f { y with ready := true }).scopes sc = some x := hx
  refine .write ((h.balanced.few.setFuture f _).setScope sc _) (fun k => ?_) ?_ (fun g hg => ?_) ?_ rfl ?_
  · rw [Store.total_setScope (h.balanced.few.setFuture f _), hx', Store.total_setFuture h.balanced.few, hy, List.cons_append,
      todoBooks_cons, todoBooks_append, todoBooks_notification, todoBooks_cons, todoBooks_cons, todoBooks_nil]
    have hshown : (y.announced || y.object.publicLive) = true ∧ y.ready = false := by
      rw [Future.unfinished, Bool.and_eq_true, Bool.not_eq_true'] at hliving
      exact ⟨hliving.2, hliving.1⟩
    simp only [Future.books, Scope.books, Future.hidden, Future.unfinished, Future.dead, Future.heldArgument, hshown.1,
      hshown.2, Report.finishClosing_pending, Report.finishClosing_active, hcounts.pending, hcounts.active,
      Section.accounts, taskRefs, entries_cons, entries_nil]
    simp
    ring
  · refine (h.records.setFuture ?_).setScope ?_
    · exact ⟨hok.disposal, hok.claimed, hok.published, hok.single, hok.result, hok.freed, fun _ =>
        ⟨hclean.argument, hclean.discarded, hclean.retracted⟩⟩
    · exact ⟨hxok.disposal, hxok.claimed, hxok.published, Report.finishClosing_ok (hcounts.sums hxok.report)⟩
  · have hsame : y.SamePhase { y with ready := true } := ⟨rfl, rfl, rfl, id⟩
    exact SamePhase.setFuture hy hsame g
  · refine (h.ledger.setFuture hy ?_ ?_ ?_).setScope hx' ?_ ?_ <;> first | rfl | exact id
  · have hreleases : Hands ((s.store.setFuture f { y with ready := true }).setScope sc
        { x with report := r'.finishClosing.1 }) (s.threads t) (.publish sc f)
        [.release (.scope sc), .release (.future f)] (s.threads t).error :=
      Hands.cons (.plain trivial rfl) (by simp [Section.mayConsume]) trivial (by intros; contradiction) rfl (by intros; contradiction)
    refine Hands.cons (hreleases.notified (by simp [Section.mayConsume]) ?_) ?_ trivial (fun r hr => ?_) rfl (by intros; contradiction)
    · simp [entry]
    · cases r'.finishClosing.2 <;> simp [notification, Section.mayConsume]
    · cases hr
      show 0 < todoBooks (notification sc r'.finishClosing.2 ++ [.release (.scope sc), .release (.future f)]) _
      rw [todoBooks_append, todoBooks_notification]
      simp [entry]

theorem scopedPublish_runs (h : Inv s) (htodo : (s.threads t).todo = .publish sc f :: rest) :
    Runs s t (.publish sc f) (scopedPublish s.store sc f (s.threads t).error) := by
  obtain ⟨x, hx, -⟩ := h.scope sc htodo (by simp [entry])
  obtain ⟨y, hy, hok⟩ := h.future (f := f) htodo (by simp [entry])
  have hphase : ∀ y, s.store.futures f = some y → y.Clean ∧ y.kind ≠ none := h.phase htodo
  obtain ⟨hclean, hkind⟩ := hphase y hy
  have hpending : 1 ≤ x.report.pendingTasks := by
    have := (h.reserved htodo hx).1
    simp [entry] at this
    omega
  obtain ⟨r', hr', hcounts⟩ := Report.accountCompletion_counts y.runtimeError hpending hkind
  have done := publish_completes h htodo hx hy hcounts
  simp only [scopedPublish, hx, hy]
  split
  · rename_i v hlive hresult
    refine .setFuture h hy rfl rfl ?_ (fun _ => ⟨rfl, rfl, rfl, id⟩) (fun k => ?_) ?_
    · exact ⟨hok.disposal, hok.claimed, hok.published, hok.single, fun _ => rfl, fun hf => ⟨(hok.freed hf).1, rfl⟩, fun _ =>
        ⟨hclean.argument, hclean.discarded, hclean.retracted⟩⟩
    · simp only [Future.books, Future.hidden, Future.unfinished, Future.dead, Future.heldArgument, hresult, slotBooks,
        todoBooks_cons, todoBooks_nil, Section.accounts, entries_cons, entries_nil]
      ring
    · refine Hands.cons (.plain (fun z hz => ?_) rfl) (by simp [Section.mayConsume]) trivial (by intros; contradiction) rfl (by intros; contradiction)
      rw [Store.setFuture_self] at hz
      cases hz
      exact ⟨⟨hclean.argument, hclean.discarded, hclean.retracted⟩, hkind⟩
  · simp only [hr']
    exact done

end Llam.Structured
