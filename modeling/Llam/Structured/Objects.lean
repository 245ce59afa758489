import Llam.Structured.Fits

/-!
# Sections on one object

Beginning and ending a public operation, releasing a reference, and consuming a handle fit (`structuredEnd_runs`,
`structuredRelease_runs`, `structuredConsume_runs`). Each of them changes the header of one object, so what they have in
common is what a new header does to the books (`Store.total_setObject`), the records, the phases and the handles.
-/

namespace Llam.Structured

open Llam.Lib Store

variable {V F S T : Type} [DecidableEq V] [DecidableEq F] [DecidableEq S] [DecidableEq T]
  {s : State V F S T} {st : Store V F S T} {t : T} {m : Section V F S} {rest : List (Section V F S)}
  {e : Effect V F S T} {k : Account V F S} {r : Ref V F S} {o o' : Object}

/-- A section does not abort, and what it does fits. -/
def Runs (s : State V F S T) (t : T) (m : Section V F S) (x : Exec V F S T) : Prop :=
  x ≠ .aborted ∧ ∀ e, x = .done e → Fits s.store t (s.threads t) m e

theorem Runs.done (h : Fits s.store t (s.threads t) m e) : Runs s t m (.done e) :=
  ⟨nofun, fun _ he => by cases he; exact h⟩

theorem Runs.blocked : Runs s t m .blocked := ⟨nofun, nofun⟩

/-! ## What a section pushes -/

/-- The sections that are pushed find what they need, and the call goes on as it must. -/
structure Hands (st : Store V F S T) (th : Thread V F S) (m : Section V F S) (push : List (Section V F S))
    (error : Option Errno) : Prop where
  phase : ∀ m' ∈ push, m'.Phase st
  guarded : Guarded push
  may : ∀ m' ∈ push, m'.mayConsume = true → m.mayConsume = true ∧ push = [m']
  quiet : m.quiet = true → error = th.error ∧ ∀ m' ∈ push, m'.quiet = true

theorem guarded_one (h : m.notifies = none) : Guarded [m] := by
  refine ⟨fun r hr => ?_, trivial⟩
  rw [h] at hr
  cases hr

variable {th : Thread V F S} {m' : Section V F S} {error : Option Errno} {push : List (Section V F S)} {n : Nat}

theorem Hands.one (hphase : m'.Phase st)
    (hnotifies : m'.notifies = none) (hmay : m'.mayConsume = true → m.mayConsume = true)
    (hquiet : m.quiet = true → error = th.error ∧ m'.quiet = true) : Hands st th m [m'] error where
  phase := by
    intro m'' hm''
    cases List.mem_singleton.mp hm''
    exact hphase
  guarded := guarded_one hnotifies
  may := by
    intro m'' hm'' hm
    cases List.mem_singleton.mp hm''
    exact ⟨hmay hm, rfl⟩
  quiet := by
    intro hm
    obtain ⟨herror, hm'⟩ := hquiet hm
    refine ⟨herror, fun m'' hm'' => ?_⟩
    cases List.mem_singleton.mp hm''
    exact hm'

/-- A section that may fail hands on to one that notifies nobody and consumes no more. -/
def Section.passes (m m' : Section V F S) : Bool := m'.notifies.isNone && (!m'.mayConsume || m.mayConsume) && !m.quiet

theorem Hands.plain (hphase : m'.Phase st) (h : m.passes m' = true) : Hands st th m [m'] error := by
  simp only [Section.passes, Bool.and_eq_true, Option.isNone_iff_eq_none, Bool.not_eq_true'] at h
  exact .one hphase h.1.1 (fun hm => by simpa [hm] using h.1.2) fun hm => by simp [h.2] at hm

theorem Hands.nil (hquiet : m.quiet = true → error = th.error) : Hands st th m [] error :=
  ⟨nofun, trivial, nofun, fun hm => ⟨hquiet hm, nofun⟩⟩

theorem Hands.cons {l : List (Section V F S)}
    (hl : Hands st th m l error) (hnone : ∀ m' ∈ l, m'.mayConsume = false) (hphase : m'.Phase st)
    (hnotifies : ∀ r, m'.notifies = some r → 0 < todoBooks l (.refs r)) (hmay : m'.mayConsume = false)
    (hquiet : m.quiet = true → m'.quiet = true) : Hands st th m (m' :: l) error where
  phase := List.forall_mem_cons.mpr ⟨hphase, hl.phase⟩
  guarded := ⟨hnotifies, hl.guarded⟩
  may := by
    intro m'' hm'' hc
    rcases List.mem_cons.mp hm'' with rfl | hm''
    · rw [hmay] at hc
      cases hc
    · rw [hnone m'' hm''] at hc
      cases hc
  quiet := fun hm => ⟨(hl.quiet hm).1, List.forall_mem_cons.mpr ⟨hquiet hm, (hl.quiet hm).2⟩⟩

theorem Runs.write {st' : Store V F S T} (hfew : st'.Few)
    (hlaw : ∀ k, st'.total k = s.store.total k - entries m.accounts k + todoBooks push k) (hok : st'.Ok)
    (hframe : ∀ f, entries m.accounts (.life f) = 0 → SamePhase s.store st' f) (hledger : Ledger st')
    (hconsumed : st'.consumed = s.store.consumed) (hhands : Hands st' (s.threads t) m push error) :
    Runs s t m (.done ⟨st', push, error, none⟩) :=
  .done {
    settles := ⟨hfew, fun k => by rw [hlaw]; exact (Int.add_zero _).symm⟩
    records := hok
    advances := ⟨hframe, hhands.phase, nofun, hhands.guarded⟩
    ledger := hledger
    logs := ⟨hhands.may, hhands.quiet, .inl hconsumed⟩ }

theorem Runs.log {st' : Store V F S T} {r : Ref V F S} {g : Nat} (hmay : m.mayConsume = true)
    (hfew : st'.Few) (hlaw : ∀ k, st'.total k = s.store.total k - entries m.accounts k + todoBooks push k) (hok : st'.Ok)
    (hframe : ∀ f, entries m.accounts (.life f) = 0 → SamePhase s.store st' f) (hledger : Ledger st')
    (hconsumed : st'.consumed = s.store.consumed ++ [⟨r, g, t, (s.threads t).calls⟩])
    (hphase : ∀ m' ∈ push, m'.Phase st') (hguarded : Guarded push)
    (hquiet : ∀ m' ∈ push, m'.quiet = true ∧ m'.mayConsume = false) : Runs s t m (.done ⟨st', push, none, none⟩) :=
  .done {
    settles := ⟨hfew, fun k => by rw [hlaw]; exact (Int.add_zero _).symm⟩
    records := hok
    advances := ⟨hframe, hphase, nofun, hguarded⟩
    ledger := hledger
    logs := {
      push := fun m' hm' hc => by rw [(hquiet m' hm').2] at hc; cases hc
      quiet := fun hq => by rw [Section.not_quiet hmay] at hq; cases hq
      log := .inr ⟨hmay, rfl, fun m' hm' => (hquiet m' hm').1, r, g, hconsumed⟩ } }

theorem Runs.same (h : Inv s)
    (hbooks : ∀ k, todoBooks push k = entries m.accounts k) (hhands : Hands s.store (s.threads t) m push error) :
    Runs s t m (.done ⟨s.store, push, error, none⟩) := by
  refine .write h.balanced.few (fun k => ?_) h.records (fun f _ => .refl _ f) h.ledger rfl hhands
  rw [hbooks]
  omega

theorem Runs.handOn (h : Inv s) (hbooks : m'.accounts = m.accounts)
    (hhands : Hands s.store (s.threads t) m [m'] error) : Runs s t m (.done ⟨s.store, [m'], error, none⟩) := by
  refine .same h (fun k => ?_) hhands
  rw [todoBooks_cons, hbooks, todoBooks_nil]
  omega

/-! ## A new header -/

/-- What a new header means for the other accounts: a claim on a value, the freeing of a future. -/
def headerBooks (st : Store V F S T) (r : Ref V F S) (o o' : Object) (k : Account V F S) : Int :=
  match r with
  | .value v => (flag o'.claimed - flag o.claimed) * entry (.claims v) k
  | .future f =>
    match st.futures f with
    | none => 0
    | some y => (flag (o'.refs == 0 && !y.freed) - flag (o.refs == 0 && !y.freed)) * entry (.freeing f) k
  | .scope _ => 0

theorem Store.total_setObject (h : st.Few) (hr : st.object r = some o)
    (hshown : st.announced r = true ∨ o'.publicLive = o.publicLive) : (st.setObject r o').total k = st.total k +
      ((o'.refs - flag o'.publicLive) - (o.refs - flag o.publicLive)) * entry (.refs r) k +
      (o'.publicOps - o.publicOps) * entry (.ops r) k + headerBooks st r o o' k := by
  cases hr using object_cases with
  | value v x hx =>
    rw [setObject_value hx, total_setValue h, hx]
    simp only [Value.books, Object.books, headerBooks]
    ring
  | future f y hy =>
    have hannounced : st.announced (.future f) = y.announced := by simp [Store.announced, hy]
    have hhidden : Future.hidden { y with object := o' } = y.hidden := by
      rcases hshown with hshown | hlive
      · simp [Future.hidden, ← hannounced, hshown]
      · simp [Future.hidden, hlive]
    have hunfinished : Future.unfinished { y with object := o' } = y.unfinished := by
      rcases hshown with hshown | hlive
      · simp [Future.unfinished, ← hannounced, hshown]
      · simp [Future.unfinished, hlive]
    rw [setObject_future hy, total_setFuture h, hy]
    simp only [Future.books, Object.books, headerBooks, hy, hhidden, hunfinished, Future.dead, Future.heldArgument]
    ring
  | scope sc x hx =>
    rw [setObject_scope hx, total_setScope h, hx]
    simp only [Scope.books, Object.books, headerBooks]
    ring

/-- What a new header must satisfy besides. -/
structure Object.Fine (st : Store V F S T) (r : Ref V F S) (o o' : Object) : Prop where
  disposal : o'.Disposal
  claimed : o'.claimed = true → o.claimed = true ∧ o'.publicLive = true
  generation : o'.generation = o.generation
  ops : st.announced r = true ∨ o'.publicOps ≤ o.publicOps
  refs : o'.refs = 0 ∨ 0 < o.refs
  shown : st.announced r = true ∨ o'.publicLive = o.publicLive

theorem Store.Ok.setObject (h : st.Ok) (hr : st.object r = some o) (ho : Object.Fine st r o o') : (st.setObject r o').Ok := by
  cases hr using object_cases with
  | value v x hx =>
    have hok := h.values v x hx
    rw [setObject_value hx]
    refine h.setValue ⟨ho.disposal, fun hc => (ho.claimed hc).2, ?_⟩
    exact ho.generation ▸ hok.published
  | future f y hy =>
    have hok := h.futures f y hy
    rw [setObject_future hy]
    have hannounced : st.announced (.future f) = y.announced := by simp [Store.announced, hy]
    refine h.setFuture ⟨ho.disposal, ?_, ho.generation.trans hok.published, fun ha => ?_, hok.result, fun hf => ?_, fun hu => ?_⟩
    · rw [← Bool.not_eq_true]
      intro hc
      have hclaimed := (ho.claimed hc).1
      rw [hok.claimed] at hclaimed
      cases hclaimed
    · have hsingle := hok.single ha
      rcases ho.ops with hshown | hle
      · rw [hannounced] at hshown
        rw [hshown] at ha
        cases ha
      · exact Nat.le_trans hle hsingle
    · obtain ⟨hzero, hresult⟩ := hok.freed hf
      rcases ho.refs with hrefs | hrefs
      · exact ⟨hrefs, hresult⟩
      · omega
    · have hclean := hok.finished
      refine ⟨(hclean ?_).argument, (hclean ?_).discarded, (hclean ?_).retracted⟩ <;>
      · rw [Future.unfinished] at hu ⊢
        rcases ho.shown with hshown | hlive
        · rw [hannounced] at hshown
          simpa [hshown] using hu
        · simpa [hlive] using hu
  | scope sc x hx =>
    have hok := h.scopes sc x hx
    rw [setObject_scope hx]
    refine h.setScope ⟨ho.disposal, ?_, ho.generation.trans hok.published, hok.report⟩
    rw [← Bool.not_eq_true]
    intro hc
    have hclaimed := (ho.claimed hc).1
    rw [hok.claimed] at hclaimed
    cases hclaimed

theorem SamePhase.setObject (hr : st.object r = some o) (f : F) : SamePhase st (st.setObject r o') f := by
  cases hr using object_cases with
  | value v x hx | scope sc x hx =>
    exact .refl st f
  | future g y hy =>
    rw [setObject_future hy]
    refine .setFuture hy ?_ f
    exact ⟨rfl, rfl, rfl, id⟩

@[simp] theorem Store.setObject_consumed (r : Ref V F S) (o : Object) : (st.setObject r o).consumed = st.consumed := by
  cases r <;> rfl

section

variable (hr : st.object r = some o)

include hr

theorem Store.object_setObject (q : Ref V F S) :
    (st.setObject r o').object q = if q = r then some o' else st.object q := by
  cases hr using object_cases with
  | value v x hx =>
    rw [setObject_value hx, object_setValue]
  | future g y hy =>
    rw [setObject_future hy, object_setFuture]
  | scope sc x hx =>
    rw [setObject_scope hx, object_setScope]

theorem Store.announced_setObject (q : Ref V F S) : (st.setObject r o').announced q = st.announced q := by
  cases hr using object_cases with
  | value v x hx =>
    rw [setObject_value hx, announced_setValue]
  | future g y hy =>
    rw [setObject_future hy, announced_setFuture]
    split
    · rename_i hq
      rw [hq, Store.announced, hy]
    · rfl
  | scope sc x hx =>
    rw [setObject_scope hx, announced_setScope]

theorem Store.handle_setObject {q : Ref V F S} (hq : q ≠ r) : (st.setObject r o').handle q = st.handle q := by
  rw [Store.handle, object_setObject hr, if_neg hq, Store.handle]

theorem Store.handle_setObject_self : (st.setObject r o').handle r = some (o'.generation, o'.publicLive) := by
  rw [Store.handle, object_setObject hr, if_pos rfl]
  rfl

end

theorem Ledger.setObject (h : Ledger st) (hr : st.object r = some o) (hgeneration : o'.generation = o.generation)
    (hlive : o'.publicLive = o.publicLive) : Ledger (st.setObject r o') := by
  refine h.congr (fun q => ?_) (fun q hq => ?_) (setObject_consumed r o')
  · rcases eq_or_ne q r with rfl | hne
    · rw [handle_setObject_self hr, hgeneration, hlive, Store.handle, hr]
      rfl
    · exact handle_setObject hr hne
  · rwa [announced_setObject hr] at hq

theorem Store.Ok.published (h : st.Ok) (hr : st.object r = some o) : 1 ≤ o.generation := by
  cases hr using object_cases with
  | value v x hx =>
    exact (h.values v x hx).published
  | future f y hy =>
    exact Nat.le_of_eq (h.futures f y hy).published.symm
  | scope sc x hx =>
    exact Nat.le_of_eq (h.scopes sc x hx).published.symm

theorem Ledger.consumeObject (h : Ledger st) (hok : st.Ok) (hr : st.object r = some o) (hlive : o.publicLive = true)
    (hgeneration : o'.generation = o.generation) (hdead : o'.publicLive = false) :
    Ledger ((st.setObject r o').consumes r o.generation t n) := by
  refine h.consume (r := r) (g := o.generation) (t := t) (n := n) (hok.published hr) ?_ ?_ (fun q hq => ?_) (fun q hq => ?_) ?_
  · rw [Store.handle, hr, ← hlive]
    rfl
  · rw [Store.handle, object_consumes, object_setObject hr, if_pos rfl, ← hgeneration, ← hdead]
    rfl
  · exact handle_setObject hr hq
  · rwa [announced_consumes, announced_setObject hr] at hq
  · rw [Store.consumes, setObject_consumed]

theorem Store.resolve_ok {g : Nat} (h : st.resolve r g = .ok o) :
    st.object r = some o ∧ o.publicLive = true ∧ o.generation = g ∧ st.announced r = true ∧ o.claimed = false := by
  unfold Store.resolve at h
  cases ho : st.object r with
  | none =>
    rw [ho] at h
    cases h
  | some o' =>
    simp only [ho] at h
    split at h
    · cases h
    rename_i hlive
    split at h
    · cases h
    rename_i hclaimed
    cases h
    simp only [Bool.or_eq_true, Bool.not_eq_true', bne_iff_ne, not_or, Bool.not_eq_false, not_not] at hlive
    exact ⟨rfl, hlive.1.1, hlive.1.2, hlive.2, Bool.not_eq_true _ ▸ hclaimed⟩

/-! ## Ending an operation, releasing a reference -/

theorem Inv.pinned (h : Inv s) (htodo : (s.threads t).todo = m :: rest) (hpin : 0 < entries m.accounts (.ops r)) :
    ∃ o, s.store.object r = some o ∧ 0 < o.publicOps := by
  have hcovers := h.balanced.covers_top htodo (.ops r)
  rw [total_ops] at hcovers
  cases ho : s.store.object r with
  | none =>
    rw [ho] at hcovers
    simp only [Option.elim_none, Nat.cast_zero] at hcovers
    omega
  | some o =>
    rw [ho] at hcovers
    simp only [Option.elim_some] at hcovers
    exact ⟨o, rfl, by omega⟩

theorem Inv.counted (h : Inv s) (htodo : (s.threads t).todo = m :: rest) (hr : s.store.object r = some o) :
    entries m.accounts (.refs r) + flag o.publicLive ≤ o.refs := by
  have hcovers := h.balanced.covers_top htodo (.refs r)
  have hle := total_refs_le hr
  omega

theorem Inv.allocated (h : Inv s) (htodo : (s.threads t).todo = m :: rest) (href : 0 < entries m.accounts (.refs r)) :
    ∃ o, s.store.object r = some o := by
  cases ho : s.store.object r with
  | none =>
    have hcovers := h.balanced.covers_top htodo (.refs r)
    have hle := total_refs_none ho
    omega
  | some o => exact ⟨o, rfl⟩

theorem Inv.guarded (h : Inv s) (htodo : (s.threads t).todo = m :: rest) (hm : m.notifies = some r) :
    ∃ o, s.store.object r = some o := by
  cases ho : s.store.object r with
  | some o => exact ⟨o, rfl⟩
  | none =>
    have hguarded := (h.phased t).guarded
    rw [htodo] at hguarded
    have hrefs := hguarded.1 r hm
    have hnone := total_refs_none ho
    have hcovers := h.balanced.covers t (.refs r)
    have htop := Thread.books_top htodo (.refs r)
    have hnonneg := entries_nonneg m.accounts (.refs r)
    have htask := entries_nonneg (taskAccounts (s.threads t).completion) (.refs r : Account V F S)
    omega

theorem Object.Disposal.drop (h : o.Disposal) (hrefs : o.refs = n + 1) (publicOps : Nat) : Object.Disposal { o with
      refs := n, publicOps := publicOps, disposed := if n = 0 then o.disposed + 1 else o.disposed } := by
  have hzero : o.disposed = 0 := by
    rw [Object.Disposal, hrefs] at h
    simpa using h
  unfold Object.Disposal
  rw [hzero]

theorem Store.Ok.disposal (h : st.Ok) (hr : st.object r = some o) : o.Disposal := by
  cases hr using object_cases with
  | value v x hx =>
    exact (h.values v x hx).disposal
  | future f y hy =>
    exact (h.futures f y hy).disposal
  | scope sc x hx =>
    exact (h.scopes sc x hx).disposal

theorem Store.Ok.claimed (h : st.Ok) (hr : st.object r = some o) (hc : o.claimed = true) : o.publicLive = true := by
  cases hr using object_cases with
  | value v x hx =>
    exact (h.values v x hx).claimed hc
  | future f y hy =>
    have := (h.futures f y hy).claimed
    rw [hc] at this
    cases this
  | scope sc x hx =>
    have := (h.scopes sc x hx).claimed
    rw [hc] at this
    cases this

theorem headerBooks_drop (h : st.Ok) (hr : st.object r = some o) (hrefs : o.refs = n + 1) (ho' : o'.refs = n)
    (hclaimed : o'.claimed = o.claimed) : headerBooks st r o o' k = todoBooks (disposal r o') k := by
  cases r with
  | value v => simp [headerBooks, hclaimed, disposal]
  | scope sc => rfl
  | future f =>
    obtain ⟨y, hy, rfl⟩ := object_future.mp hr
    have hfreed : y.freed = false := by
      rw [← Bool.not_eq_true]
      intro hf
      have := ((h.futures f y hy).freed hf).1
      omega
    simp only [headerBooks, hy, hfreed, hrefs, ho', disposal]
    cases n with
    | zero | succ n => simp

theorem disposal_hands (th : Thread V F S) (m : Section V F S) (r : Ref V F S) (o : Object) :
    Hands st th m (disposal r o) th.error := by
  cases r with
  | value v | scope sc => exact .nil fun _ => rfl
  | future f =>
    simp only [disposal]
    split
    · exact .one trivial rfl nofun fun _ => ⟨rfl, rfl⟩
    · exact .nil fun _ => rfl

theorem dropRef_runs (h : Inv s) (hr : s.store.object r = some o) (hrefs : 0 < o.refs) {p : Nat} (hp : p ≤ o.publicOps)
    (hbooks : ∀ k, entries m.accounts k = entry (.refs r) k + (o.publicOps - p) * entry (.ops r) k) :
    Runs s t m (dropRef s.store r { o with publicOps := p } (s.threads t).error) := by
  obtain ⟨n, hn⟩ := Nat.exists_eq_succ_of_ne_zero (Nat.ne_of_gt hrefs)
  have hdrop : Object.drop { o with publicOps := p } =
      some { o with refs := n, publicOps := p, disposed := if n = 0 then o.disposed + 1 else o.disposed } := by
    simp only [Object.drop, hn]
  rw [dropRef, hdrop]
  have hclaimed : o.claimed = true → o.publicLive = true := h.records.claimed hr
  have hfine : Object.Fine s.store r o
      { o with refs := n, publicOps := p, disposed := if n = 0 then o.disposed + 1 else o.disposed } :=
    ⟨(h.records.disposal hr).drop hn p, fun hc => ⟨hc, hclaimed hc⟩, rfl, .inr hp, .inr hrefs, .inr rfl⟩
  refine .write (h.balanced.few.setObject r _) (fun k => ?_) (h.records.setObject hr hfine) (fun f _ => .setObject hr f)
    (h.ledger.setObject hr rfl rfl) (setObject_consumed _ _) (disposal_hands _ m r _)
  rw [total_setObject h.balanced.few hr hfine.shown, headerBooks_drop h.records hr hn (by rfl) (by rfl), hbooks, hn]
  push_cast
  ring

theorem entries_pin_self (r : Ref V F S) : entries (pin r) (.ops r) = 1 := by simp [entry]

theorem entries_pin_refs (r : Ref V F S) : entries (pin r) (.refs r) = 1 := by simp [entry]

theorem structuredEnd_runs (h : Inv s) (htodo : (s.threads t).todo = .endOp r :: rest) :
    Runs s t (.endOp r) (structuredEnd s.store r (s.threads t).error) := by
  obtain ⟨o, hr, hops⟩ := h.pinned htodo (r := r) (by rw [Section.accounts, entries_pin_self]; decide)
  have hrefs := h.counted htodo hr
  rw [Section.accounts, entries_pin_refs] at hrefs
  have hlive := flag_nonneg o.publicLive
  obtain ⟨n, hn⟩ := Nat.exists_eq_succ_of_ne_zero (Nat.ne_of_gt hops)
  simp only [structuredEnd, hr, hn]
  refine dropRef_runs h hr (by omega) (p := n) (by omega) fun k => ?_
  rw [Section.accounts, hn]
  simp only [pin, entries_cons, entries_nil]
  push_cast
  ring

theorem structuredRelease_runs (h : Inv s) (htodo : (s.threads t).todo = .release r :: rest) :
    Runs s t (.release r) (structuredRelease s.store r (s.threads t).error) := by
  have hone : entries (Section.release r).accounts (.refs r) = 1 := by simp [entry]
  obtain ⟨o, hr⟩ := h.allocated htodo (r := r) (by rw [hone]; decide)
  have hrefs := h.counted htodo hr
  have hlive := flag_nonneg o.publicLive
  simp only [structuredRelease, hr]
  refine dropRef_runs h hr (by omega) (Nat.le_refl o.publicOps) fun k => ?_
  simp

/-! ## Consuming a handle -/

theorem Section.hidden_le (m : Section V F S) (f : F) :
    entries m.accounts (.hidden f) ≤ entries m.accounts (.ops (.future f)) := by
  have hspawn (sc : S) (g : F) (l : List (Account V F S)) (hl : .hidden f ∉ l) :
      entries (.hidden g :: (l ++ spawnPins sc g)) (.hidden f) ≤
        entries (.hidden g :: (l ++ spawnPins sc g)) (.ops (.future f)) := by
    have := entries_le hl (.ops (.future f))
    by_cases hg : g = f <;> simp [entry, hg] <;> omega
  cases m with
  | reserve sc g _ | consumeFailed sc g => exact hspawn sc g [.life g] (by simp)
  | spawnTask sc g argument =>
    have := hspawn sc g (.life g :: .active sc :: (argument.toList.map .claims ++ taskRefs sc g)) (by simp)
    simpa using this
  | commitClaim sc g v => exact hspawn sc g [.active sc, .claims v] (by simp)
  | announce sc g => exact hspawn sc g [.active sc] (by simp)
  | rollbackClaim sc g v => exact hspawn sc g (.life g :: .active sc :: .claims v :: taskRefs sc g) (by simp)
  | rollbackSpawn sc g => exact hspawn sc g (.life g :: .active sc :: taskRefs sc g) (by simp)
  | finishSpawn sc g failed =>
    cases failed with
    | false => exact entries_le (by simp) _
    | true => exact hspawn sc g [.life g, .active sc] (by simp)
  | requestCheck _ after | requestToken _ after | requestDone _ after => cases after <;> exact entries_le (by simp) _
  | _ => exact entries_le (by simp) _

theorem Thread.hidden_le (th : Thread V F S) (f : F) : th.books (.hidden f) ≤ th.books (.ops (.future f)) := by
  have htodo := todoBooks_le (Section.hidden_le · f) th.todo
  have htask : entries (taskAccounts (V := V) th.completion) (.hidden f) = 0 := by
    cases th.completion <;> exact entries_eq_zero (by simp [taskAccounts])
  have hops := entries_nonneg (taskAccounts (V := V) th.completion) (.ops (.future f))
  unfold Thread.books
  omega

theorem Inv.announced_of_pin (h : Inv s) (htodo : (s.threads t).todo = m :: rest) (hr : s.store.object r = some o)
    (hm : m.accounts = pin r) (hlive : o.publicLive = true) (hops : o.publicOps = 1) : s.store.announced r = true := by
  cases r with
  | value v | scope sc => rfl
  | future f =>
    obtain ⟨y, hy, rfl⟩ := object_future.mp hr
    rw [Store.announced, hy]
    by_contra ha
    rw [Bool.not_eq_true] at ha
    have hhidden : s.store.total (.hidden f) = 1 := by
      rw [total_future rfl, hy]
      simp [Future.books, Object.books, Future.hidden, entry, slotBooks_other, hlive, ha]
    have htotal : s.store.total (.ops (.future f)) = 1 := by
      rw [total_ops, hr, Option.elim_some, hops]
      rfl
    rw [h.balanced.law] at hhidden htotal
    -- every spawn pins the future it has not announced, and `m` pins it once more
    have hle := le_tally (w := fun _ th => Thread.books th (.ops (.future f)) - th.books (.hidden f)) h.balanced.busy
      (fun _ _ hb => by rw [hb.books, hb.books]; rfl) (fun u => Int.sub_nonneg_of_le (Thread.hidden_le _ f)) t
    rw [tally_sub h.balanced.busy (fun _ _ hb => hb.books _) (fun _ _ hb => hb.books _), hhidden, htotal] at hle
    have hrest := Thread.hidden_le { s.threads t with todo := rest } f
    unfold Thread.books at hrest
    have htop := Thread.books_top htodo (.ops (.future f))
    have htop' := Thread.books_top htodo (.hidden f)
    rw [hm] at htop htop'
    rw [entries_pin_self] at htop
    have hzero : entries (pin (.future f)) (.hidden f : Account V F S) = 0 := by simp [entry]
    simp only at hrest hle
    omega

/-- An object whose handle was consumed. -/
def Object.withdrawn (o : Object) : Object := { o with refs := o.refs - 1, publicLive := false, claimed := false }

theorem Object.consume_ok (hlive : o.publicLive = true) (hclaimed : o.claimed = false) (hops : o.publicOps = 1)
    (hrefs : 2 ≤ o.refs) : o.consume = .ok (some o.withdrawn) := by
  obtain ⟨n, hn⟩ := Nat.exists_eq_add_of_le' hrefs
  simp [Object.consume, Object.unpublish, Object.dropKept, Object.withdrawn, hlive, hclaimed, hops, hn]

theorem Object.consume_cases (hrefs : o.publicLive = true → 2 ≤ o.refs) :
    (∃ error, o.consume = .error error) ∨ (o.publicLive = true ∧ o.claimed = false ∧ o.publicOps = 1 ∧
      o.consume = .ok (some o.withdrawn)) := by
  cases hlive : o.publicLive with
  | false => exact .inl ⟨.EINVAL, by simp [Object.consume, hlive]⟩
  | true =>
    cases hclaimed : o.claimed with
    | true => exact .inl ⟨.EBUSY, by simp [Object.consume, hlive, hclaimed]⟩
    | false =>
      by_cases hops : o.publicOps = 1
      · exact .inr ⟨rfl, rfl, hops, Object.consume_ok hlive hclaimed hops (hrefs hlive)⟩
      · exact .inl ⟨.EBUSY, by simp [Object.consume, hlive, hops]⟩

theorem Object.withdrawn_fine (h : o.Disposal) (hrefs : 2 ≤ o.refs)
    (hshown : st.announced r = true) : Object.Fine st r o o.withdrawn := by
  refine ⟨?_, nofun, rfl, .inl hshown, .inr (by omega), .inl hshown⟩
  have hzero : o.disposed = 0 := by
    rw [Object.Disposal, if_neg (by omega)] at h
    exact h
  show o.disposed = if o.refs - 1 = 0 then 1 else 0
  rw [hzero, if_neg (by omega)]

theorem Store.total_withdrawn (h : st.Few) (hr : st.object r = some o) (hshown : st.announced r = true)
    (hlive : o.publicLive = true) (hclaimed : o.claimed = false) (hrefs : 2 ≤ o.refs) :
    (st.setObject r o.withdrawn).total k = st.total k := by
  have hheader : headerBooks st r o o.withdrawn k = 0 := by
    cases r with
    | value v => simp [headerBooks, Object.withdrawn, hclaimed]
    | scope sc => rfl
    | future f =>
      have h₁ : (o.refs - 1 == 0) = false := by simp; omega
      have h₂ : (o.refs == 0) = false := by simp; omega
      simp only [headerBooks, Object.withdrawn]
      split
      · rfl
      · simp [h₁, h₂]
  rw [total_setObject h hr (.inl hshown), hheader]
  simp only [Object.withdrawn, hlive, flag_true, flag_false]
  rw [Nat.cast_sub (by omega)]
  ring

theorem structuredConsume_runs (h : Inv s) (htodo : (s.threads t).todo = m :: rest) (hm : m.accounts = pin r)
    (hmay : m.mayConsume = true) : Runs s t m (structuredConsume s.store r t (s.threads t).calls) := by
  obtain ⟨o, hr, hops⟩ := h.pinned htodo (r := r) (by rw [hm, entries_pin_self]; decide)
  have hrefs := h.counted htodo hr
  rw [hm, entries_pin_refs] at hrefs
  have hquiet : m.quiet = false := Section.not_quiet hmay
  have fail (error : Errno) : Runs s t m (.done ⟨s.store, [.endOp r], some error, none⟩) :=
    .handOn h hm.symm (.one trivial rfl nofun (by rw [hquiet]; exact nofun))
  rw [structuredConsume, hr]
  have htwo : o.publicLive = true → 2 ≤ o.refs := by
    intro hlive
    rw [hlive, flag_true] at hrefs
    omega
  rcases Object.consume_cases htwo with ⟨error, hconsume⟩ | ⟨hlive, hclaimed, hops, hconsume⟩
  · simp only [hconsume]
    exact fail error
  simp only [hconsume]
  have hshown := h.announced_of_pin htodo hr hm hlive hops
  have hok := h.records.setObject hr (Object.withdrawn_fine (h.records.disposal hr) (htwo hlive) hshown)
  refine .log (r := r) (g := o.generation) hmay ((h.balanced.few.setObject r _).consumes _ _ _ _) (fun k => ?_) (hok.consumes _ _ _ _)
    (fun f _ => .setObject hr f) (h.ledger.consumeObject h.records hr hlive rfl rfl) ?_ (by simp [Section.Phase])
    (guarded_one rfl) (by simp [Section.quiet, Section.mayConsume])
  · rw [total_consumes, total_withdrawn h.balanced.few hr hshown hlive hclaimed (htwo hlive), hm,
      todoBooks_cons, todoBooks_nil, Section.accounts]
    ring
  · rw [Store.consumes, setObject_consumed]

end Llam.Structured
