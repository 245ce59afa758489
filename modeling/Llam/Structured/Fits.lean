import Llam.Structured.Invariant

/-!
# What a section has to do

`Fits` collects the obligations of one section: it settles its books (`Settles`), keeps the records in order, leaves the
phase of every future alone that it does not itself bring forward (`Advances`), and keeps the history of handles (`Logs`,
`Ledger`). `Inv.resume` is the invariant after a section that fits.
-/

namespace Llam.Structured

open Llam.Lib Function Store Thread

variable {V F S T : Type} [DecidableEq V] [DecidableEq F] [DecidableEq S] [DecidableEq T]

/-! ## Reading a written record -/

section Lookup

variable {st : Store V F S T} {r : Ref V F S}

@[simp] theorem Store.setValue_self (v : V) (x : Value) : (st.setValue v x).values v = some x := update_self ..

@[simp] theorem Store.setFuture_self (f : F) (y : Future V) : (st.setFuture f y).futures f = some y :=
  update_self ..

@[simp] theorem Store.setScope_self (s : S) (x : Scope) : (st.setScope s x).scopes s = some x := update_self ..

theorem Store.setValue_of_ne {u v : V} (h : u ≠ v) (x : Value) : (st.setValue v x).values u = st.values u :=
  update_of_ne h ..

theorem Store.setFuture_of_ne {f g : F} (h : f ≠ g) (y : Future V) : (st.setFuture g y).futures f = st.futures f :=
  update_of_ne h ..

theorem Store.setScope_of_ne {u s : S} (h : u ≠ s) (x : Scope) : (st.setScope s x).scopes u = st.scopes u :=
  update_of_ne h ..

@[simp] theorem Store.object_setValue (v : V) (x : Value) :
    (st.setValue v x).object r = if r = .value v then some x.object else st.object r := by
  cases r with
  | value u => by_cases h : u = v <;> simp [Store.object, Store.setValue, h]
  | future f | scope s => simp [Store.object, Store.setValue]

@[simp] theorem Store.object_setFuture (f : F) (y : Future V) :
    (st.setFuture f y).object r = if r = .future f then some y.object else st.object r := by
  cases r with
  | value v | scope s => simp [Store.object, Store.setFuture]
  | future g => by_cases h : g = f <;> simp [Store.object, Store.setFuture, h]

@[simp] theorem Store.object_setScope (s : S) (x : Scope) :
    (st.setScope s x).object r = if r = .scope s then some x.object else st.object r := by
  cases r with
  | value v | future f => simp [Store.object, Store.setScope]
  | scope u => by_cases h : u = s <;> simp [Store.object, Store.setScope, h]

@[simp] theorem Store.announced_setValue (v : V) (x : Value) : (st.setValue v x).announced r = st.announced r := by
  cases r <;> rfl

@[simp] theorem Store.announced_setScope (s : S) (x : Scope) : (st.setScope s x).announced r = st.announced r := by
  cases r <;> rfl

@[simp] theorem Store.announced_setFuture (f : F) (y : Future V) :
    (st.setFuture f y).announced r = if r = .future f then y.announced else st.announced r := by
  cases r with
  | value v | scope s => simp [Store.announced]
  | future g => by_cases h : g = f <;> simp [Store.announced, Store.setFuture, h]

@[simp] theorem Store.object_consumes (o : Ref V F S) (g : Nat) (t : T) (n : Nat) :
    (st.consumes o g t n).object r = st.object r := by
  cases r <;> rfl

@[simp] theorem Store.announced_consumes (o : Ref V F S) (g : Nat) (t : T) (n : Nat) :
    (st.consumes o g t n).announced r = st.announced r := by
  cases r <;> rfl

variable (h : st.Ok)
include h

theorem Store.Ok.setValue {v : V} {x : Value} (hx : x.Ok) : (st.setValue v x).Ok := by
  refine ⟨fun u z hz => ?_, h.futures, h.scopes⟩
  rcases eq_or_ne u v with rfl | hne
  · rw [setValue_self] at hz
    cases hz
    exact hx
  · rw [setValue_of_ne hne] at hz
    exact h.values u z hz

theorem Store.Ok.setFuture {f : F} {y : Future V} (hy : y.Ok) : (st.setFuture f y).Ok := by
  refine ⟨h.values, fun u z hz => ?_, h.scopes⟩
  rcases eq_or_ne u f with rfl | hne
  · rw [setFuture_self] at hz
    cases hz
    exact hy
  · rw [setFuture_of_ne hne] at hz
    exact h.futures u z hz

theorem Store.Ok.setScope {s : S} {x : Scope} (hx : x.Ok) : (st.setScope s x).Ok := by
  refine ⟨h.values, h.futures, fun u z hz => ?_⟩
  rcases eq_or_ne u s with rfl | hne
  · rw [setScope_self] at hz
    cases hz
    exact hx
  · rw [setScope_of_ne hne] at hz
    exact h.scopes u z hz

theorem Store.Ok.consumes (o : Ref V F S) (g : Nat) (t : T) (n : Nat) : (st.consumes o g t n).Ok :=
  ⟨h.values, h.futures, h.scopes⟩

end Lookup

/-! ## Phases -/

section Phases

variable {st st' : Store V F S T} {m : Section V F S} {f : F}

/-- The fields of a future that its phase is about. -/
structure Future.SamePhase (y y' : Future V) : Prop where
  argument : y'.argument = y.argument
  discarded : y'.discarded = y.discarded
  retracted : y'.retracted = y.retracted
  kind : y.kind ≠ none → y'.kind ≠ none

theorem Future.SamePhase.refl (y : Future V) : y.SamePhase y := ⟨rfl, rfl, rfl, id⟩

/-- The phase of a future is the same in two stores, or the future is new. -/
def SamePhase (st st' : Store V F S T) (f : F) : Prop :=
  ∀ y', st'.futures f = some y' → st.futures f = none ∨ ∃ y, st.futures f = some y ∧ y.SamePhase y'

theorem SamePhase.refl (st : Store V F S T) (f : F) : SamePhase st st f := by
  intro y hy
  exact .inr ⟨y, hy, .refl y⟩

theorem SamePhase.setFuture_of_ne (st : Store V F S T) {g : F} (hne : f ≠ g) (y : Future V) : SamePhase st (st.setFuture g y) f := by
  intro y' hy'
  rw [Store.setFuture_of_ne hne] at hy'
  exact .inr ⟨y', hy', .refl y'⟩

theorem SamePhase.setFuture {g : F} {y y' : Future V} (hy : st.futures g = some y) (hsame : y.SamePhase y') (f : F) :
    SamePhase st (st.setFuture g y') f := by
  rcases eq_or_ne f g with rfl | hne
  · intro z hz
    rw [setFuture_self] at hz
    cases hz
    exact .inr ⟨y, hy, hsame⟩
  · exact .setFuture_of_ne st hne y'

theorem SamePhase.transfer {P : Future V → Prop} (hsame : SamePhase st st' f) (hsome : st.futures f ≠ none)
    (hP : ∀ y y', y.SamePhase y' → P y → P y') (h : ∀ y, st.futures f = some y → P y) :
    ∀ y, st'.futures f = some y → P y := by
  intro y' hy'
  rcases hsame y' hy' with hnone | ⟨y, hy, hyy'⟩
  · exact absurd hnone hsome
  · exact hP y y' hyy' (h y hy)

theorem Future.Clean.keep {y y' : Future V} (hs : y.SamePhase y') (h : y.Clean) : y'.Clean :=
  ⟨hs.argument.trans h.argument, hs.discarded.trans h.discarded, hs.retracted.trans h.retracted⟩

theorem Future.Running.keep {y y' : Future V} (hs : y.SamePhase y') (h : y.Running) : y'.Running :=
  ⟨hs.discarded.trans h.discarded, hs.retracted.trans h.retracted⟩

theorem Future.heldArgument_keep {y y' : Future V} (hs : y.SamePhase y') : y'.heldArgument = y.heldArgument := by
  rw [Future.heldArgument, hs.argument, hs.retracted, Future.heldArgument]

theorem Section.Phase.keep (h : m.Phase st)
    (hsame : ∀ f, 0 < entries m.accounts (.life f) → st.futures f ≠ none ∧ SamePhase st st' f) : m.Phase st' := by
  have life : ∀ {g : F} {l : List (Account V F S)}, m.accounts = .life g :: l ∨ m.accounts = .hidden g :: .life g :: l →
      st.futures g ≠ none ∧ SamePhase st st' g := by
    intro g l hl
    refine hsame g ?_
    have hnonneg := entries_nonneg l (.life g)
    rcases hl with hl | hl
    · rw [hl, entries_cons, entry_self]
      omega
    rw [hl, entries_cons, entries_cons, entry_self]
    have := entry_nonneg (.hidden g) (.life g : Account V F S)
    omega
  cases m <;> try exact trivial
  case reserve | consumeFailed => exact (life (.inr rfl)).2.transfer (life (.inr rfl)).1 (fun _ _ hs hy => hy.keep hs) h
  case spawnTask | rollbackClaim =>
    exact (life (.inr rfl)).2.transfer (life (.inr rfl)).1 (fun _ _ hs hy => ⟨hs.argument.trans hy.1, hy.2.keep hs⟩) h
  case rollbackSpawn =>
    exact (life (.inr rfl)).2.transfer (life (.inr rfl)).1
      (fun _ _ hs hy => ⟨hs.discarded.trans hy.1, (Future.heldArgument_keep hs).trans hy.2⟩) h
  case finishSpawn failed =>
    cases failed with
    | false => exact trivial
    | true => exact (life (.inr rfl)).2.transfer (life (.inr rfl)).1 (fun _ _ hs hy => hy.keep hs) h
  case entryReturned | prepareRetire =>
    exact (life (.inl rfl)).2.transfer (life (.inl rfl)).1 (fun _ _ hs hy => hy.keep hs) h
  case releaseInputs =>
    exact (life (.inl rfl)).2.transfer (life (.inl rfl)).1 (fun _ _ hs hy => ⟨hs.retracted.trans hy.1, hs.kind hy.2⟩) h
  case publish =>
    exact (life (.inl rfl)).2.transfer (life (.inl rfl)).1 (fun _ _ hs hy => ⟨hy.1.keep hs, hs.kind hy.2⟩) h

theorem TaskPhase.keep {c : Option (F × S)} (h : TaskPhase st c)
    (hsame : ∀ f, 0 < entries (taskAccounts (V := V) c) (.life f) → st.futures f ≠ none ∧ SamePhase st st' f) :
    TaskPhase st' c := by
  rintro f s rfl
  have hlife : 0 < entries (taskAccounts (V := V) (some (f, s))) (.life f) := by
    have hnonneg := entries_nonneg (taskRefs (V := V) s f) (.life f)
    show 0 < entry (.life f) (.life f) + entries (taskRefs s f) (.life f)
    rw [entry_self]
    omega
  exact (hsame f hlife).2.transfer (hsame f hlife).1 (fun _ _ hs hy => hy.keep hs) (h f s rfl)

end Phases

/-! ## Handles -/

section Handles

variable {st st' : Store V F S T} {r : Ref V F S} {g : Nat}

variable (h : Ledger st)

include h

theorem Ledger.congr (hh : ∀ r, st'.handle r = st.handle r)
    (ha : ∀ r, st'.announced r = true → st.announced r = true) (hc : st'.consumed = st.consumed) : Ledger st' := by
  refine ⟨hc ▸ h.once, fun c hmem => ?_, fun r n live hr har g hg hle => ?_, hc ▸ h.numbered⟩
  · rw [hh]
    exact h.past c (hc ▸ hmem)
  · rw [hc]
    exact h.issued r n live (hh r ▸ hr) (ha r har) g hg hle

theorem Ledger.consume {t : T} {n : Nat} (hg : 1 ≤ g) (hlive : st.handle r = some (g, true))
    (hr : st'.handle r = some (g, false)) (hother : ∀ q, q ≠ r → st'.handle q = st.handle q)
    (ha : ∀ r, st'.announced r = true → st.announced r = true) (hc : st'.consumed = st.consumed ++ [⟨r, g, t, n⟩]) :
    Ledger st' := by
  have hfresh : ∀ c ∈ st.consumed, (c.object, c.generation) ≠ (r, g) := by
    intro c hmem heq
    obtain ⟨g', live, hg', hlt⟩ := h.past c hmem
    rw [(Prod.mk.inj heq).1, hlive] at hg'
    cases hg'
    have hgen := (Prod.mk.inj heq).2
    rcases hlt with hlt | ⟨-, hfalse⟩
    · omega
    · cases hfalse
  refine ⟨?_, fun c hmem => ?_, fun q n live hq haq g' hg hle => ?_, fun c hmem => ?_⟩
  · rw [hc, List.map_append, List.nodup_append]
    refine ⟨h.once, List.nodup_singleton _, fun a hmem b hb => ?_⟩
    obtain ⟨c, hcmem, rfl⟩ := List.mem_map.mp hmem
    cases List.mem_singleton.mp hb
    exact hfresh c hcmem
  · rw [hc] at hmem
    rcases List.mem_append.mp hmem with hmem | hmem
    · obtain ⟨g', live, hg', hlt⟩ := h.past c hmem
      rcases eq_or_ne c.object r with heq | hne
      · rw [heq, hlive] at hg'
        cases hg'
        rw [heq, hr]
        refine ⟨g, false, rfl, ?_⟩
        rcases hlt with hlt | ⟨-, hfalse⟩
        · exact .inl hlt
        · cases hfalse
      · rw [hother _ hne]
        exact ⟨g', live, hg', hlt⟩
    · cases List.mem_singleton.mp hmem
      exact ⟨g, false, hr, .inr ⟨rfl, rfl⟩⟩
  · rw [hc]
    rcases eq_or_ne q r with rfl | hne
    · rw [hr] at hq
      cases hq
      rcases h.issued q g true hlive (ha q haq) g' hg hle with ⟨rfl, -⟩ | ⟨c, hmem, hobj, hgen⟩
      · exact .inr ⟨_, List.mem_append_right _ (List.mem_singleton_self _), rfl, rfl⟩
      · exact .inr ⟨c, List.mem_append_left _ hmem, hobj, hgen⟩
    · rw [hother q hne] at hq
      rcases h.issued q n live hq (ha q haq) g' hg hle with hcur | ⟨c, hmem, hobj, hgen⟩
      · exact .inl hcur
      · exact .inr ⟨c, List.mem_append_left _ hmem, hobj, hgen⟩
  · rw [hc] at hmem
    rcases List.mem_append.mp hmem with hmem | hmem
    · exact h.numbered c hmem
    · cases List.mem_singleton.mp hmem
      exact hg

theorem Ledger.rehandle (hother : ∀ q, q ≠ r → st'.handle q = st.handle q)
    (ha : ∀ q, q ≠ r → st'.announced q = true → st.announced q = true) (hc : st'.consumed = st.consumed)
    (hpast : ∀ n g live, st.handle r = some (g, live) → n < g ∨ n = g ∧ live = false →
      ∃ g live, st'.handle r = some (g, live) ∧ (n < g ∨ n = g ∧ live = false))
    (hissued : ∀ n live, st'.handle r = some (n, live) → st'.announced r = true → ∀ g, 1 ≤ g → g ≤ n →
      (g = n ∧ live = true) ∨ ∃ c ∈ st.consumed, c.object = r ∧ c.generation = g) : Ledger st' := by
  refine ⟨hc ▸ h.once, fun c hmem => ?_, fun q n live hq haq g hg hle => ?_, hc ▸ h.numbered⟩
  · obtain ⟨g, live, hg, hlt⟩ := h.past c (hc ▸ hmem)
    rcases eq_or_ne c.object r with heq | hne
    · rw [heq] at hg ⊢
      exact hpast _ g live hg hlt
    · rw [hother _ hne]
      exact ⟨g, live, hg, hlt⟩
  · rw [hc]
    rcases eq_or_ne q r with rfl | hne
    · exact hissued n live hq haq g hg hle
    · exact h.issued q n live (hother q hne ▸ hq) (ha q hne haq) g hg hle

theorem Ledger.publish (hdead : st.handle r = some (g, false)) (hr : st'.handle r = some (g + 1, true))
    (hother : ∀ q, q ≠ r → st'.handle q = st.handle q) (ha : ∀ r, st'.announced r = true → st.announced r = true)
    (hc : st'.consumed = st.consumed) : Ledger st' := by
  refine h.rehandle hother (fun q _ => ha q) hc (fun n g' live hg' hlt => ?_) (fun n live hq haq g' hg hle => ?_)
  · rw [hdead] at hg'
    cases hg'
    exact ⟨g + 1, true, hr, .inl (by omega)⟩
  · rw [hr] at hq
    cases hq
    rcases Nat.lt_or_ge g g' with hlt | hle'
    · exact .inl ⟨by omega, rfl⟩
    rcases h.issued r g false hdead (ha r haq) g' hg hle' with ⟨-, hfalse⟩ | hold
    · cases hfalse
    · exact .inr hold

theorem Ledger.fresh (hnone : st.handle r = none) (hr : st'.handle r = some (1, true))
    (hother : ∀ q, q ≠ r → st'.handle q = st.handle q)
    (ha : ∀ q, q ≠ r → st'.announced q = true → st.announced q = true) (hc : st'.consumed = st.consumed) : Ledger st' := by
  refine h.rehandle hother ha hc (fun n g live hg => ?_) (fun n live hq _ g hg hle => ?_)
  · rw [hnone] at hg
    cases hg
  · rw [hr] at hq
    cases hq
    exact .inl ⟨by omega, rfl⟩

theorem Ledger.announce (hr : st.handle r = some (1, true)) (hh : ∀ r, st'.handle r = st.handle r)
    (ha : ∀ q, q ≠ r → st'.announced q = true → st.announced q = true) (hc : st'.consumed = st.consumed) : Ledger st' := by
  refine h.rehandle (fun q _ => hh q) ha hc (fun n g live hg hlt => ⟨g, live, (hh r).trans hg, hlt⟩)
    (fun n live hq _ g hg hle => ?_)
  rw [hh, hr] at hq
  cases hq
  exact .inl ⟨by omega, rfl⟩

theorem Ledger.withdraw (hlive : st.handle r = some (g, true)) (hr : st'.handle r = some (g, false))
    (hother : ∀ q, q ≠ r → st'.handle q = st.handle q) (hhidden : st'.announced r = false)
    (ha : ∀ r, st'.announced r = true → st.announced r = true) (hc : st'.consumed = st.consumed) : Ledger st' := by
  refine h.rehandle hother (fun q _ => ha q) hc (fun n g' live hg' hlt => ?_) (fun n live _ haq => ?_)
  · rw [hlive] at hg'
    cases hg'
    rcases hlt with hlt | ⟨-, hfalse⟩
    · exact ⟨g, false, hr, .inl hlt⟩
    · cases hfalse
  · rw [hhidden] at haq
    cases haq

end Handles

/-! ## The obligations of a section -/

/-- A section brings only its own future forward. -/
structure Advances (st : Store V F S T) (m : Section V F S) (e : Effect V F S T) : Prop where
  frame : ∀ f, entries m.accounts (.life f) = 0 → SamePhase st e.store f
  push : ∀ m' ∈ e.push, m'.Phase e.store
  child : TaskPhase e.store (e.child.map Prod.snd)
  guarded : Guarded e.push

/-- What a section does to the history of its call. -/
structure Logs (st : Store V F S T) (t : T) (th : Thread V F S) (m : Section V F S) (e : Effect V F S T) : Prop where
  push : ∀ m' ∈ e.push, m'.mayConsume = true → m.mayConsume = true ∧ e.push = [m']
  quiet : m.quiet = true → e.error = th.error ∧ ∀ m' ∈ e.push, m'.quiet = true
  log : e.store.consumed = st.consumed ∨
    (m.mayConsume = true ∧ e.error = none ∧ (∀ m' ∈ e.push, m'.quiet = true) ∧
      ∃ r g, e.store.consumed = st.consumed ++ [⟨r, g, t, th.calls⟩])

structure Fits (st : Store V F S T) (t : T) (th : Thread V F S) (m : Section V F S) (e : Effect V F S T) : Prop where
  settles : Settles st m e
  records : e.store.Ok
  advances : Advances st m e
  ledger : Ledger e.store
  logs : Logs st t th m e

section Resume

variable {s s' : State V F S T} {t u : T} {m : Section V F S} {rest : List (Section V F S)} {e : Effect V F S T} {f : F}

theorem Balanced.life_le (f : F) (st : Store V F S T) : st.total (.life f) ≤ 1 ∧
    (0 < st.total (.life f) → st.futures f ≠ none) := by
  rw [total_future rfl]
  cases hy : st.futures f with
  | none => simp [Future.books]
  | some y =>
    have := flag_le_one y.unfinished
    simp [Future.books, Object.books, entry, slotBooks_other, this]

theorem entries_le_todoBooks {todo : List (Section V F S)} {m' : Section V F S} (hm : m' ∈ todo) (k : Account V F S) :
    entries m'.accounts k ≤ todoBooks todo k := by
  induction todo with
  | nil => cases hm
  | cons m todo ih =>
    rw [todoBooks_cons]
    rcases List.mem_cons.mp hm with rfl | hm
    · have := todoBooks_nonneg todo k
      omega
    have := ih hm
    have := entries_nonneg m.accounts k
    omega

theorem Balanced.flag_iff (h : Balanced s) {k : Account V F S} {b : Bool} (htotal : s.store.total k = flag b)
    (htask : ∀ c, k ∉ taskAccounts c) : b = true ↔ ∃ t, ∃ m ∈ (s.threads t).todo, k ∈ m.accounts := by
  have hno (t : T) : entries (taskAccounts (s.threads t).completion) k = 0 := entries_eq_zero (htask _)
  constructor
  · intro hb
    by_contra hnone
    push Not at hnone
    have hzero : tally (fun _ th => Thread.books th k) s.threads = 0 := by
      refine tally_eq_zero fun t => ?_
      have hflat : k ∉ (s.threads t).todo.flatMap Section.accounts := by
        intro hmem
        obtain ⟨m, hm, hk⟩ := List.mem_flatMap.mp hmem
        exact hnone t m hm hk
      rw [Thread.books, todoBooks, entries_eq_zero hflat, hno]
      rfl
    rw [← h.law, htotal, hb] at hzero
    cases hzero
  · rintro ⟨t, m, hm, hk⟩
    have hpos := entries_pos.mpr hk
    have hle := entries_le_todoBooks hm k
    have hcovers := h.covers t k
    rw [htotal, Thread.books, hno] at hcovers
    by_contra hnot
    rw [Bool.not_eq_true] at hnot
    rw [hnot, flag_false] at hcovers
    omega

theorem Balanced.alone (h : Balanced s) (htodo : (s.threads t).todo = m :: rest) {l : List (Account V F S)}
    (hl : (∃ m' ∈ rest, l = m'.accounts) ∨ l = taskAccounts (s.threads t).completion ∨
      ∃ u, u ≠ t ∧ ((∃ m' ∈ (s.threads u).todo, l = m'.accounts) ∨ l = taskAccounts (s.threads u).completion))
    (hlife : 0 < entries l (.life f)) : s.store.futures f ≠ none ∧ entries m.accounts (.life f) = 0 := by
  obtain ⟨hle, hsome⟩ := Balanced.life_le f s.store
  have hm := entries_nonneg m.accounts (.life f)
  have htop := books_top htodo (.life f)
  have hrest := todoBooks_nonneg rest (.life f)
  have htask := entries_nonneg (taskAccounts (s.threads t).completion) (.life f : Account V F S)
  have hown := h.covers t (.life f)
  rcases hl with ⟨m', hmem, rfl⟩ | rfl | ⟨u, hut, hl⟩
  · have hmem' := entries_le_todoBooks hmem (.life f)
    exact ⟨hsome (by omega), by omega⟩
  · exact ⟨hsome (by omega), by omega⟩
  have htwo := h.covers_two hut.symm (.life f)
  have hu : entries l (.life f) ≤ (s.threads u).books (.life f) := by
    have htodoU := todoBooks_nonneg (s.threads u).todo (.life f)
    have htaskU := entries_nonneg (taskAccounts (s.threads u).completion) (.life f : Account V F S)
    unfold Thread.books
    rcases hl with ⟨m', hmem, rfl⟩ | rfl
    · have := entries_le_todoBooks hmem (.life f)
      omega
    · omega
  exact ⟨hsome (by omega), by omega⟩

theorem resume_threads (hs : s.resume t rest e = some s') (u : T) :
    (u = t ∧ s'.threads u = (s.threads t).proceed (e.push ++ rest) e.error) ∨
      (∃ f sc, e.child = some (u, f, sc) ∧ (s.threads u).unused = true ∧ s'.threads u = (s.threads u).launch f sc) ∨
      (u ≠ t ∧ s'.threads u = s.threads u) := by
  unfold State.resume at hs
  cases hchild : e.child with
  | none =>
    rw [hchild] at hs
    cases hs
    rcases eq_or_ne u t with rfl | hne
    · exact .inl ⟨rfl, update_self ..⟩
    · exact .inr (.inr ⟨hne, update_of_ne hne ..⟩)
  | some c =>
    obtain ⟨child, f, sc⟩ := c
    rw [hchild] at hs
    simp only at hs
    split at hs
    · rename_i hunused
      cases hs
      rcases eq_or_ne u child with rfl | hchild'
      · exact .inr (.inl ⟨f, sc, rfl, hunused, update_self ..⟩)
      rcases eq_or_ne u t with rfl | hne
      · refine .inl ⟨rfl, ?_⟩
        exact (update_of_ne hchild' ..).trans (update_self ..)
      · refine .inr (.inr ⟨hne, ?_⟩)
        exact (update_of_ne hchild' ..).trans (update_of_ne hne ..)
    · cases hs

theorem resume_store (hs : s.resume t rest e = some s') : s'.store = e.store ∧ s'.aborted = s.aborted := by
  unfold State.resume at hs
  cases hchild : e.child with
  | none =>
    rw [hchild] at hs
    cases hs
    exact ⟨rfl, rfl⟩
  | some c =>
    rw [hchild] at hs
    simp only at hs
    split at hs <;> cases hs
    exact ⟨rfl, rfl⟩

theorem Section.not_quiet (hm : m.mayConsume = true) : m.quiet = false := by
  cases m <;> first | rfl | cases hm

theorem Fits.phased (h : Inv s) (htodo : (s.threads t).todo = m :: rest) (hfits : Fits s.store t (s.threads t) m e)
    (hs : s.resume t rest e = some s') (u : T) : (s'.threads u).Phased s'.store := by
  obtain ⟨hstore, -⟩ := resume_store hs
  have hframe := hfits.advances.frame
  rw [hstore]
  rcases resume_threads hs u with ⟨rfl, hu⟩ | ⟨f, sc, hchild, hunused, hu⟩ | ⟨hne, hu⟩
  · rw [hu]
    refine ⟨fun m' hm' => ?_, ?_, ?_⟩
    · rw [proceed_todo] at hm'
      rcases List.mem_append.mp hm' with hm' | hm'
      · exact hfits.advances.push m' hm'
      have hphase := (h.phased u).todo m' (htodo ▸ List.mem_cons_of_mem m hm')
      refine hphase.keep fun f hlife => ?_
      obtain ⟨hsome, hzero⟩ := h.balanced.alone htodo (.inl ⟨m', hm', rfl⟩) hlife
      exact ⟨hsome, hframe f hzero⟩
    · rw [proceed_completion]
      refine (h.phased u).task.keep fun f hlife => ?_
      obtain ⟨hsome, hzero⟩ := h.balanced.alone htodo (.inr (.inl rfl)) hlife
      exact ⟨hsome, hframe f hzero⟩
    · have hguarded := (h.phased u).guarded
      rw [htodo] at hguarded
      rw [proceed_todo]
      exact hfits.advances.guarded.append hguarded.2
  · obtain ⟨-, hnil, -⟩ := unused_iff.mp hunused
    rw [hu]
    refine ⟨fun m' hm' => ?_, ?_, (h.phased u).guarded⟩
    · have hnone : m' ∈ ([] : List (Section V F S)) := hnil ▸ hm'
      cases hnone
    · have hphase := hfits.advances.child
      rw [hchild] at hphase
      exact hphase
  · rw [hu]
    refine ⟨fun m' hm' => ?_, ?_, (h.phased u).guarded⟩
    · refine ((h.phased u).todo m' hm').keep fun f hlife => ?_
      obtain ⟨hsome, hzero⟩ := h.balanced.alone htodo (.inr (.inr ⟨u, hne, .inl ⟨m', hm', rfl⟩⟩)) hlife
      exact ⟨hsome, hframe f hzero⟩
    · refine (h.phased u).task.keep fun f hlife => ?_
      obtain ⟨hsome, hzero⟩ := h.balanced.alone htodo (.inr (.inr ⟨u, hne, .inr rfl⟩)) hlife
      exact ⟨hsome, hframe f hzero⟩

theorem Fits.kept_self (h : Inv s) (htodo : (s.threads t).todo = m :: rest) (hfits : Fits s.store t (s.threads t) m e) :
    ((s.threads t).proceed (e.push ++ rest) e.error).Kept e.store.consumed t := by
  have hkept := h.kept t
  have hmem : m ∈ (s.threads t).todo := htodo ▸ List.mem_cons_self
  have hrest : ∀ m' ∈ rest, m' ∈ (s.threads t).todo := fun m' hm' => htodo ▸ List.mem_cons_of_mem m hm'
  have hsingle : m.mayConsume = true → rest = [] ∧ (s.threads t).call ≠ none := by
    intro hmay
    obtain ⟨halone, hcall⟩ := hkept.alone m hmem hmay
    rw [htodo] at halone
    exact ⟨(List.cons.inj halone).2, hcall⟩
  have hold : ∀ c ∈ s.store.consumed, c.thread = t → c.call ≤ (s.threads t).calls ∧ (c.call = (s.threads t).calls →
      ((s.threads t).proceed (e.push ++ rest) e.error).outcome = none ∧
        ((s.threads t).call ≠ none → ∀ m' ∈ e.push ++ rest, m'.quiet = true)) := by
    intro c hc hct
    obtain ⟨hle, hlast⟩ := hkept.past c hc hct
    refine ⟨hle, fun heq => ?_⟩
    obtain ⟨houtcome, hquiet⟩ := hlast heq
    rw [proceed_outcome]
    cases hcall : (s.threads t).call with
    | none => exact ⟨houtcome, fun hne => absurd rfl hne⟩
    | some call =>
      have hquiet := hquiet (by rw [hcall]; exact nofun)
      obtain ⟨herror, hpush⟩ := hfits.logs.quiet (hquiet m hmem)
      simp only [Thread.outcome, hcall] at houtcome
      refine ⟨herror.trans houtcome, fun _ m' hm' => ?_⟩
      rcases List.mem_append.mp hm' with hm' | hm'
      · exact hpush m' hm'
      · exact hquiet m' (hrest m' hm')
  refine ⟨fun c hc hct => ?_, fun m' hm' hmay => ?_, proceed_idle⟩
  · rw [proceed_calls, proceed_todo]
    rcases hfits.logs.log with hsame | ⟨hmay, herror, hpush, r, g, hnew⟩
    · obtain ⟨hle, hlast⟩ := hold c (hsame ▸ hc) hct
      exact ⟨hle, fun heq => ⟨(hlast heq).1, fun hcall => (hlast heq).2 (proceed_call hcall)⟩⟩
    rw [hnew] at hc
    rcases List.mem_append.mp hc with hc | hc
    · obtain ⟨hle, hlast⟩ := hold c hc hct
      exact ⟨hle, fun heq => ⟨(hlast heq).1, fun hcall => (hlast heq).2 (proceed_call hcall)⟩⟩
    cases List.mem_singleton.mp hc
    obtain ⟨hnil, hcall⟩ := hsingle hmay
    refine ⟨Nat.le_refl _, fun _ => ⟨?_, fun _ => ?_⟩⟩
    · rw [proceed_outcome, if_neg hcall]
      exact herror
    · rw [hnil, List.append_nil]
      exact hpush
  · rw [proceed_todo] at hm' ⊢
    rcases List.mem_append.mp hm' with hm' | hm'
    · obtain ⟨hmay', hpush⟩ := hfits.logs.push m' hm' hmay
      obtain ⟨hnil, hcall⟩ := hsingle hmay'
      rw [hpush, hnil, List.append_nil, proceed_cons_call]
      exact ⟨rfl, hcall⟩
    · have halone := (hkept.alone m' (hrest m' hm') hmay).1
      rw [htodo] at halone
      rw [(List.cons.inj halone).2] at hm'
      cases hm'

theorem Fits.kept (h : Inv s) (htodo : (s.threads t).todo = m :: rest) (hfits : Fits s.store t (s.threads t) m e)
    (hs : s.resume t rest e = some s') (u : T) : (s'.threads u).Kept s'.store.consumed u := by
  obtain ⟨hstore, -⟩ := resume_store hs
  rw [hstore]
  have other (hne : u ≠ t) {c : Consumption V F S T} (hc : c ∈ e.store.consumed) (hcu : c.thread = u) :
      c ∈ s.store.consumed := by
    rcases hfits.logs.log with hsame | ⟨-, -, -, r, g, hnew⟩
    · exact hsame ▸ hc
    rw [hnew] at hc
    rcases List.mem_append.mp hc with hc | hc
    · exact hc
    · cases List.mem_singleton.mp hc
      exact absurd hcu.symm hne
  rcases resume_threads hs u with ⟨rfl, hu⟩ | ⟨f, sc, hchild, hunused, hu⟩ | ⟨hne, hu⟩
  · rw [hu]
    exact hfits.kept_self h htodo
  · obtain ⟨-, hnil, -⟩ := unused_iff.mp hunused
    have hne : u ≠ t := by
      rintro rfl
      rw [hnil] at htodo
      cases htodo
    rw [hu]
    exact ⟨fun c hc hcu => (h.kept u).past c (other hne hc hcu) hcu, (h.kept u).alone, (h.kept u).idle⟩
  · rw [hu]
    exact ⟨fun c hc hcu => (h.kept u).past c (other hne hc hcu) hcu, (h.kept u).alone, (h.kept u).idle⟩

theorem Inv.resume (h : Inv s) (htodo : (s.threads t).todo = m :: rest) (hfits : Fits s.store t (s.threads t) m e)
    (hs : s.resume t rest e = some s') : Inv s' := by
  obtain ⟨hstore, haborted⟩ := resume_store hs
  exact {
    balanced := h.balanced.resume htodo hfits.settles hs
    records := hstore ▸ hfits.records
    phased := hfits.phased h htodo hs
    ledger := hstore ▸ hfits.ledger
    kept := hfits.kept h htodo hs
    sound := haborted.trans h.sound }

end Resume

end Llam.Structured
