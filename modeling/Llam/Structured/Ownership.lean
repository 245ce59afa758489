import Llam.Structured.System

/-!
# Ownership of values and futures

The contract of owned objects, in every state that any interleaving of calls, tasks and failures can reach
(`ownership`): the reference count of an object is the number of its holders, its dispose function has run if and only
if no holder is left, a handle is consumed at most once, and a call that fails has consumed nothing.
-/

namespace Llam.Structured

open Llam.Lib

variable {V F S T : Type} [DecidableEq V] [DecidableEq F] [DecidableEq S] [DecidableEq T]
  {s : State V F S T} {st : Store V F S T} {t : T} {m : Section V F S} {r : Ref V F S} {o : Object} {v : V}

/-! ## Holders -/

/-- A task has a reference to its scope and one to its future. -/
def taskHolds (sc : S) (f : F) (r : Ref V F S) : Nat := (if .scope sc = r then 1 else 0) + (if .future f = r then 1 else 0)

/-- The references that a pending section holds apart from its operations: those it will release, and those of the task
that it will start, has failed to start, or retires. -/
def Section.holds (r : Ref V F S) : Section V F S → Nat
  | .release q => if q = r then 1 else 0
  | .spawnTask sc f _ => taskHolds sc f r
  | .rollbackClaim sc f _ => taskHolds sc f r
  | .rollbackSpawn sc f => taskHolds sc f r
  | .entryReturned sc f => taskHolds sc f r
  | .prepareRetire sc f => taskHolds sc f r
  | .releaseInputs sc f => taskHolds sc f r
  | .publish sc f => taskHolds sc f r
  | _ => 0

/-- The operations that a pending section has open. -/
def Section.operations (r : Ref V F S) (m : Section V F S) : Nat := m.accounts.count (.ops r)

/-- The references of a thread: those of its pending sections and of the task it runs. -/
def Thread.holds (r : Ref V F S) (th : Thread V F S) : Nat :=
  (th.todo.map (Section.holds r)).sum +
    match th.completion with
    | none => 0
    | some (f, sc) => taskHolds sc f r

def Thread.operations (r : Ref V F S) (th : Thread V F S) : Nat := (th.todo.map (Section.operations r)).sum

/-- **The holders of an object**: its live handle, its open operations, the slots it is in, and the threads. -/
noncomputable def State.holders (s : State V F S T) (r : Ref V F S) (o : Object) : Int :=
  flag o.publicLive + tally (fun _ th => (th.operations r : Int)) s.threads + s.store.slots r +
    tally (fun _ th => (th.holds r : Int)) s.threads

theorem entries_count (l : List (Account V F S)) (k : Account V F S) : entries l k = l.count k := by
  induction l with
  | nil => rfl
  | cons key l ih =>
    rw [entries_cons, ih, List.count_cons, entry]
    by_cases hk : key = k
    · simp
      ring
    · simp [hk]

/-- The references of a section are its operations and what it holds. -/
theorem Section.refs_eq (m : Section V F S) (r : Ref V F S) :
    entries m.accounts (.refs r) = m.operations r + m.holds r := by
  rw [Section.operations, ← entries_count]
  cases m with
  | requestCheck u after | requestToken u after | requestDone u after => cases after <;> simp [Section.holds, entry]
  | finishSpawn u f failed => cases failed <;> simp [Section.holds, entry]
  | spawnTask u f argument =>
    cases argument <;> simp [Section.holds, taskHolds, entry] <;> ring
  | _ => simp [Section.holds, taskHolds, entry] <;> ring

theorem todoBooks_ops (todo : List (Section V F S)) (r : Ref V F S) :
    todoBooks todo (.ops r) = (todo.map (Section.operations r)).sum := by
  induction todo with
  | nil => rfl
  | cons m todo ih =>
    rw [todoBooks_cons, ih, entries_count, List.map_cons, List.sum_cons, Section.operations]
    rfl

theorem todoBooks_refs (todo : List (Section V F S)) (r : Ref V F S) : todoBooks todo (.refs r) =
    (todo.map (Section.operations r)).sum + (todo.map (Section.holds r)).sum := by
  induction todo with
  | nil => rfl
  | cons m todo ih =>
    rw [todoBooks_cons, ih, m.refs_eq, List.map_cons, List.sum_cons, List.map_cons, List.sum_cons]
    push_cast
    ring

theorem Thread.books_ops (th : Thread V F S) (r : Ref V F S) : th.books (.ops r) = th.operations r := by
  have htask : entries (taskAccounts th.completion) (.ops r : Account V F S) = 0 := by
    cases th.completion <;> exact entries_eq_zero (by simp [taskAccounts])
  rw [Thread.books, todoBooks_ops, htask, Thread.operations]
  omega

theorem Thread.books_refs (th : Thread V F S) (r : Ref V F S) : th.books (.refs r) = th.operations r + th.holds r := by
  have htask : entries (taskAccounts th.completion) (.refs r : Account V F S) =
      ((match th.completion with
        | none => 0
        | some (f, sc) => taskHolds sc f r : Nat) : Int) := by
    cases th.completion with
    | none => rfl
    | some c => simp [taskAccounts, taskHolds, entry]
  rw [Thread.books, todoBooks_refs, htask, Thread.operations, Thread.holds]
  push_cast
  ring

/-- The open operations of an object are those of the threads. -/
theorem Inv.operations (h : Inv s) (ho : s.store.object r = some o) :
    (o.publicOps : Int) = tally (fun _ th => (Thread.operations r th : Int)) s.threads := by
  have hlaw := h.balanced.law (.ops r)
  rw [Store.total_ops, ho] at hlaw
  exact hlaw.trans (tally_congr fun t => Thread.books_ops _ r)

/-- **The reference count of an object is the number of its holders.** -/
theorem Inv.holders (h : Inv s) (ho : s.store.object r = some o) : (o.refs : Int) = s.holders r o := by
  have hlaw := h.balanced.law (.refs r)
  have hsplit : tally (fun _ th => Thread.books th (.refs r)) s.threads =
      tally (fun _ th => (Thread.operations r th : Int)) s.threads + tally (fun _ th => (Thread.holds r th : Int)) s.threads := by
    have hblank : ∀ (_ : T) (th : Thread V F S), th.Blank → (th.operations r : Int) = 0 := by
      intro _ th hb
      rw [← Thread.books_ops, hb.books]
    have hsub := tally_sub (w := fun _ th => Thread.books th (.refs r)) (v := fun _ th => (Thread.operations r th : Int))
      h.balanced.busy (fun _ _ hb => hb.books _) hblank
    have hholds : tally (fun _ th => Thread.books th (.refs r) - (Thread.operations r th : Int)) s.threads =
        tally (fun _ th => (Thread.holds r th : Int)) s.threads :=
      tally_congr fun t => by rw [Thread.books_refs]; omega
    omega
  rw [Store.total_refs, ho, Option.elim_some, hsplit] at hlaw
  rw [State.holders]
  omega

/-! ## Handles -/

/-- A value is claimed exactly while a spawn that was given it is under way. -/
theorem Inv.claimed_iff (h : Inv s) (ho : s.store.object (.value v) = some o) :
    o.claimed = true ↔ ∃ t, ∃ m ∈ (s.threads t).todo, .claims v ∈ m.accounts := by
  obtain ⟨x, hx, rfl⟩ := Store.object_value.mp ho
  have htotal : s.store.total (.claims v) = flag x.object.claimed := by
    rw [Store.total_value rfl (by simp), hx]
    simp [Value.books, Object.books, entry]
  have htask (c : Option (F × S)) : .claims v ∉ (taskAccounts c : List (Account V F S)) := by
    cases c <;> simp [taskAccounts]
  exact h.balanced.flag_iff htotal htask

theorem Ledger.consumed_resolve {c : Consumption V F S T} (h : Ledger st) (hc : c ∈ st.consumed) :
    st.resolve c.object c.generation = .error .EINVAL := by
  obtain ⟨g, live, hhandle, hlt⟩ := h.past c hc
  obtain ⟨o, ho, hpair⟩ := Option.map_eq_some_iff.mp hhandle
  cases hpair
  rw [Store.resolve, ho]
  have hbad : (!o.publicLive || o.generation != c.generation || !st.announced c.object) = true := by
    rcases hlt with hlt | ⟨-, hdead⟩
    · have hne : (o.generation != c.generation) = true := by
        rw [bne_iff_ne]
        omega
      simp [hne]
    · simp [hdead]
  simp only [hbad, if_true]

/-- A handle that somebody got and nobody consumed resolves, unless a spawn has claimed it. -/
theorem Inv.usable (h : Inv s) {g : Nat} (ho : s.store.object r = some o) (hshown : s.store.announced r = true) (hg : 1 ≤ g)
    (hle : g ≤ o.generation) (hfresh : ∀ c ∈ s.store.consumed, ¬ (c.object = r ∧ c.generation = g)) :
    s.store.resolve r g = .ok o ∨ ∃ v, r = .value v ∧ ∃ t, ∃ m ∈ (s.threads t).todo, .claims v ∈ m.accounts := by
  have hhandle : s.store.handle r = some (o.generation, o.publicLive) := by rw [Store.handle, ho]; rfl
  rcases h.ledger.issued r _ _ hhandle hshown g hg hle with ⟨rfl, hlive⟩ | ⟨c, hc, hobj, hgen⟩
  · cases hclaimed : o.claimed with
    | false =>
      simp [Store.resolve, ho, hlive, hshown, hclaimed]
    | true =>
      cases r with
      | value v => exact .inr ⟨v, rfl, (h.claimed_iff ho).mp hclaimed⟩
      | future f =>
        obtain ⟨y, hy, rfl⟩ := Store.object_future.mp ho
        rw [(h.records.futures f y hy).claimed] at hclaimed
        cases hclaimed
      | scope sc =>
        obtain ⟨x, hx, rfl⟩ := Store.object_scope.mp ho
        rw [(h.records.scopes sc x hx).claimed] at hclaimed
        cases hclaimed
  · exact absurd ⟨hobj, hgen⟩ (hfresh c hc)

/-! ## The contract -/

/-- The contract of owned objects. -/
structure Owned (s : State V F S T) : Prop where
  /-- nothing that the code takes for impossible happens -/
  sound : s.aborted = false
  /-- the references of an object are its holders, its open operations those of the threads -/
  refs : ∀ r o, s.store.object r = some o → (o.refs : Int) = s.holders r o
  operations : ∀ r o, s.store.object r = some o →
    (o.publicOps : Int) = tally (fun _ th => (Thread.operations r th : Int)) s.threads
  /-- the dispose function runs at most once, and it has run if and only if no holder is left -/
  disposed : ∀ r o, s.store.object r = some o → o.disposed ≤ 1 ∧ (o.disposed = 1 ↔ s.holders r o = 0)
  /-- a value is claimed while a spawn that was given it is under way -/
  claimed : ∀ v o, s.store.object (.value v) = some o →
    (o.claimed = true ↔ ∃ t, ∃ m ∈ (s.threads t).todo, .claims v ∈ m.accounts)
  /-- a handle is consumed at most once, and the outcome of a future is taken at most once -/
  once : (s.store.consumed.map fun c => (c.object, c.generation)).Nodup
  taken : ∀ f, s.store.consumed.countP (fun c => c.object = .future f) ≤ 1
  gone : ∀ c ∈ s.store.consumed, s.store.resolve c.object c.generation = .error .EINVAL
  /-- a handle that somebody got and nobody consumed can be used, unless a spawn has claimed it -/
  usable : ∀ r o g, s.store.object r = some o → s.store.announced r = true → 1 ≤ g → g ≤ o.generation →
    (∀ c ∈ s.store.consumed, ¬ (c.object = r ∧ c.generation = g)) →
      s.store.resolve r g = .ok o ∨ ∃ v, r = .value v ∧ ∃ t, ∃ m ∈ (s.threads t).todo, .claims v ∈ m.accounts
  /-- a call that has failed has consumed no handle -/
  failed : ∀ t c e, (s.threads t).call = none → (s.threads t).last = some (c, some e) →
    ∀ d ∈ s.store.consumed, d.thread = t → d.call ≠ (s.threads t).calls

/-- There is one handle of a future, so it is consumed at most once. -/
theorem Inv.taken (h : Inv s) (f : F) : s.store.consumed.countP (fun c => c.object = .future f) ≤ 1 := by
  have hone : ∀ c ∈ s.store.consumed, c.object = .future f → (c.object, c.generation) = (.future f, 1) := by
    intro c hc hf
    obtain ⟨g, live, hhandle, hlt⟩ := h.ledger.past c hc
    have hnumber := h.ledger.numbered c hc
    rw [hf] at hhandle
    obtain ⟨o, ho, hpair⟩ := Option.map_eq_some_iff.mp hhandle
    obtain ⟨y, hy, rfl⟩ := Store.object_future.mp ho
    have hgeneration := (h.records.futures f y hy).published
    cases hpair
    rw [hf, Prod.mk.injEq]
    exact ⟨rfl, by omega⟩
  have hle : s.store.consumed.countP (fun c => c.object = .future f) ≤
      (s.store.consumed.map fun c => (c.object, c.generation)).count (.future f, 1) := by
    rw [List.count, List.countP_map]
    refine List.countP_mono_left fun c hc hf => ?_
    exact beq_iff_eq.mpr (hone c hc (by simpa using hf))
  exact Nat.le_trans hle (List.nodup_iff_count_le_one.mp h.ledger.once _)

/-- **Ownership.** -/
theorem ownership {alive : T → Bool} (h : Reachable step (State.init alive) s) : Owned s := by
  have hinv := reachable_inv h
  refine {
    sound := hinv.sound
    refs := fun r o ho => hinv.holders ho
    operations := fun r o ho => hinv.operations ho
    disposed := fun r o ho => ?_
    claimed := fun v o ho => hinv.claimed_iff ho
    once := hinv.ledger.once
    taken := hinv.taken
    gone := fun c hc => hinv.ledger.consumed_resolve hc
    usable := fun r o g ho hshown hg hle hfresh => hinv.usable ho hshown hg hle hfresh
    failed := fun t c e hcall hlast d hd hdt heq => ?_ }
  · have hdisposal := hinv.records.disposal ho
    rw [← hinv.holders ho]
    rw [Object.Disposal] at hdisposal
    split at hdisposal <;> omega
  · have houtcome := ((hinv.kept t).past d hd hdt).2 heq
    simp [Thread.outcome, hcall, hlast] at houtcome

/-- A spawn whose task cannot be created leaves the value that it was given to its caller. -/
theorem ownership_failed_spawn : ∃ (s : State Unit Unit Unit Bool) (o : Object),
    Reachable step (State.init (· = false)) s ∧ s.store.resolve (.value ()) 1 = .ok o ∧ o.refs = 1 ∧
      (s.threads false).last = some (.scopeSpawn ((), 1) (some ((), 1)) ⟨.unit, .unit⟩, some .ENOMEM) ∧ Owned s := by
  let env : Env Unit Bool := ⟨none, some (), none, false, none⟩
  obtain ⟨s, hs, hfacts⟩ := exists_reachable step (State.init (· = false) : State Unit Unit Unit Bool)
    (fun s => ((s.store.resolve (.value ()) 1).toOption.map Object.refs, (s.threads false).last))
    (b := (some 1, some (.scopeSpawn ((), 1) (some ((), 1)) ⟨.unit, .unit⟩, some .ENOMEM)))
    ([.call false (.valueCreate () .unit) env, .call false (.scopeCreate ()) env,
      .call false (.scopeSpawn ((), 1) (some ((), 1)) ⟨.unit, .unit⟩) env] ++ List.replicate 3 (.run false env) ++
      [.run false { env with fails := some .ENOMEM }] ++ List.replicate 8 (.run false env)) (by decide)
  obtain ⟨hvalue, hlast⟩ := Prod.mk.inj hfacts
  cases hresolve : s.store.resolve (.value ()) 1 with
  | error e =>
    rw [hresolve] at hvalue
    cases hvalue
  | ok o =>
    rw [hresolve] at hvalue
    exact ⟨s, o, hs, hresolve, Option.some.inj hvalue, hlast, ownership hs⟩

end Llam.Structured
