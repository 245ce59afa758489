import Llam.Structured.Books

/-!
# The invariant of the structured-task layer

Next to the balance of the books: what holds of every record (`Value.Ok`, `Future.Ok`, `Scope.Ok`), what the one section
that works on the completion of a future may rely on (`Section.Phase`), and what the history of consumed handles says
(`Ledger`). `Balanced.resume` is the balance after a section.
-/

namespace Llam.Structured

open Llam.Lib Function Thread

variable {V F S T : Type} [DecidableEq V] [DecidableEq F] [DecidableEq S] [DecidableEq T]

/-! ## Records -/

/-- The dispose function has run if and only if no reference is left, and only once. -/
def Object.Disposal (o : Object) : Prop := o.disposed = if o.refs = 0 then 1 else 0

structure Value.Ok (x : Value) : Prop where
  disposal : x.object.Disposal
  claimed : x.object.claimed = true → x.object.publicLive = true
  published : 1 ≤ x.object.generation

/-- Nothing is left in the slots for the inputs of the task. -/
structure Future.Clean (y : Future V) : Prop where
  argument : y.argument = none
  discarded : y.discarded = none
  retracted : y.retracted = false

structure Future.Ok (y : Future V) : Prop where
  disposal : y.object.Disposal
  claimed : y.object.claimed = false
  published : y.object.generation = 1
  single : y.announced = false → y.object.publicOps ≤ 1
  result : y.kind = none → y.result = none
  freed : y.freed = true → y.object.refs = 0 ∧ y.result = none
  finished : y.unfinished = false → y.Clean

/-- The counters of a scope add up, and it is drained as soon as nothing is outstanding. -/
structure Report.Ok (r : Report) : Prop where
  admitted : r.admittedTasks = r.pendingTasks + r.succeeded + r.applicationErrors + r.cancelled + r.runtimeErrors
  closing : r.state = .CLOSING → 0 < r.pendingTasks ∨ 0 < r.activeSpawns
  drained : r.state = .DRAINED → r.pendingTasks = 0 ∧ r.activeSpawns = 0

structure Scope.Ok (x : Scope) : Prop where
  disposal : x.object.Disposal
  claimed : x.object.claimed = false
  published : x.object.generation = 1
  report : x.report.Ok

structure Store.Ok (st : Store V F S T) : Prop where
  values : ∀ v x, st.values v = some x → x.Ok
  futures : ∀ f y, st.futures f = some y → y.Ok
  scopes : ∀ s x, st.scopes s = some x → x.Ok

/-! ## Phases -/

/-- The task has not retired: its argument may be in its slot, nothing is discarded. -/
structure Future.Running (y : Future V) : Prop where
  discarded : y.discarded = none
  retracted : y.retracted = false

/-- What a section that works on the completion of a future finds there. -/
def Section.Phase (st : Store V F S T) : Section V F S → Prop
  | .reserve _ f _ => ∀ y, st.futures f = some y → y.Clean
  | .spawnTask _ f argument => ∀ y, st.futures f = some y → y.argument = argument ∧ y.Running
  | .rollbackClaim _ f v => ∀ y, st.futures f = some y → y.argument = some v ∧ y.Running
  | .rollbackSpawn _ f => ∀ y, st.futures f = some y → y.discarded = none ∧ y.heldArgument = none
  | .finishSpawn _ f true => ∀ y, st.futures f = some y → y.Clean
  | .consumeFailed _ f => ∀ y, st.futures f = some y → y.Clean
  | .entryReturned _ f => ∀ y, st.futures f = some y → y.Running
  | .prepareRetire _ f => ∀ y, st.futures f = some y → y.Running
  | .releaseInputs _ f => ∀ y, st.futures f = some y → y.retracted = false ∧ y.kind ≠ none
  | .publish _ f => ∀ y, st.futures f = some y → y.Clean ∧ y.kind ≠ none
  | _ => True

/-- What a running task finds in its future. -/
def TaskPhase (st : Store V F S T) (c : Option (F × S)) : Prop :=
  ∀ f s, c = some (f, s) → ∀ y, st.futures f = some y → y.Running

/-- The object whose channel a section closes. -/
def Section.notifies : Section V F S → Option (Ref V F S)
  | .notifyScope s => some (.scope s)
  | .notifyFuture f => some (.future f)
  | _ => none

/-- A channel is closed while the thread still has a reference to its object. -/
def Guarded : List (Section V F S) → Prop
  | [] => True
  | m :: rest => (∀ r, m.notifies = some r → 0 < todoBooks rest (.refs r)) ∧ Guarded rest

theorem Guarded.append {l l' : List (Section V F S)} (h : Guarded l) (h' : Guarded l') : Guarded (l ++ l') := by
  induction l with
  | nil => exact h'
  | cons m l ih =>
    rw [List.cons_append]
    refine ⟨fun r hr => ?_, ih h.2⟩
    have hpos := h.1 r hr
    have hrest := todoBooks_nonneg l' (.refs r)
    rw [todoBooks_append]
    omega

structure Thread.Phased (st : Store V F S T) (th : Thread V F S) : Prop where
  todo : ∀ m ∈ th.todo, m.Phase st
  task : TaskPhase st th.completion
  guarded : Guarded th.todo

/-! ## Handles -/

/-- A section that cannot make a call fail any more. -/
def Section.quiet : Section V F S → Bool
  | .endOp _ => true
  | .release _ => true
  | .freeArgument _ => true
  | .freeResult _ => true
  | .notifyScope _ => true
  | .announce _ _ => true
  | .finishSpawn _ _ false => true
  | _ => false

/-- A section after which the call may still consume a handle. -/
def Section.mayConsume : Section V F S → Bool
  | .consume _ => true
  | .take _ _ => true
  | .destroy _ => true
  | .spawnCheck _ _ _ => true
  | .prepare _ _ _ => true
  | .reserve _ _ _ => true
  | .spawnTask _ _ _ => true
  | .commitClaim _ _ _ => true
  | _ => false

/-- The publication of an object and whether it is live. -/
def Store.handle (st : Store V F S T) (r : Ref V F S) : Option (Nat × Bool) :=
  (st.object r).map fun o => (o.generation, o.publicLive)

/-- The history of consumed handles. -/
structure Ledger (st : Store V F S T) : Prop where
  once : (st.consumed.map fun c => (c.object, c.generation)).Nodup
  /-- a handle that was consumed does not resolve again -/
  past : ∀ c ∈ st.consumed, ∃ g live, st.handle c.object = some (g, live) ∧
    (c.generation < g ∨ c.generation = g ∧ live = false)
  /-- a handle that somebody got is live, or it was consumed -/
  issued : ∀ r n live, st.handle r = some (n, live) → st.announced r = true → ∀ g, 1 ≤ g → g ≤ n →
    (g = n ∧ live = true) ∨ ∃ c ∈ st.consumed, c.object = r ∧ c.generation = g
  numbered : ∀ c ∈ st.consumed, 1 ≤ c.generation

/-- The result of the call a thread is in, so far, or of its last call. -/
def Thread.outcome (th : Thread V F S) : Option Errno :=
  match th.call with
  | some _ => th.error
  | none => th.last.bind Prod.snd

/-- A call that has consumed a handle will succeed; until then it does one thing after another. -/
structure Thread.Kept (consumed : List (Consumption V F S T)) (t : T) (th : Thread V F S) : Prop where
  past : ∀ c ∈ consumed, c.thread = t → c.call ≤ th.calls ∧
    (c.call = th.calls → th.outcome = none ∧ (th.call ≠ none → ∀ m ∈ th.todo, m.quiet = true))
  alone : ∀ m ∈ th.todo, m.mayConsume = true → th.todo = [m] ∧ th.call ≠ none
  idle : th.todo = [] → th.call = none

/-- **The invariant.** -/
structure Inv (s : State V F S T) : Prop where
  balanced : Balanced s
  records : s.store.Ok
  phased : ∀ t, (s.threads t).Phased s.store
  ledger : Ledger s.store
  kept : ∀ t, (s.threads t).Kept s.store.consumed t
  sound : s.aborted = false

/-! ## The balance after a section -/

section Balance

variable {s s' : State V F S T} {t u : T} {m : Section V F S} {rest : List (Section V F S)} {e : Effect V F S T}
  {k : Account V F S} {th : Thread V F S}

/-- A section books what it does: what it stood for is gone, what it pushes is new. -/
structure Settles (st : Store V F S T) (m : Section V F S) (e : Effect V F S T) : Prop where
  few : e.store.Few
  law : ∀ k, e.store.total k =
    st.total k - entries m.accounts k + todoBooks e.push k + entries (taskAccounts (e.child.map Prod.snd)) k

@[simp] theorem Thread.proceed_todo (th : Thread V F S) (todo : List (Section V F S)) (error : Option Errno) :
    (th.proceed todo error).todo = todo := by
  cases todo <;> rfl

@[simp] theorem Thread.proceed_completion (th : Thread V F S) (todo : List (Section V F S)) (error : Option Errno) :
    (th.proceed todo error).completion = th.completion := by
  cases todo <;> rfl

@[simp] theorem Thread.proceed_calls (th : Thread V F S) (todo : List (Section V F S)) (error : Option Errno) :
    (th.proceed todo error).calls = th.calls := by
  cases todo <;> rfl

theorem Thread.proceed_outcome (th : Thread V F S) (todo : List (Section V F S)) (error : Option Errno) :
    (th.proceed todo error).outcome = if th.call = none then th.outcome else error := by
  cases hcall : th.call <;> cases todo <;> simp [Thread.proceed, Thread.outcome, hcall]

theorem Thread.proceed_call {todo : List (Section V F S)} {error : Option Errno}
    (h : (th.proceed todo error).call ≠ none) : th.call ≠ none := by
  cases todo with
  | nil => exact absurd rfl h
  | cons m todo => exact h

theorem Thread.proceed_idle {todo : List (Section V F S)} {error : Option Errno}
    (h : (th.proceed todo error).todo = []) : (th.proceed todo error).call = none := by
  rw [proceed_todo] at h
  rw [h]
  rfl

theorem Thread.proceed_cons_call (th : Thread V F S) (m : Section V F S) (todo : List (Section V F S))
    (error : Option Errno) : (th.proceed (m :: todo) error).call = th.call := rfl

theorem Thread.unused_iff : th.unused = true ↔ th.alive = false ∧ th.Blank := by
  cases htodo : th.todo <;> cases hcompletion : th.completion <;> cases halive : th.alive <;>
    simp [Thread.unused, Thread.Blank, htodo, hcompletion, halive]

theorem Balanced.covers (h : Balanced s) (t : T) (k : Account V F S) : (s.threads t).books k ≤ s.store.total k := by
  rw [h.law k]
  exact le_tally (w := fun _ th => Thread.books th k) h.busy (fun _ _ hb => hb.books k) (fun _ => books_nonneg _ k) t

theorem Balanced.covers_two (h : Balanced s) (htu : t ≠ u) (k : Account V F S) :
    (s.threads t).books k + (s.threads u).books k ≤ s.store.total k := by
  rw [h.law k]
  refine add_le_tally (w := fun _ th => Thread.books th k) h.busy (fun _ _ hb => hb.books k)
    (fun _ => books_nonneg _ k) htu (x := ⟨false, none, [], none, none, 0, none⟩) ⟨rfl, rfl⟩

theorem Thread.books_top (htodo : th.todo = m :: rest) (k : Account V F S) :
    th.books k = entries m.accounts k + (todoBooks rest k + entries (taskAccounts th.completion) k) := by
  rw [Thread.books, htodo, todoBooks_cons]
  omega

theorem Balanced.covers_top (h : Balanced s) (htodo : (s.threads t).todo = m :: rest) (k : Account V F S) :
    entries m.accounts k ≤ s.store.total k := by
  have hcovers := h.covers t k
  have hrest := todoBooks_nonneg rest k
  have htask := entries_nonneg (taskAccounts (s.threads t).completion) k
  rw [books_top htodo] at hcovers
  omega

theorem Balanced.resume (h : Balanced s) (htodo : (s.threads t).todo = m :: rest) (hset : Settles s.store m e)
    (hs : s.resume t rest e = some s') : Balanced s' := by
  let th := (s.threads t).proceed (e.push ++ rest) e.error
  have hbusy := h.busy.update t th
  have hmoved : ∀ k, tally (fun _ x => Thread.books x k) (update s.threads t th) =
      s.store.total k - entries m.accounts k + todoBooks e.push k := by
    intro k
    rw [tally_update h.busy (fun _ _ hb => hb.books k), ← h.law k, books_top htodo, Thread.books]
    simp only [th, proceed_todo, proceed_completion, todoBooks_append]
    omega
  unfold State.resume at hs
  cases hchild : e.child with
  | none =>
    rw [hchild] at hs
    cases hs
    refine ⟨hset.few, hbusy, fun k => ?_⟩
    show e.store.total k = tally (fun _ x => Thread.books x k) (update s.threads t th)
    rw [hmoved, hset.law, hchild]
    simp [taskAccounts]
  | some c =>
    obtain ⟨child, f, sc⟩ := c
    rw [hchild] at hs
    simp only at hs
    split at hs
    · rename_i hunused
      cases hs
      obtain ⟨-, hblank⟩ := unused_iff.mp hunused
      have hne : child ≠ t := by
        rintro rfl
        rw [hblank.1] at htodo
        cases htodo
      refine ⟨hset.few, hbusy.update child _, fun k => ?_⟩
      show e.store.total k = tally (fun _ x => Thread.books x k) (update (update s.threads t th) child _)
      rw [tally_update hbusy (fun _ _ hb => hb.books k), hmoved, update_of_ne hne, hblank.books, hset.law, hchild,
        Thread.launch, Thread.books, hblank.1, todoBooks_nil]
      simp
    · cases hs

end Balance

end Llam.Structured
