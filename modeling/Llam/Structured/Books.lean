import Llam.Structured.Step
import Llam.Lib.Tally

/-!
# The books of the structured-task layer

Every counter and flag of the store is an account, and every entry of an account is some party's: `Section.accounts` says
which entries a pending section stands for, `Thread.books` adds the task that a thread runs. On the other side the records
of the store say what is on an account; a value's references are those its header counts, less its live handle and the
slots of futures it is in. `Balanced` says that the two sides agree on every account.
-/

namespace Llam.Structured

open Llam.Lib Function Store

variable {V F S T : Type} [DecidableEq V] [DecidableEq F] [DecidableEq S] [DecidableEq T]

/-! ## Accounts -/

inductive Account (V F S : Type)
  /-- references other than a live handle and the slots of futures -/
  | refs (r : Ref V F S)
  /-- open public operations -/
  | ops (r : Ref V F S)
  /-- spawns that have claimed the value -/
  | claims (v : V)
  /-- tasks of the scope that are not counted as completed -/
  | pending (s : S)
  /-- spawns between their reservation and their end -/
  | active (s : S)
  /-- drains of the scope -/
  | draining (s : S)
  /-- spawns that have not announced their future -/
  | hidden (f : F)
  /-- whoever has to bring the future to its completion -/
  | life (f : F)
  /-- whoever has to free the future -/
  | freeing (f : F)
  deriving DecidableEq

/-- The object an account is about. -/
@[reducible] def Account.ref : Account V F S → Ref V F S
  | .refs r | .ops r => r
  | .claims v => .value v
  | .pending s | .active s | .draining s => .scope s
  | .hidden f | .life f | .freeing f => .future f

/-- One entry on the account `key`. -/
def entry (key k : Account V F S) : Int := if key = k then 1 else 0

theorem entry_nonneg (key k : Account V F S) : 0 ≤ entry key k := by
  unfold entry
  split <;> omega

@[simp] theorem entry_self (k : Account V F S) : entry k k = 1 := if_pos rfl

variable {k : Account V F S} {r : Ref V F S}

theorem entry_of_ne {key : Account V F S} (h : key ≠ k) : entry key k = 0 := if_neg h

theorem entry_of_ref (h : k.ref ≠ r) (key : Account V F S) (hkey : key.ref = r) : entry key k = 0 := by
  refine entry_of_ne ?_
  rintro rfl
  exact h hkey

/-- The entries of a list on the account `k`. -/
def entries (l : List (Account V F S)) (k : Account V F S) : Int := (l.map fun key => entry key k).sum

@[simp] theorem entries_nil (k : Account V F S) : entries [] k = 0 := rfl

@[simp] theorem entries_cons (key : Account V F S) (l : List (Account V F S)) (k : Account V F S) :
    entries (key :: l) k = entry key k + entries l k := rfl

@[simp] theorem entries_append (l l' : List (Account V F S)) (k : Account V F S) :
    entries (l ++ l') k = entries l k + entries l' k := by
  simp [entries]

theorem entries_nonneg (l : List (Account V F S)) (k : Account V F S) : 0 ≤ entries l k := by
  induction l with
  | nil => exact Int.le_refl 0
  | cons key l ih =>
    have := entry_nonneg key k
    rw [entries_cons]
    omega

theorem entries_eq_zero {l : List (Account V F S)} (h : k ∉ l) : entries l k = 0 := by
  induction l with
  | nil => rfl
  | cons key l ih =>
    rw [List.mem_cons, not_or] at h
    rw [entries_cons, entry_of_ne (Ne.symm h.1), ih h.2]
    rfl

theorem entries_le {l : List (Account V F S)} (h : k ∉ l) (k' : Account V F S) : entries l k ≤ entries l k' := by
  rw [entries_eq_zero h]
  exact entries_nonneg l k'

theorem entries_pos {l : List (Account V F S)} : 0 < entries l k ↔ k ∈ l := by
  constructor
  · intro h
    by_contra hnot
    rw [entries_eq_zero hnot] at h
    omega
  · intro h
    induction l with
    | nil => cases h
    | cons key l ih =>
      rw [entries_cons]
      rcases List.mem_cons.mp h with rfl | h
      · have := entries_nonneg l k
        rw [entry_self]
        omega
      · have := ih h
        have := entry_nonneg key k
        omega

/-- An open operation is a reference, too. -/
def pin (r : Ref V F S) : List (Account V F S) := [.ops r, .refs r]

/-- The two references of a task: its scope and its future. -/
def taskRefs (s : S) (f : F) : List (Account V F S) := [.pending s, .refs (.scope s), .refs (.future f)]

/-- The operations of a spawn on its scope and its future. -/
def spawnPins (s : S) (f : F) : List (Account V F S) := pin (.scope s) ++ pin (.future f)

def After.accounts (s : S) : After → List (Account V F S)
  | .cancel _ => []
  | .drain _ => [.draining s]

/-- What a pending section stands for. -/
def Section.accounts : Section V F S → List (Account V F S)
  | .endOp r => pin r
  | .release r => [.refs r]
  | .freeArgument f => [.freeing f]
  | .freeResult f => [.freeing f]
  | .consume r => pin r
  | .valueType v _ => pin (.value v)
  | .awaitReady f => pin (.future f)
  | .awaitDone f => pin (.future f)
  | .awaitCheck f => pin (.future f)
  | .take f _ => pin (.future f)
  | .destroy s => pin (.scope s)
  | .cancelClose s => pin (.scope s)
  | .requestCheck s after => after.accounts s ++ pin (.scope s)
  | .requestToken s after => after.accounts s ++ pin (.scope s)
  | .requestDone s after => after.accounts s ++ pin (.scope s)
  | .notifyScope _ => []
  | .beginDrain s _ => pin (.scope s)
  | .drainWait s => .draining s :: pin (.scope s)
  | .finishDrain s => .draining s :: pin (.scope s)
  | .spawnCheck s _ _ => pin (.scope s)
  | .prepare s _ _ => pin (.scope s)
  | .reserve s f _ => .hidden f :: .life f :: spawnPins s f
  | .spawnTask s f argument =>
    .hidden f :: .life f :: .active s :: (argument.toList.map .claims ++ taskRefs s f ++ spawnPins s f)
  | .commitClaim s f v => .hidden f :: .active s :: .claims v :: spawnPins s f
  | .announce s f => .hidden f :: .active s :: spawnPins s f
  | .rollbackClaim s f v => .hidden f :: .life f :: .active s :: .claims v :: (taskRefs s f ++ spawnPins s f)
  | .rollbackSpawn s f => .hidden f :: .life f :: .active s :: (taskRefs s f ++ spawnPins s f)
  | .finishSpawn s f true => .hidden f :: .life f :: .active s :: spawnPins s f
  | .finishSpawn s f false => .active s :: spawnPins s f
  | .consumeFailed s f => .hidden f :: .life f :: spawnPins s f
  | .entryReturned s f => .life f :: taskRefs s f
  | .prepareRetire s f => .life f :: taskRefs s f
  | .releaseInputs s f => .life f :: taskRefs s f
  | .publish s f => .life f :: taskRefs s f
  | .notifyFuture _ => []

/-- What a running task stands for. -/
def taskAccounts (c : Option (F × S)) : List (Account V F S) :=
  match c with
  | none => []
  | some (f, s) => .life f :: taskRefs s f

def todoBooks (todo : List (Section V F S)) (k : Account V F S) : Int := entries (todo.flatMap Section.accounts) k

def Thread.books (th : Thread V F S) (k : Account V F S) : Int := todoBooks th.todo k + entries (taskAccounts th.completion) k

@[simp] theorem todoBooks_nil (k : Account V F S) : todoBooks [] k = 0 := rfl

@[simp] theorem todoBooks_cons (m : Section V F S) (todo : List (Section V F S)) (k : Account V F S) :
    todoBooks (m :: todo) k = entries m.accounts k + todoBooks todo k := by
  simp [todoBooks]

@[simp] theorem todoBooks_append (l l' : List (Section V F S)) (k : Account V F S) :
    todoBooks (l ++ l') k = todoBooks l k + todoBooks l' k := by
  simp [todoBooks]

theorem todoBooks_le {k k' : Account V F S} (h : ∀ m : Section V F S, entries m.accounts k ≤ entries m.accounts k')
    (todo : List (Section V F S)) : todoBooks todo k ≤ todoBooks todo k' := by
  induction todo with
  | nil => exact Int.le_refl 0
  | cons m todo ih =>
    rw [todoBooks_cons, todoBooks_cons]
    exact Int.add_le_add (h m) ih

theorem todoBooks_nonneg (todo : List (Section V F S)) (k : Account V F S) : 0 ≤ todoBooks todo k := entries_nonneg _ _

theorem Thread.books_nonneg (th : Thread V F S) (k : Account V F S) : 0 ≤ th.books k := by
  have h := todoBooks_nonneg th.todo k
  have h' := entries_nonneg (taskAccounts th.completion) k
  unfold Thread.books
  omega

/-! ## Records -/

def flag (b : Bool) : Int := if b then 1 else 0

@[simp] theorem flag_true : flag true = 1 := rfl
@[simp] theorem flag_false : flag false = 0 := rfl

theorem flag_nonneg (b : Bool) : 0 ≤ flag b := by cases b <;> decide

theorem flag_le_one (b : Bool) : flag b ≤ 1 := by cases b <;> decide

def Object.books (r : Ref V F S) (o : Object) (k : Account V F S) : Int :=
  (o.refs - flag o.publicLive) * entry (.refs r) k + o.publicOps * entry (.ops r) k

def Value.books (v : V) (x : Option Value) (k : Account V F S) : Int :=
  match x with
  | none => 0
  | some x => x.object.books (.value v) k + flag x.object.claimed * entry (.claims v) k

/-- A reference that a slot holds. -/
def slotBooks (v : Option V) (k : Account V F S) : Int :=
  match v with
  | none => 0
  | some v => entry (.refs (.value v)) k

/-- The spawn that made the future has not announced it. -/
def Future.hidden (y : Future V) : Bool := y.object.publicLive && !y.announced

/-- Somebody has to bring the future to its completion. -/
def Future.unfinished (y : Future V) : Bool := !y.ready && (y.announced || y.object.publicLive)

/-- Somebody has to free the future. -/
def Future.dead (y : Future V) : Bool := y.object.refs == 0 && !y.freed

/-- The argument, unless its reference was given back already. -/
def Future.heldArgument (y : Future V) : Option V := if y.retracted then none else y.argument

def Future.books (f : F) (y : Option (Future V)) (k : Account V F S) : Int :=
  match y with
  | none => 0
  | some y =>
    y.object.books (.future f) k + flag y.hidden * entry (.hidden f) k + flag y.unfinished * entry (.life f) k +
      flag y.dead * entry (.freeing f) k - slotBooks y.heldArgument k - slotBooks y.result k - slotBooks y.discarded k

def Scope.books (s : S) (x : Option Scope) (k : Account V F S) : Int :=
  match x with
  | none => 0
  | some x =>
    x.object.books (.scope s) k + x.report.pendingTasks * entry (.pending s) k +
      x.report.activeSpawns * entry (.active s) k + flag x.draining * entry (.draining s) k

/-! ## The two sides -/

/-- What the store has on an account. -/
noncomputable def Store.total (st : Store V F S T) (k : Account V F S) : Int :=
  tally (fun v x => Value.books v x k) st.values + tally (fun f y => Future.books f y k) st.futures +
    tally (fun s x => Scope.books s x k) st.scopes

/-- Only finitely many objects were ever allocated. -/
structure Store.Few (st : Store V F S T) : Prop where
  values : FewBusy (· = none) st.values
  futures : FewBusy (· = none) st.futures
  scopes : FewBusy (· = none) st.scopes

/-- A thread with nothing to do and no task. -/
def Thread.Blank (th : Thread V F S) : Prop := th.todo = [] ∧ th.completion = none

theorem Thread.Blank.books {th : Thread V F S} (h : th.Blank) (k : Account V F S) : th.books k = 0 := by
  obtain ⟨htodo, hcompletion⟩ := h
  rw [Thread.books, htodo, hcompletion]
  rfl

/-- **The balance**: on every account, what the store has is what the threads stand for. -/
structure Balanced (s : State V F S T) : Prop where
  few : s.store.Few
  busy : FewBusy Thread.Blank s.threads
  law : ∀ k, s.store.total k = tally (fun _ th => th.books k) s.threads

/-! ## Writing a record -/

section Write

variable {st : Store V F S T} {k : Account V F S}

section

variable (h : st.Few)

include h

theorem Store.Few.setValue (v : V) (x : Value) : (st.setValue v x).Few :=
  ⟨h.values.update v _, h.futures, h.scopes⟩

theorem Store.Few.setFuture (f : F) (y : Future V) : (st.setFuture f y).Few :=
  ⟨h.values, h.futures.update f _, h.scopes⟩

theorem Store.Few.setScope (s : S) (x : Scope) : (st.setScope s x).Few :=
  ⟨h.values, h.futures, h.scopes.update s _⟩

theorem Store.Few.setObject (r : Ref V F S) (o : Object) : (st.setObject r o).Few := by
  cases r with
  | value v => exact ⟨h.values.update v _, h.futures, h.scopes⟩
  | future f => exact ⟨h.values, h.futures.update f _, h.scopes⟩
  | scope s => exact ⟨h.values, h.futures, h.scopes.update s _⟩

theorem Store.Few.consumes (r : Ref V F S) (generation : Nat) (t : T) (call : Nat) :
    (st.consumes r generation t call).Few := ⟨h.values, h.futures, h.scopes⟩

theorem Store.total_setValue (v : V) (x : Value) :
    (st.setValue v x).total k = st.total k - Value.books v (st.values v) k + Value.books v (some x) k := by
  have hv := tally_update (w := fun v x => Value.books v x k) h.values (fun _ _ hx => by rw [hx]; rfl) v (some x)
  unfold Store.total
  show tally _ (update st.values v (some x)) + _ + _ = _
  show _ + tally (fun f y => Future.books f y k) st.futures + tally (fun s x => Scope.books s x k) st.scopes = _
  omega

theorem Store.total_setFuture (f : F) (y : Future V) :
    (st.setFuture f y).total k = st.total k - Future.books f (st.futures f) k + Future.books f (some y) k := by
  have hf := tally_update (w := fun f y => Future.books f y k) h.futures (fun _ _ hy => by rw [hy]; rfl) f (some y)
  unfold Store.total
  show _ + tally _ (update st.futures f (some y)) + _ = _
  show tally (fun v x => Value.books v x k) st.values + _ + tally (fun s x => Scope.books s x k) st.scopes = _
  omega

theorem Store.total_setScope (s : S) (x : Scope) :
    (st.setScope s x).total k = st.total k - Scope.books s (st.scopes s) k + Scope.books s (some x) k := by
  have hs := tally_update (w := fun s x => Scope.books s x k) h.scopes (fun _ _ hx => by rw [hx]; rfl) s (some x)
  unfold Store.total
  show _ + _ + tally _ (update st.scopes s (some x)) = _
  show tally (fun v x => Value.books v x k) st.values + tally (fun f y => Future.books f y k) st.futures + _ = _
  omega

end

@[simp] theorem Store.total_consumes (r : Ref V F S) (generation : Nat) (t : T) (call : Nat) :
    (st.consumes r generation t call).total k = st.total k := rfl

theorem Store.setObject_value {v : V} {x : Value} (h : st.values v = some x) (o : Object) :
    st.setObject (.value v) o = st.setValue v { x with object := o } := by
  simp [Store.setObject, Store.setValue, h]

theorem Store.setObject_future {f : F} {y : Future V} (h : st.futures f = some y) (o : Object) :
    st.setObject (.future f) o = st.setFuture f { y with object := o } := by
  simp [Store.setObject, Store.setFuture, h]

theorem Store.setObject_scope {s : S} {x : Scope} (h : st.scopes s = some x) (o : Object) :
    st.setObject (.scope s) o = st.setScope s { x with object := o } := by
  simp [Store.setObject, Store.setScope, h]

variable {o : Object}

theorem Store.object_value {v : V} : st.object (.value v) = some o ↔ ∃ x, st.values v = some x ∧ x.object = o :=
  Option.map_eq_some_iff

theorem Store.object_future {f : F} : st.object (.future f) = some o ↔ ∃ y, st.futures f = some y ∧ y.object = o :=
  Option.map_eq_some_iff

theorem Store.object_scope {s : S} : st.object (.scope s) = some o ↔ ∃ x, st.scopes s = some x ∧ x.object = o :=
  Option.map_eq_some_iff

theorem Store.object_cases {motive : (r : Ref V F S) → (o : Object) → st.object r = some o → Prop}
    (h : st.object r = some o)
    (value : ∀ v x (hx : st.values v = some x), motive (.value v) x.object (object_value.mpr ⟨x, hx, rfl⟩))
    (future : ∀ f y (hy : st.futures f = some y), motive (.future f) y.object (object_future.mpr ⟨y, hy, rfl⟩))
    (scope : ∀ s x (hx : st.scopes s = some x), motive (.scope s) x.object (object_scope.mpr ⟨x, hx, rfl⟩)) :
    motive r o h := by
  cases r with
  | value v =>
    obtain ⟨x, hx, rfl⟩ := object_value.mp h
    exact value v x hx
  | future f =>
    obtain ⟨y, hy, rfl⟩ := object_future.mp h
    exact future f y hy
  | scope s =>
    obtain ⟨x, hx, rfl⟩ := object_scope.mp h
    exact scope s x hx

end Write

/-! ## Reading an account -/

section Read

variable {st : Store V F S T}

/-- The slots of a future that hold the value. -/
def Future.slots (v : V) (y : Option (Future V)) : Int :=
  match y with
  | none => 0
  | some y =>
    flag (decide (y.heldArgument = some v)) + flag (decide (y.result = some v)) + flag (decide (y.discarded = some v))

theorem slotBooks_eq (w : Option V) (v : V) :
    slotBooks w (.refs (.value v) : Account V F S) = flag (decide (w = some v)) := by
  cases w with
  | none => rfl
  | some u => by_cases h : u = v <;> simp [slotBooks, entry, h]

variable {k : Account V F S}

theorem slotBooks_other (w : Option V) (h : ∀ v, k ≠ .refs (.value v)) : slotBooks w k = 0 := by
  cases w with
  | none => rfl
  | some u => exact entry_of_ne (h u).symm

theorem Future.books_refs_value (f : F) (y : Option (Future V)) (v : V) :
    Future.books f y (.refs (.value v) : Account V F S) = -Future.slots v y := by
  cases y with
  | none => rfl
  | some y =>
    simp only [Future.books, Object.books, Future.slots, slotBooks_eq, entry, reduceCtorEq, Account.refs.injEq, if_false]
    omega

theorem Value.books_of_ref {v : V} (x : Option Value) (h : k.ref ≠ .value v) : Value.books v x k = 0 := by
  cases x <;> simp [Value.books, Object.books, entry_of_ref h, Account.ref]

theorem Future.books_of_ref {f : F} (y : Option (Future V)) (h : k.ref ≠ .future f) (hslot : ∀ v, k ≠ .refs (.value v)) :
    Future.books f y k = 0 := by
  cases y <;> simp [Future.books, Object.books, entry_of_ref h, Account.ref, slotBooks_other, hslot]

theorem Scope.books_of_ref {s : S} (x : Option Scope) (h : k.ref ≠ .scope s) : Scope.books s x k = 0 := by
  cases x <;> simp [Scope.books, Object.books, entry_of_ref h, Account.ref]

theorem Store.total_eq {a b c : Int} (hv : tally (fun v x => Value.books v x k) st.values = a)
    (hf : tally (fun f y => Future.books f y k) st.futures = b) (hs : tally (fun s x => Scope.books s x k) st.scopes = c) :
    st.total k = a + b + c := by
  rw [Store.total, hv, hf, hs]

theorem Store.total_refs_value (v : V) : st.total (.refs (.value v)) =
    Value.books v (st.values v) (.refs (.value v) : Account V F S) - tally (fun _ y => Future.slots v y) st.futures := by
  have hf : tally (fun f y => Future.books f y (.refs (.value v) : Account V F S)) st.futures =
      -tally (fun _ y => Future.slots v y) st.futures := by
    rw [← tally_neg]
    exact tally_congr fun f => Future.books_refs_value f _ v
  rw [total_eq (tally_single v fun u hu => Value.books_of_ref _ (by simpa using hu.symm)) hf
    (tally_eq_zero fun s => Scope.books_of_ref _ (by simp))]
  omega

theorem Store.total_value {v : V} (hk : k.ref = .value v) (hslot : ∀ u, k ≠ .refs (.value u)) :
    st.total k = Value.books v (st.values v) k := by
  rw [total_eq (tally_single v fun u hu => Value.books_of_ref _ (by simpa [hk] using hu.symm))
    (tally_eq_zero fun f => Future.books_of_ref _ (by simp [hk]) hslot)
    (tally_eq_zero fun s => Scope.books_of_ref _ (by simp [hk]))]
  omega

theorem Store.total_future {f : F} (hk : k.ref = .future f) : st.total k = Future.books f (st.futures f) k := by
  have hslot (v : V) : k ≠ .refs (.value v) := by
    rintro rfl
    cases hk
  rw [total_eq (tally_eq_zero fun v => Value.books_of_ref _ (by simp [hk]))
    (tally_single f fun g hg => Future.books_of_ref _ (by simpa [hk] using hg.symm) hslot)
    (tally_eq_zero fun s => Scope.books_of_ref _ (by simp [hk]))]
  omega

theorem Store.total_scope {s : S} (hk : k.ref = .scope s) : st.total k = Scope.books s (st.scopes s) k := by
  have hslot (v : V) : k ≠ .refs (.value v) := by
    rintro rfl
    cases hk
  rw [total_eq (tally_eq_zero fun v => Value.books_of_ref _ (by simp [hk]))
    (tally_eq_zero fun f => Future.books_of_ref _ (by simp [hk]) hslot)
    (tally_single s fun u hu => Scope.books_of_ref _ (by simpa [hk] using hu.symm))]
  omega

/-- The slots of futures that hold the object. -/
noncomputable def Store.slots (st : Store V F S T) : Ref V F S → Int
  | .value v => tally (fun _ y => Future.slots v y) st.futures
  | _ => 0

theorem Store.total_ops (r : Ref V F S) : st.total (.ops r) = ((st.object r).elim 0 Object.publicOps : Nat) := by
  cases r with
  | value v =>
    rw [total_value rfl (by simp), Store.object]
    cases st.values v <;> simp [Value.books, Object.books, entry]
  | future f =>
    rw [total_future rfl, Store.object]
    cases st.futures f <;> simp [Future.books, Object.books, entry, slotBooks_other]
  | scope s =>
    rw [total_scope rfl, Store.object]
    cases st.scopes s <;> simp [Scope.books, Object.books, entry]

theorem Future.slots_nonneg (v : V) (y : Option (Future V)) : 0 ≤ Future.slots v y := by
  cases y with
  | none => exact Int.le_refl 0
  | some y =>
    have h₁ := flag_nonneg (decide (y.heldArgument = some v))
    have h₂ := flag_nonneg (decide (y.result = some v))
    have h₃ := flag_nonneg (decide (y.discarded = some v))
    show 0 ≤ flag _ + flag _ + flag _
    omega

theorem Store.slots_nonneg (r : Ref V F S) : 0 ≤ st.slots r := by
  cases r with
  | value v => exact tally_nonneg fun f => Future.slots_nonneg v _
  | _ => exact Int.le_refl 0

theorem Store.total_refs (r : Ref V F S) :
    st.total (.refs r) = (st.object r).elim 0 (fun o => o.refs - flag o.publicLive) - st.slots r := by
  cases r with
  | value v =>
    rw [total_refs_value, Store.object]
    cases st.values v <;> simp [Value.books, Object.books, entry, Store.slots]
  | future f =>
    rw [total_future rfl, Store.object]
    cases st.futures f <;> simp [Future.books, Object.books, entry, slotBooks_other, Store.slots]
  | scope s =>
    rw [total_scope rfl, Store.object]
    cases st.scopes s <;> simp [Scope.books, Object.books, entry, Store.slots]

theorem Store.total_refs_le {o : Object} (h : st.object r = some o) : st.total (.refs r) + flag o.publicLive ≤ o.refs := by
  have hslots := st.slots_nonneg r
  rw [total_refs, h, Option.elim_some]
  omega

theorem Store.total_refs_none (h : st.object r = none) : st.total (.refs r) ≤ 0 := by
  have hslots := st.slots_nonneg r
  rw [total_refs, h, Option.elim_none]
  omega

end Read

attribute [simp] pin taskRefs spawnPins After.accounts Section.accounts

end Llam.Structured
