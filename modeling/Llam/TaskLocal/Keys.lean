import Llam.Basic
import Llam.Lib.Run
import Llam.Lib.Tally

/-!
# Task-local keys

The process-wide table of keys and the entries of the tasks (`task_local.c`). A deleted key stays in the lists of the tasks
that hold a value under it, and its id is given out again once no list has it. Only the task itself touches its list, so
that a change of the list is one step with the lock section before or after it; creations and deletions by any thread come
between the two lock sections of `set`. `created` counts the creations of an id and `stored` remembers every value that was
stored; both are for the statement of `task_local_keys_not_confused` only.
-/

namespace Llam.TaskLocal

open Llam.Lib Function

def maxKeys : Nat := 65535
def invalidKey : Nat := 4294967295

/-! ## The table of keys -/

/-- The two arrays are zero beyond their capacity, which only grows. -/
structure Keys where
  active : Nat → Bool
  refcount : Nat → Nat
  nextKey : Nat

namespace Keys

variable (k : Keys)

def isActive (key : Nat) : Bool := key ≠ 0 && key ≠ invalidKey && k.active key

def findReusable : Option Nat :=
  (List.range' 1 (min k.nextKey (maxKeys + 1) - 1)).find? fun key => !k.active key && k.refcount key = 0

/-- `allocated` says whether the arrays could be made large enough. -/
def keyCreate (allocated : Bool) : Except Errno (Nat × Keys) :=
  let key := k.findReusable.getD k.nextKey
  let newKey := k.findReusable.isNone
  if newKey && maxKeys < k.nextKey then .error .ENOSPC
  else if !allocated then .error .ENOMEM
  else .ok (key, { k with active := update k.active key true, nextKey := if newKey then key + 1 else k.nextKey })

def keyDelete (key : Nat) : Except Errno Keys :=
  if k.isActive key then .ok { k with active := update k.active key false } else .error .EINVAL

def refAcquire (key : Nat) : Except Errno Keys :=
  if !k.isActive key then .error .EINVAL
  else if k.refcount key = sizeMax then .error .EOVERFLOW
  else .ok { k with refcount := update k.refcount key (k.refcount key + 1) }

def refRelease (key : Nat) : Keys :=
  if k.refcount key ≠ 0 then { k with refcount := update k.refcount key (k.refcount key - 1) } else k

/-- What is in use lies below the next new key. -/
def Known : Prop := ∀ key, k.active key = true ∨ k.refcount key ≠ 0 → key < k.nextKey

variable {k} {k' : Keys} {key : Nat}

/-- An id that is given out is not in use, and no reference changes. -/
theorem keyCreate_spec {allocated : Bool} (hk : k.Known) (h : k.keyCreate allocated = .ok (key, k')) :
    k.active key = false ∧ k.refcount key = 0 ∧ k'.refcount = k.refcount ∧ k'.Known := by
  unfold keyCreate at h
  dsimp only at h
  split at h
  · cases h
  split at h <;> cases h
  cases hf : k.findReusable with
  | some key =>
    have hfree : k.active key = false ∧ k.refcount key = 0 := by simpa using List.find?_some hf
    have hmem := List.mem_of_find?_eq_some hf
    rw [List.mem_range'_1] at hmem
    refine ⟨hfree.1, hfree.2, rfl, fun other hother => ?_⟩
    by_cases heq : other = key
    · simp only [Option.isNone_some, Bool.false_eq_true, if_false]
      omega
    · exact hk other (by simpa [update_of_ne heq] using hother)
  | none =>
    have hunused := mt (hk k.nextKey) (lt_irrefl _)
    rw [not_or, Bool.not_eq_true, not_not] at hunused
    refine ⟨hunused.1, hunused.2, rfl, fun other hother => ?_⟩
    by_cases heq : other = k.nextKey
    · simp [heq]
    · have hold := hk other (by simpa [update_of_ne heq] using hother)
      exact Nat.lt_succ_of_lt hold

end Keys

/-! ## The entries of the tasks -/

/-- An entry of a task; an owned one has a cleanup function. -/
structure Entry (V : Type) where
  key : Nat
  value : V
  owned : Bool

structure State (T V : Type) where
  keys : Keys
  locals : T → List (Entry V)
  /-- A `set` between its check of the key and the acquisition of the reference. -/
  setting : T → Option (Entry V)
  created : Nat → Nat
  stored : List (T × Nat × Nat × V)

def State.init (T V : Type) : State T V :=
  ⟨⟨fun _ => false, fun _ => 0, 1⟩, fun _ => [], fun _ => none, fun _ => 0, []⟩

inductive Action (T V : Type)
  | keyCreate (allocated : Bool)
  | keyDelete (key : Nat)
  | set (task : T) (key : Nat) (value : Option V)
  | setOwned (task : T) (key : Nat) (value : V) (supported : Bool)
  | link (task : T) (allocated : Bool)
  | takeResult (task : T) (key : Nat)
  | clear (task : T)
  | cleanupOwned (task : T)

variable {T V : Type}

/-- Store into the first entry under the key. -/
def replace (key : Nat) (value : V) : List (Entry V) → List (Entry V)
  | [] => []
  | e :: entries => if e.key = key then { e with value := value } :: entries else e :: replace key value entries

namespace State

variable [DecidableEq T] (s : State T V)

def find (t : T) (key : Nat) : Option (Entry V) := (s.locals t).find? (·.key = key)

/-- Unlink the first entry that `p` selects and give its reference back. -/
def drop (t : T) (p : Entry V → Bool) : State T V :=
  match (s.locals t).find? p with
  | none => s
  | some e =>
    { s with keys := s.keys.refRelease e.key, locals := update s.locals t ((s.locals t).eraseP p) }

def get (t : T) (key : Nat) : Except Errno (Option V) :=
  if s.keys.isActive key then .ok ((s.find t key).map (·.value)) else .error .EINVAL

/-- `llam_task_local_set` for an entry that exists, or up to the allocation of a new one; `none` is the null pointer. -/
def set (t : T) (key : Nat) (value : Option V) (owned : Bool) : Except Errno (State T V) :=
  match s.find t key, value with
  | some e, some v =>
    if e.owned then .error .EBUSY
    else if s.keys.isActive key then
      .ok { s with
        locals := update s.locals t (replace key v (s.locals t))
        stored := (t, key, s.created key, v) :: s.stored }
    else .error .EINVAL
  | some e, none => if e.owned then .error .EBUSY else .ok (s.drop t (·.key = key))
  | none, some v =>
    if s.keys.isActive key then .ok { s with setting := update s.setting t (some ⟨key, v, owned⟩) }
    else .error .EINVAL
  | none, none => if s.keys.isActive key then .ok s else .error .EINVAL

def setOwned (t : T) (key : Nat) (value : V) (supported : Bool) : Except Errno (State T V) :=
  if !supported then .error .ENOTSUP
  else if (s.find t key).isSome then .error .EBUSY
  else s.set t key (some value) true

/-- The rest of `llam_task_local_set`: acquire the reference and prepend the entry. -/
def link (t : T) (e : Entry V) (allocated : Bool) : Except Errno (State T V) :=
  if !allocated then .error .ENOMEM
  else (s.keys.refAcquire e.key).map fun keys =>
    { s with
      keys := keys
      locals := update s.locals t (e :: s.locals t)
      stored := (t, e.key, s.created e.key, e.value) :: s.stored }

def takeResult (t : T) (key : Nat) : Except Errno (Option V × State T V) :=
  match s.find t key with
  | some e => .ok (some e.value, s.drop t (·.key = key))
  | none => if s.keys.isActive key then .ok (none, s) else .error .EINVAL

/-- A call that fails leaves the state as it is. -/
def settle : Except Errno (State T V) → State T V
  | .ok s' => s'
  | .error _ => s

/-- `clear` and the cleanup of owned entries at exit take one step for each entry. -/
def step (s : State T V) : Action T V → Option (State T V)
  | .keyCreate allocated =>
    match s.keys.keyCreate allocated with
    | .ok (key, keys) => some { s with keys := keys, created := update s.created key (s.created key + 1) }
    | .error _ => some s
  | .keyDelete key =>
    match s.keys.keyDelete key with
    | .ok keys => some { s with keys := keys }
    | .error _ => some s
  | .set t key value => if (s.setting t).isSome then none else some (s.settle (s.set t key value false))
  | .setOwned t key value supported =>
    if (s.setting t).isSome then none else some (s.settle (s.setOwned t key value supported))
  | .link t allocated =>
    (s.setting t).map fun e => { s.settle (s.link t e allocated) with setting := update s.setting t none }
  | .takeResult t key =>
    if (s.setting t).isSome then none else some (s.settle ((s.takeResult t key).map (·.2)))
  | .clear t => if (s.setting t).isSome then none else some (s.drop t fun _ => true)
  | .cleanupOwned t => if (s.setting t).isSome then none else some (s.drop t (·.owned))

end State

/-- The entries of a task under a key. -/
def held (key : Nat) (_ : T) (entries : List (Entry V)) : Int := (entries.map Entry.key).count key

theorem held_nil (key : Nat) (t : T) (entries : List (Entry V)) (h : entries = []) : held key t entries = 0 := by
  rw [h]
  rfl

theorem held_nonneg (key : Nat) (t : T) (entries : List (Entry V)) : 0 ≤ held key t entries := Int.natCast_nonneg _

theorem held_cons (key : Nat) (t : T) (e : Entry V) (entries : List (Entry V)) :
    held key t (e :: entries) = held key t entries + if key = e.key then 1 else 0 := by
  simp only [held, List.map_cons, List.count_cons, beq_iff_eq, eq_comm (a := key)]
  split <;> simp

theorem map_replace (key : Nat) (value : V) (entries : List (Entry V)) :
    (replace key value entries).map Entry.key = entries.map Entry.key := by
  induction entries with
  | nil => rfl
  | cons e entries ih =>
    unfold replace
    split <;> simp [*]

theorem mem_replace {key : Nat} {value : V} {entries : List (Entry V)} {e : Entry V}
    (h : e ∈ replace key value entries) : e ∈ entries ∨ e.key = key ∧ e.value = value := by
  induction entries with
  | nil => exact .inl h
  | cons first entries ih =>
    unfold replace at h
    split at h
    all_goals rcases List.mem_cons.mp h with rfl | h
    · exact .inr ⟨by assumption, rfl⟩
    · exact .inl (List.mem_cons_of_mem _ h)
    · exact .inl List.mem_cons_self
    · exact (ih h).imp_left (List.mem_cons_of_mem _)

theorem perm_eraseP {p : Entry V → Bool} {entries : List (Entry V)} {e : Entry V} (h : entries.find? p = some e) :
    entries.Perm (e :: entries.eraseP p) := by
  obtain ⟨hp, before, after, rfl, hbefore⟩ := List.find?_eq_some_iff_append.mp h
  rw [List.eraseP_append_right _ (by simpa using hbefore), List.eraseP_cons_of_pos hp]
  exact List.perm_middle

/-! ## The count of a key -/

/-- The count of an id is the number of entries that hold it, and every entry was stored under the present creation. -/
structure Inv (s : State T V) : Prop where
  few : FewBusy (· = []) s.locals
  known : s.keys.Known
  counted : ∀ key, (s.keys.refcount key : Int) = tally (held key) s.locals
  stored : ∀ t, ∀ e ∈ s.locals t, (t, e.key, s.created e.key, e.value) ∈ s.stored

variable {s : State T V} [DecidableEq T]

omit [DecidableEq T] in
theorem Inv.referenced (h : Inv s) {t : T} {e : Entry V} (he : e ∈ s.locals t) : s.keys.refcount e.key ≠ 0 := by
  have hle := le_tally h.few (held_nil e.key) (fun t => held_nonneg e.key t _) t
  have hpos : 0 < ((s.locals t).map Entry.key).count e.key := List.count_pos_iff.mpr (List.mem_map_of_mem he)
  rw [← h.counted, held] at hle
  omega

/-- A task changes its list and the count of the ids by what it adds or drops. -/
theorem Inv.relink (h : Inv s) {s' : State T V} {t : T} {entries : List (Entry V)}
    (hlocals : s'.locals = update s.locals t entries) (hknown : s'.keys.Known)
    (hcount : ∀ key, (s'.keys.refcount key : Int) = s.keys.refcount key - held key t (s.locals t) + held key t entries)
    (hstored : ∀ e ∈ entries, (t, e.key, s'.created e.key, e.value) ∈ s'.stored)
    (hcreated : s'.created = s.created) (hsub : ∀ r ∈ s.stored, r ∈ s'.stored) : Inv s' where
  few := hlocals ▸ h.few.update t entries
  known := hknown
  counted key := by rw [hcount, hlocals, tally_update h.few (held_nil key), h.counted]
  stored t' e he := by
    rw [hlocals] at he
    by_cases heq : t' = t
    · subst heq
      rw [update_self] at he
      exact hstored e he
    · rw [update_of_ne heq] at he
      rw [hcreated]
      exact hsub _ (h.stored t' e he)

theorem Inv.drop (h : Inv s) (t : T) (p : Entry V → Bool) : Inv (s.drop t p) := by
  unfold State.drop
  split
  · exact h
  rename_i e he
  have href := h.referenced (List.mem_of_find?_eq_some he)
  have hheld : ∀ key, held key t (s.locals t) = held key t (e :: (s.locals t).eraseP p) := fun key => by
    rw [held, held, ((perm_eraseP he).map Entry.key).count_eq]
  rw [Keys.refRelease, if_pos href]
  refine h.relink rfl (fun key hkey => ?_) (fun key => ?_) (fun e' he' => h.stored t e' (List.mem_of_mem_eraseP he')) rfl
    fun _ hr => hr
  · refine h.known key (hkey.imp_right fun hne => ?_)
    by_cases heq : key = e.key
    · exact heq ▸ href
    · simpa [update_of_ne heq] using hne
  · simp only [hheld, held_cons, update_apply]
    split
    · subst key
      omega
    · omega

theorem Inv.set (h : Inv s) {t : T} {key : Nat} {value : Option V} {owned : Bool} :
    Inv (s.settle (s.set t key value owned)) := by
  unfold State.set
  split
  · split
    · exact h
    split
    · refine h.relink rfl h.known (fun key' => ?_) (fun e he => ?_) rfl fun _ hr => List.mem_cons_of_mem _ hr
      · simp [State.settle, held, map_replace]
      · rcases mem_replace he with hmem | ⟨rfl, rfl⟩
        · exact List.mem_cons_of_mem _ (h.stored t e hmem)
        · exact List.mem_cons_self
    · exact h
  · split
    · exact h
    · exact h.drop t _
  · split
    · exact { h with }
    · exact h
  · split <;> exact h

theorem Inv.link (h : Inv s) {t : T} {e : Entry V} {allocated : Bool} : Inv (s.settle (s.link t e allocated)) := by
  unfold State.link Keys.refAcquire
  split
  · exact h
  split
  · exact h
  split
  · exact h
  rename_i hactive _
  have hknown := h.known e.key (.inl (by simp [Keys.isActive] at hactive; exact hactive.2))
  refine h.relink rfl (fun key hkey => ?_) (fun key => ?_) (fun e' he' => ?_) rfl fun _ hr => List.mem_cons_of_mem _ hr
  · by_cases heq : key = e.key
    · exact heq ▸ hknown
    · exact h.known key (by simpa [State.settle, Except.map, update_of_ne heq] using hkey)
  · simp only [held_cons, State.settle, Except.map, update_apply]
    split
    · subst key
      omega
    · omega
  · rcases List.mem_cons.mp he' with rfl | hmem
    · exact List.mem_cons_self
    · exact List.mem_cons_of_mem _ (h.stored t e' hmem)

theorem step_inv (s : State T V) (a : Action T V) (s' : State T V) (h : Inv s) (hs : s.step a = some s') : Inv s' := by
  cases a with
  | keyCreate allocated =>
    simp only [State.step] at hs
    split at hs <;> cases hs
    · rename_i key keys hr
      obtain ⟨-, hzero, href, hknown⟩ := Keys.keyCreate_spec h.known hr
      refine ⟨h.few, hknown, fun key => href ▸ h.counted key, fun t e he => ?_⟩
      -- no entry has the id, so that all of them keep their creation
      have hne : e.key ≠ key := fun heq => h.referenced he (heq ▸ hzero)
      simpa [update_of_ne hne] using h.stored t e he
    · exact h
  | keyDelete key =>
    simp only [State.step, Keys.keyDelete] at hs
    split at hs <;> cases hs
    · rename_i keys hr
      split at hr <;> cases hr
      refine ⟨h.few, fun other hother => h.known other (hother.imp_left fun hactive => ?_), h.counted, h.stored⟩
      by_cases heq : other = key
      · simp [heq] at hactive
      · simpa [update_of_ne heq] using hactive
    · exact h
  | set t key value =>
    simp only [State.step] at hs
    split at hs <;> cases hs
    exact h.set
  | setOwned t key value supported =>
    simp only [State.step, State.setOwned] at hs
    split at hs <;> cases hs
    split
    · exact h
    split
    · exact h
    · exact h.set
  | link t allocated =>
    obtain ⟨e, -, rfl⟩ := Option.map_eq_some_iff.mp hs
    exact { h.link with }
  | takeResult t key =>
    simp only [State.step, State.takeResult] at hs
    split at hs <;> cases hs
    split
    · exact h.drop t _
    · split <;> exact h
  | clear t | cleanupOwned t =>
    simp only [State.step] at hs
    split at hs <;> cases hs
    exact h.drop t _

/-- **Keys are not confused by reuse.** After every history of creations, deletions, stores, takes and clears the count of an
id is the number of entries that hold it, of which finitely many tasks have some; an id is given out only when it is inactive
and its count is zero; and what `get` or `take` returns under an active key was stored by the same task under the present
creation of that key. -/
theorem task_local_keys_not_confused (h : Reachable State.step (State.init T V) s) :
    FewBusy (· = []) s.locals ∧ (∀ key, (s.keys.refcount key : Int) = tally (held key) s.locals) ∧
    (∀ allocated key keys, s.keys.keyCreate allocated = .ok (key, keys) →
      s.keys.active key = false ∧ s.keys.refcount key = 0) ∧
    ∀ t key v, s.keys.isActive key = true →
      (s.get t key = .ok (some v) ∨ ∃ s', s.takeResult t key = .ok (some v, s')) →
      (t, key, s.created key, v) ∈ s.stored := by
  have hinit : Inv (State.init T V) := by
    refine ⟨?_, by simp [Keys.Known, State.init], fun key => ?_, by simp [State.init]⟩
    · simp [FewBusy, State.init]
    · exact (tally_eq_zero (f := (State.init T V).locals) fun t => held_nil key t _ rfl).symm
  have hinv : Inv s := h.induction hinit step_inv
  refine ⟨hinv.few, hinv.counted, fun allocated key keys hs => ?_, fun t key v hactive hv => ?_⟩
  · obtain ⟨hinactive, hzero, -⟩ := Keys.keyCreate_spec hinv.known hs
    exact ⟨hinactive, hzero⟩
  · have hfound : ∃ e, s.find t key = some e ∧ e.value = v := by
      rcases hv with hget | ⟨s', htake⟩
      · simpa [State.get, hactive, Except.ok.injEq] using hget
      unfold State.takeResult at htake
      split at htake
      · cases htake
        exact ⟨_, by assumption, rfl⟩
      · split at htake <;> cases htake
    obtain ⟨e, he, rfl⟩ := hfound
    have hkey : e.key = key := by simpa using List.find?_some he
    exact hkey ▸ hinv.stored t e (List.mem_of_find?_eq_some he)

/-- A key is deleted and created again while a task holds a value under it: the new key has another id. -/
theorem task_local_keys_not_confused_deleted : ∃ s : State Bool Nat,
    s.get true 2 = .ok (some 8) ∧ s.keys.refcount 1 = 1 ∧ (true, 2, s.created 2, 8) ∈ s.stored := by
  obtain ⟨s, hs, hf⟩ := exists_reachable State.step (State.init Bool Nat)
    (fun s => ((s.get true 2).toOption, s.keys.isActive 2, s.keys.refcount 1)) (b := (some (some 8), true, 1))
    [.keyCreate true, .set true 1 (some 7), .link true true, .keyDelete 1, .keyCreate true, .set true 2 (some 8),
      .link true true]
    (by decide +kernel)
  simp only [Prod.mk.injEq] at hf
  have hget : s.get true 2 = .ok (some 8) := by
    cases hr : s.get true 2 <;> simp_all [Except.toOption]
  exact ⟨s, hget, hf.2.2, (task_local_keys_not_confused hs).2.2.2 true 2 8 hf.2.1 (.inl hget)⟩

end Llam.TaskLocal
