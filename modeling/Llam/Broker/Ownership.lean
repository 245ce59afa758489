import Llam.Broker.Registry

/-!
# Who owns the slots of tasks

A slot of the task table is used by three parties: the client, which has a token, the spawn that set the slot up, until it
returns, and the trampoline of a sleep. `TasksOk` says that they do not meet: a spawn in progress is alone with its slot,
apart from the task that it started, its token is secret, and the slot of a trampoline stays in use until it ends.
-/

namespace Llam.Broker

open Function

variable {n : Nat} {x : Slot Task}

/-- A spawn in progress and its slot. -/
structure CallOk (x : Slot Task) (fibers : List Fiber) (minted : List Token) (c : Call) : Prop where
  active : x.active = true
  rights : x.rights = c.rights
  subject : x.subjectId = c.subject
  kind : x.body.kind = some c.kind
  live : x.body.state = .SPAWNED ∨ x.body.state = .COMPLETED ∧ c.task ≠ none
  started : c.task ≠ none → c.token ≠ none ∧ c.kind = .SLEEP_NS_RETURN_U64
  secret : ∀ t ∈ minted, t.family = Family.TASK.code → t.slot = x.id → c.token = some t
  alone : c.task = none → ∀ y ∈ fibers, y.index ≠ c.index

theorem CallOk.unstarted {fibers : List Fiber} {minted : List Token} {c : Call}
    (h : CallOk x fibers minted c) (hnone : c.token = none) : c.task = none := by
  by_contra hne
  exact (h.started hne).1 hnone

/-- A trampoline and its slot. -/
structure FiberOk (x : Slot Task) (y : Fiber) : Prop where
  active : x.active = true
  subject : x.subjectId = y.subject
  live : x.body.state = .DETACHED ∨ x.body.state = .SPAWNED ∧ y.phase ≠ .detached

structure TasksOk (tasks : Fin slotCount → Slot Task) (calls : Fin n → Option Call) (fibers : List Fiber)
    (minted : List Token) : Prop where
  call : ∀ k c, calls k = some c → CallOk (tasks c.index) fibers minted c
  apart : ∀ k l c d, calls k = some c → calls l = some d → c.index = d.index → k = l
  fiber : ∀ y ∈ fibers, FiberOk (tasks y.index) y
  single : (fibers.map Fiber.index).Nodup
  sleeping : ∀ i, (tasks i).active = true → (tasks i).body.state = .SPAWNED →
    (tasks i).body.kind = some .SLEEP_NS_RETURN_U64 ∨ ∃ k c, calls k = some c ∧ c.index = i

theorem Slot.abandoned_cases (x : Slot Task) : ((x.body.state = .SPAWNED ∨ x.body.state = .DETACHED) ∧
      Slot.abandoned x = { x with rights := ⊥, body := { x.body with state := .DETACHED } }) ∨
    (¬ (x.body.state = .SPAWNED ∨ x.body.state = .DETACHED) ∧ Slot.abandoned x = .cleared .TASK) := by
  by_cases h : x.body.state = .SPAWNED ∨ x.body.state = .DETACHED
  · exact .inl ⟨h, if_pos h⟩
  · exact .inr ⟨h, if_neg h⟩

namespace TasksOk

variable {tasks tasks' : Fin slotCount → Slot Task} {calls : Fin n → Option Call} {fibers : List Fiber}
  {minted : List Token} {t : Token} {k : Fin n} {c : Call} {i : Fin slotCount}

section

variable (h : TasksOk tasks calls fibers minted)

include h

theorem index_ne (ht : t ∈ minted) (hfamily : t.family = Family.TASK.code)
    (hknown : ∀ k, (calls k).bind Call.token ≠ some t) (hnamed : (tasks i).id = t.slot) (hc : calls k = some c) :
    c.index ≠ i := by
  rintro rfl
  refine hknown k ?_
  rw [hc]
  exact (h.call k c hc).secret t ht hfamily hnamed.symm

theorem mint (ht : ∀ k c, calls k = some c → t.family = Family.TASK.code → t.slot ≠ (tasks c.index).id) :
    TasksOk tasks calls fibers (minted ++ [t]) := by
  refine { h with call := fun k c hc => { h.call k c hc with secret := fun u hu hfamily hslot => ?_ } }
  rcases List.mem_append.mp hu with hu | hu
  · exact (h.call k c hc).secret u hu hfamily hslot
  · cases List.mem_singleton.mp hu
    exact absurd hslot (ht k c hc hfamily)

theorem lower (hlower : ∀ i, tasks' i = tasks i ∨
      tasks' i = Slot.abandoned (tasks i) ∧ ∀ k c, calls k = some c → c.index ≠ i) :
    TasksOk tasks' calls fibers minted := by
  refine { h with call := fun k c hc => ?_, fiber := fun y hy => ?_, sleeping := fun i hactive hspawned => ?_ }
  · rcases hlower c.index with hsame | ⟨-, hne⟩
    · rw [hsame]
      exact h.call k c hc
    · exact absurd rfl (hne k c hc)
  · have hfiber := h.fiber y hy
    rcases hlower y.index with hsame | ⟨hsame, -⟩
    · rw [hsame]
      exact hfiber
    rcases Slot.abandoned_cases (tasks y.index) with ⟨-, heq⟩ | ⟨hstate, -⟩
    · rw [hsame, heq]
      exact ⟨hfiber.active, hfiber.subject, .inl rfl⟩
    · exact absurd (hfiber.live.symm.imp And.left id) hstate
  · rcases hlower i with hsame | ⟨hsame, -⟩
    · rw [hsame] at hactive hspawned ⊢
      exact h.sleeping i hactive hspawned
    · rcases Slot.abandoned_cases (tasks i) with ⟨-, heq⟩ | ⟨-, heq⟩ <;> rw [hsame, heq] at hspawned <;> cases hspawned

end

theorem update_cases {v : Option Call} {l : Fin n} {d : Call} (h : update calls k v l = some d) :
    l = k ∧ v = some d ∨ l ≠ k ∧ calls l = some d := by
  rcases eq_or_ne l k with rfl | hl
  · rw [update_self] at h
    exact .inl ⟨rfl, h⟩
  · rw [update_of_ne hl] at h
    exact .inr ⟨hl, h⟩

/-! ## The steps of a spawn -/

section

variable (h : TasksOk tasks calls fibers minted)

include h

theorem reserve (hk : calls k = none)
    (hfree : (tasks c.index).active = false) (hactive : x.active = true) (hrights : x.rights = c.rights)
    (hsubject : x.subjectId = c.subject) (hkind : x.body.kind = some c.kind) (hstate : x.body.state = .SPAWNED)
    (htask : c.task = none) (hfresh : ∀ t ∈ minted, t.family = Family.TASK.code → t.slot ≠ x.id) :
    TasksOk (update tasks c.index x) (update calls k (some c)) fibers minted := by
  -- the slot was nobody's
  have hcall : ∀ l d, calls l = some d → d.index ≠ c.index := by
    intro l d hd heq
    have := (h.call l d hd).active
    rw [heq, hfree] at this
    cases this
  have hfiber : ∀ y ∈ fibers, y.index ≠ c.index := by
    intro y hy heq
    have := (h.fiber y hy).active
    rw [heq, hfree] at this
    cases this
  refine ⟨fun l d hd => ?_, fun l m d e hd he heq => ?_, fun y hy => ?_, h.single, fun j hj hspawned => ?_⟩
  · rcases update_cases hd with ⟨-, heq⟩ | ⟨-, hd⟩
    · cases heq
      rw [update_self]
      exact ⟨hactive, hrights, hsubject, hkind, .inl hstate, fun hne => absurd htask hne,
        fun t ht hfamily hslot => absurd hslot (hfresh t ht hfamily), fun _ => hfiber⟩
    · rw [update_of_ne (hcall l d hd)]
      exact h.call l d hd
  · rcases update_cases hd with ⟨hl, hd⟩ | ⟨-, hd⟩ <;> rcases update_cases he with ⟨hm, he⟩ | ⟨-, he⟩
    · exact hl.trans hm.symm
    · cases hd
      exact absurd heq.symm (hcall m e he)
    · cases he
      exact absurd heq (hcall l d hd)
    · exact h.apart l m d e hd he heq
  · rw [update_of_ne (hfiber y hy)]
    exact h.fiber y hy
  · rcases eq_or_ne j c.index with rfl | hj'
    · exact .inr ⟨k, c, update_self .., rfl⟩
    rw [update_of_ne hj'] at hj hspawned ⊢
    rcases h.sleeping j hj hspawned with hsleep | ⟨l, d, hd, hindex⟩
    · exact .inl hsleep
    refine .inr ⟨l, d, ?_, hindex⟩
    rw [update_of_ne (fun hl => ?_), hd]
    rw [hl, hk] at hd
    cases hd

theorem replace (hc : calls k = some c) {c' : Call} (hindex : c'.index = c.index)
    {fibers' : List Fiber} {minted' : List Token} (hown : CallOk (tasks c.index) fibers' minted' c')
    (hothers : ∀ l d, l ≠ k → calls l = some d → CallOk (tasks d.index) fibers' minted' d)
    (hfiber : ∀ y ∈ fibers', FiberOk (tasks y.index) y) (hsingle : (fibers'.map Fiber.index).Nodup) :
    TasksOk tasks (update calls k (some c')) fibers' minted' := by
  refine ⟨fun l d hd => ?_, fun l m d e hd he heq => ?_, hfiber, hsingle, fun j hj hspawned => ?_⟩
  · rcases update_cases hd with ⟨-, heq⟩ | ⟨hl, hd⟩
    · cases heq
      rw [hindex]
      exact hown
    · exact hothers l d hl hd
  · rcases update_cases hd with ⟨hl, hd⟩ | ⟨hl, hd⟩ <;> rcases update_cases he with ⟨hm, he⟩ | ⟨hm, he⟩
    · exact hl.trans hm.symm
    · cases hd
      exact hl.trans (h.apart k m c e hc he (hindex.symm.trans heq))
    · cases he
      exact (h.apart l k d c hd hc (heq.trans hindex)).trans hm.symm
    · exact h.apart l m d e hd he heq
  · rcases h.sleeping j hj hspawned with hsleep | ⟨l, d, hd, hj'⟩
    · exact .inl hsleep
    rcases eq_or_ne l k with rfl | hl
    · cases hc.symm.trans hd
      exact .inr ⟨l, c', update_self .., hindex.trans hj'⟩
    · exact .inr ⟨l, d, (update_of_ne hl ..).trans hd, hj'⟩

theorem issue (hc : calls k = some c) (hnone : c.token = none)
    (hunique : ∀ j, (tasks j).active = true → (tasks j).id = t.slot → j = c.index) :
    TasksOk tasks (update calls k (some { c with token := some t })) fibers (minted ++ [t]) := by
  have hown := h.call k c hc
  refine h.replace hc (by rfl) ?_ (fun l d hl hd => ?_) h.fiber h.single
  · refine { hown with started := fun hne => ⟨nofun, (hown.started hne).2⟩, secret := fun u hu hfamily hslot => ?_ }
    rcases List.mem_append.mp hu with hu | hu
    · cases hnone.symm.trans (hown.secret u hu hfamily hslot)
    · rw [List.mem_singleton.mp hu]
  · have hother := h.call l d hd
    refine { hother with secret := fun u hu hfamily hslot => ?_ }
    rcases List.mem_append.mp hu with hu | hu
    · exact hother.secret u hu hfamily hslot
    · cases List.mem_singleton.mp hu
      exact absurd (h.apart l k d c hd hc (hunique d.index hother.active hslot.symm)) hl

theorem start (hc : calls k = some c) (htask : c.task = none)
    (htoken : c.token ≠ none) (hkind : c.kind = .SLEEP_NS_RETURN_U64) (task : Nat) :
    TasksOk tasks (update calls k (some { c with task := some task }))
      (fibers ++ [⟨c.index, c.subject, .entered⟩]) minted := by
  have hown := h.call k c hc
  have hspawned : (tasks c.index).body.state = .SPAWNED := hown.live.resolve_right fun hlive => hlive.2 htask
  refine h.replace hc (by rfl) ?_ (fun l d hl hd => ?_) (fun y hy => ?_) ?_
  · exact { hown with live := .inl hspawned, started := fun _ => ⟨htoken, hkind⟩, alone := nofun }
  · have hother := h.call l d hd
    refine { hother with alone := fun hnone y hy => ?_ }
    rcases List.mem_append.mp hy with hy | hy
    · exact hother.alone hnone y hy
    · cases List.mem_singleton.mp hy
      exact fun heq => hl (h.apart l k d c hd hc heq.symm)
  · rcases List.mem_append.mp hy with hy | hy
    · exact h.fiber y hy
    · cases List.mem_singleton.mp hy
      exact ⟨hown.active, hown.subject, .inr ⟨hspawned, nofun⟩⟩
  · rw [List.map_append, List.nodup_append]
    refine ⟨h.single, List.nodup_singleton _, fun a ha b hb => ?_⟩
    obtain ⟨y, hy, rfl⟩ := List.mem_map.mp ha
    cases List.mem_singleton.mp hb
    exact hown.alone htask y hy

theorem finish (hc : calls k = some c) (hfiber : ∀ y ∈ fibers, y.index = c.index → FiberOk x y)
    (hsleep : x.active = true → x.body.state = .SPAWNED → x.body.kind = some .SLEEP_NS_RETURN_U64) :
    TasksOk (update tasks c.index x) (update calls k none) fibers minted := by
  have hleft : ∀ l d, update calls k none l = some d → calls l = some d ∧ d.index ≠ c.index := by
    intro l d hd
    rcases update_cases hd with ⟨-, hd⟩ | ⟨hl, hd⟩
    · cases hd
    · exact ⟨hd, fun heq => hl (h.apart l k d c hd hc heq)⟩
  refine ⟨fun l d hd => ?_, fun l m d e hd he => ?_, fun y hy => ?_, h.single, fun j hj hspawned => ?_⟩
  · rw [update_of_ne (hleft l d hd).2]
    exact h.call l d (hleft l d hd).1
  · exact h.apart l m d e (hleft l d hd).1 (hleft m e he).1
  · by_cases heq : y.index = c.index
    · rw [heq, update_self]
      exact hfiber y hy heq
    · rw [update_of_ne heq]
      exact h.fiber y hy
  · rcases eq_or_ne j c.index with rfl | hne
    · rw [update_self] at hj hspawned ⊢
      exact .inl (hsleep hj hspawned)
    rw [update_of_ne hne] at hj hspawned ⊢
    rcases h.sleeping j hj hspawned with hsleep | ⟨l, d, hd, hj'⟩
    · exact .inl hsleep
    refine .inr ⟨l, d, (update_of_ne (fun hl => ?_) ..).trans hd, hj'⟩
    rw [hl, hc] at hd
    cases hd
    exact hne hj'.symm

end

/-! ## The steps of a trampoline -/

variable {p : Nat} {y : Fiber}

theorem map_index_set {y' : Fiber} (hp : fibers[p]? = some y) (hindex : y'.index = y.index) :
    (fibers.set p y').map Fiber.index = fibers.map Fiber.index := by
  refine List.ext_getElem? fun q => ?_
  rw [List.getElem?_map, List.getElem?_map, List.getElem?_set]
  split
  · rename_i hq
    subst hq
    have hlt := (List.getElem?_eq_some_iff.mp hp).1
    rw [if_pos hlt, hp, Option.map_some, Option.map_some, hindex]
  · rfl

variable (h : TasksOk tasks calls fibers minted)

include h

theorem index_ne_of_ne (hp : fibers[p]? = some y) {q : Nat} {z : Fiber}
    (hq : q ≠ p) (hz : fibers[q]? = some z) : z.index ≠ y.index := by
  intro heq
  have hy : (fibers.map Fiber.index)[p]? = some y.index := by rw [List.getElem?_map, hp, Option.map_some]
  have hz : (fibers.map Fiber.index)[q]? = some y.index := by rw [List.getElem?_map, hz, Option.map_some, heq]
  have hlt := (List.getElem?_eq_some_iff.mp hz).1
  exact hq ((List.getElem?_inj hlt h.single).mp (hz.trans hy.symm))

theorem advance (hp : fibers[p]? = some y) {y' : Fiber}
    (hindex : y'.index = y.index) (hfiber : FiberOk x y') (hid : x.id = (tasks y.index).id)
    (hrights : x.rights = (tasks y.index).rights) (hsubject : x.subjectId = (tasks y.index).subjectId)
    (hstate : x.body.state = (tasks y.index).body.state) (hkind : x.body.kind = (tasks y.index).body.kind) :
    TasksOk (update tasks y.index x) calls (fibers.set p y') minted := by
  have hmem : y ∈ fibers := List.mem_of_getElem? hp
  have hsame := map_index_set hp hindex
  -- the trampolines have the slots that they had
  have halone : ∀ i, (∀ z ∈ fibers, z.index ≠ i) → ∀ z ∈ fibers.set p y', z.index ≠ i := by
    intro i hi z hz heq
    rcases List.mem_or_eq_of_mem_set hz with hz | rfl
    · exact hi z hz heq
    · exact hi y hmem (hindex.symm.trans heq)
  refine ⟨fun k c hc => ?_, h.apart, fun z hz => ?_, hsame ▸ h.single, fun j hj hspawned => ?_⟩
  · have hown := h.call k c hc
    by_cases heq : c.index = y.index
    · rw [heq, update_self]
      rw [heq] at hown
      exact ⟨hfiber.active, hrights.trans hown.rights, hsubject.trans hown.subject, hkind.trans hown.kind,
        hstate ▸ hown.live, hown.started, hid ▸ hown.secret, fun hnone => halone _ (hown.alone hnone)⟩
    · rw [update_of_ne heq]
      exact { hown with alone := fun hnone => halone _ (hown.alone hnone) }
  · obtain ⟨q, hq⟩ := List.mem_iff_getElem?.mp hz
    rw [List.getElem?_set] at hq
    split at hq
    · split at hq
      · cases hq
        rw [hindex, update_self]
        exact hfiber
      · cases hq
    · rename_i hne
      rw [update_of_ne (h.index_ne_of_ne hp (Ne.symm hne) hq)]
      exact h.fiber z (List.mem_of_getElem? hq)
  · rcases eq_or_ne j y.index with rfl | hne
    · rw [update_self] at hj hspawned ⊢
      rw [hkind]
      exact h.sleeping _ (h.fiber y hmem).active (hstate ▸ hspawned)
    · rw [update_of_ne hne] at hj hspawned ⊢
      exact h.sleeping j hj hspawned

theorem leave (hp : fibers[p]? = some y)
    (hcall : ∀ k c, calls k = some c → c.index = y.index → CallOk x (fibers.eraseIdx p) minted c)
    (hended : x.body.state ≠ .SPAWNED) : TasksOk (update tasks y.index x) calls (fibers.eraseIdx p) minted := by
  have hsub : (fibers.eraseIdx p).Sublist fibers := List.eraseIdx_sublist fibers p
  refine ⟨fun k c hc => ?_, h.apart, fun z hz => ?_, h.single.sublist (hsub.map _), fun j hj hspawned => ?_⟩
  · by_cases heq : c.index = y.index
    · rw [heq, update_self]
      exact hcall k c hc heq
    rw [update_of_ne heq]
    have hown := h.call k c hc
    exact { hown with alone := fun hnone z hz => hown.alone hnone z (hsub.subset hz) }
  · obtain ⟨q, hq, hget⟩ := List.mem_eraseIdx_iff_getElem?.mp hz
    rw [update_of_ne (h.index_ne_of_ne hp hq hget)]
    exact h.fiber z (hsub.subset hz)
  · rcases eq_or_ne j y.index with rfl | hne
    · rw [update_self] at hspawned
      exact absurd hspawned hended
    · rw [update_of_ne hne] at hj hspawned ⊢
      exact h.sleeping j hj hspawned

end TasksOk

end Llam.Broker
