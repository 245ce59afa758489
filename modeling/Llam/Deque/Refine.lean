import Llam.Deque.Spec
import Llam.Lib.WrapIndex

/-!
# The deque refines its specification

`Sim` ties a state to the list of its items: where `bottom` stands for every program counter of the owner, that the slots
from `top` on hold the items, and what a thief that has loaded `top` may rely on as long as `top` has not moved. An
action of the owner (`owner_sim`) or of a thief (`thief_sim`) is one step of the specification or none. The compare-and-swap
of a thief is the one access that trusts a word for a position: it is sound while less than a whole turn has passed.
-/

namespace Llam.Deque

open Llam.Lib Function WrapIndex

variable {T α : Type} [DecidableEq T] {cap : Capacity} {s s' : State T α} {items : List (Entry α)}
  {held : Option (Taken α)}

/-! ## The simulation -/

/-- The abstract deque of a state. -/
def State.spec (s : State T α) (items : List (Entry α)) (held : Option (Taken α)) : Spec α :=
  ⟨s.topAt, items, held, s.pushed, s.returned⟩

/-- The index after the last item. -/
def State.limit (s : State T α) (items : List (Entry α)) : Index := BitVec.ofNat 64 (s.topAt + items.length)

/-- Where `bottom` stands, by the program counter of the owner. -/
def OwnerSim (cap : Capacity) (s : State T α) (items : List (Entry α)) (held : Option (Taken α)) : Prop :=
  match s.owner with
  | .idle => s.bottom = s.limit items ∧ held = none
  | .pushTop _ b => s.bottom = s.limit items ∧ held = none ∧ b = s.limit items
  | .pushSlot _ b => s.bottom = s.limit items ∧ held = none ∧ b = s.limit items ∧ items.length < cap.value
  | .pushBottom b e =>
    s.bottom = s.limit items ∧ held = none ∧ b = s.limit items ∧ items.length < cap.value ∧
      s.buffer ((s.topAt + items.length) % cap.value) = some e ∧ ∃ task, e = (s.spec items held).next task
  | .popStore b => s.bottom = s.limit items ∧ held = none ∧ b + 1 = s.limit items
  | .popTop b => s.bottom = b ∧ held = none ∧ b + 1 = s.limit items
  | .popEmpty top => s.bottom + 1 = top ∧ held = none ∧ top = s.top ∧ items = []
  | .popSlot b top =>
    s.bottom = b ∧
      -- the last item is open to the thieves, one further up belongs to the owner
      (b = top ∧ held = none ∧ (s.top = top ∧ items.length = 1 ∨ s.top = top + 1 ∧ items = []) ∨
        b ≠ top ∧ b = s.limit items ∧ ∃ e, held = some (s.topAt + items.length, e) ∧
          s.buffer ((s.topAt + items.length) % cap.value) = some e ∧ items.length < cap.value)
  | .popCas top e =>
    s.bottom = top ∧ held = none ∧
      (s.top = top ∧ (∃ e', e = some e' ∧ items = [e']) ∨ s.top = top + 1 ∧ items = [])
  | .popFinish top result => s.bottom = top ∧ s.top = top + 1 ∧ items = [] ∧ held = result

/-- What a thief has seen still holds as long as `top` has not moved. -/
def ThiefSim (topAt : Nat) (items : List (Entry α)) : ThiefPc α → Prop
  | .idle => True
  | .loadBottom top seen => top = BitVec.ofNat 64 seen ∧ seen ≤ topAt
  | .loadSlot top seen => (top = BitVec.ofNat 64 seen ∧ seen ≤ topAt) ∧ (topAt = seen → items ≠ [])
  | .cas top seen e => (top = BitVec.ofNat 64 seen ∧ seen ≤ topAt) ∧ (topAt = seen → items.head? = some e)

structure Sim (cap : Capacity) (s : State T α) (items : List (Entry α)) (held : Option (Taken α)) : Prop where
  top : s.top = BitVec.ofNat 64 s.topAt
  bounded : items.length ≤ cap.value
  slots : Ring.contents s.buffer cap.value s.topAt items.length = items.map some
  owner : OwnerSim cap s items held
  thieves : ∀ t, ThiefSim s.topAt items (s.thieves t)

variable {pc : ThiefPc α} {b top : Index} {task : α} {e : Entry α} {t : T}

/-- A thief relies on nothing but the position of `top` and the first item there. -/
theorem ThiefSim.keep {topAt : Nat} {items' : List (Entry α)} (h : ThiefSim topAt items pc)
    (hhead : items ≠ [] → items'.head? = items.head?) : ThiefSim topAt items' pc := by
  cases pc with
  | idle => trivial
  | loadBottom top seen => exact h
  | loadSlot top seen =>
    refine ⟨h.1, fun hseen hnil => ?_⟩
    have hne := h.2 hseen
    have heq := hhead hne
    rw [hnil, List.head?_nil] at heq
    exact hne (List.head?_eq_none_iff.mp heq.symm)
  | cas top seen e =>
    refine ⟨h.1, fun hseen => ?_⟩
    have he := h.2 hseen
    rw [← he]
    refine hhead fun hnil => ?_
    rw [hnil] at he
    cases he

theorem ThiefSim.advance {topAt : Nat} {items' : List (Entry α)} (h : ThiefSim topAt items pc) :
    ThiefSim (topAt + 1) items' pc := by
  cases pc with
  | idle => trivial
  | loadBottom top seen => exact ⟨h.1, Nat.le_succ_of_le h.2⟩
  | loadSlot top seen | cas top seen e =>
    obtain ⟨⟨htop, hle⟩, -⟩ := h
    exact ⟨⟨htop, Nat.le_succ_of_le hle⟩, fun hseen => by omega⟩

/-! ## Indices -/

theorem slot_ofNat (cap : Capacity) (p : Nat) : slot cap.value (BitVec.ofNat 64 p) = p % cap.value := by
  refine ofNat_land_mask ?_ p
  obtain ⟨k, hk⟩ := cap.powerOfTwo
  refine ⟨k, ?_, hk⟩
  have hlt : 2 ^ k < 2 ^ 63 := hk ▸ cap.belowSignBit
  exact Nat.le_of_lt (Nat.lt_trans ((Nat.pow_lt_pow_iff_right (by decide)).mp hlt) (by decide))

theorem distanceIsNegative_iff (d : Index) : distanceIsNegative d = true ↔ 2 ^ 63 ≤ d.toNat := by
  have h := signBit_zero (w := 63) d
  unfold distanceIsNegative distanceSignBit
  rw [decide_eq_true_iff, ne_eq, h, Nat.not_lt]

/-- The distance from `top` to the index after the last item is the number of items. -/
theorem Sim.distance (h : Sim cap s items held) : (s.limit items - s.top).toNat = items.length := by
  rw [h.top]
  have hb := h.bounded
  have hc := cap.belowSignBit
  exact ofNat_add_sub _ (by omega)

theorem Sim.position_limit (h : Sim cap s items held) : s.position (s.limit items) = s.topAt + items.length := by
  rw [State.position, h.distance]

/-- The index before the limit: the last item, or one before `top`. -/
theorem Sim.below_limit (h : Sim cap s items held) (hb : b + 1 = s.limit items) :
    (items = [] ∧ b + 1 = s.top ∧ distanceIsNegative (b - s.top) = true) ∨
      ∃ n, items.length = n + 1 ∧ b = BitVec.ofNat 64 (s.topAt + n) ∧ (b - s.top).toNat = n ∧
        distanceIsNegative (b - s.top) = false := by
  have hbound := h.bounded
  have hcap := cap.belowSignBit
  cases hn : items.length with
  | zero =>
    have hnil := List.length_eq_zero_iff.mp hn
    have htop : b + 1 = s.top := by rw [hb, State.limit, hn, Nat.add_zero, h.top]
    refine .inl ⟨hnil, htop, ?_⟩
    rw [distanceIsNegative_iff, ← htop]
    have hone : b - (b + 1) = BitVec.ofNat 64 (2 ^ 64 - 1) := by
      bv_omega
    rw [hone]
    decide
  | succ n =>
    have hbn : b = BitVec.ofNat 64 (s.topAt + n) := by
      rw [← BitVec.add_sub_cancel b 1, hb, State.limit, hn, ← Nat.add_assoc, ofNat_succ_sub_one]
    have hdist : (b - s.top).toNat = n := by
      rw [hbn, h.top]
      exact ofNat_add_sub _ (by omega)
    refine .inr ⟨n, rfl, hbn, hdist, ?_⟩
    rw [← Bool.not_eq_true, distanceIsNegative_iff, hdist]
    omega

/-- Where `bottom` can stand. -/
theorem Sim.bottom (h : Sim cap s items held) : s.bottom = s.limit items ∨ s.bottom + 1 = s.limit items := by
  have ho := h.owner
  unfold OwnerSim at ho
  split at ho
  · exact .inl ho.1
  · exact .inl ho.1
  · exact .inl ho.1
  · exact .inl ho.1
  · exact .inl ho.1
  · exact .inr (ho.1 ▸ ho.2.2)
  · obtain ⟨hb, -, htop, rfl⟩ := ho
    exact .inr (hb.trans (htop.trans h.top))
  · obtain ⟨rfl, ⟨hb, -, ⟨htop, hlen⟩ | ⟨htop, rfl⟩⟩ | ⟨-, hb, -⟩⟩ := ho
    · refine .inr ?_
      rw [State.limit, hlen, ← ofNat_succ, ← h.top, htop, hb]
    · refine .inr ?_
      rw [hb, ← htop, h.top]
      rfl
    · exact .inl hb
  · obtain ⟨hb, -, ⟨htop, e, -, rfl⟩ | ⟨htop, rfl⟩⟩ := ho
    · refine .inr ?_
      rw [State.limit, List.length_singleton, ← ofNat_succ, ← h.top, htop, hb]
    refine .inr ?_
    rw [hb, ← htop, h.top]
    rfl
  · obtain ⟨hb, htop, rfl, -⟩ := ho
    refine .inr ?_
    rw [hb, ← htop, h.top]
    rfl

/-- The new state has its items again, and the specification has made a step. -/
def Refines (cap : Capacity) (spec : Spec α) (s' : State T α) : Prop :=
  ∃ items held, Sim cap s' items held ∧ Spec.Step cap.value spec (s'.spec items held)

theorem Sim.refines {spec : Spec α} (h : Sim cap s items held) (heq : s.spec items held = spec) : Refines cap spec s := by
  refine ⟨items, held, h, ?_⟩
  rw [heq]
  exact .stay _

/-! ## The owner -/

theorem Sim.moveOwner (h : Sim cap s items held) {pc : OwnerPc α} {held' : Option (Taken α)}
    (ho : OwnerSim cap { s with owner := pc } items held') : Sim cap { s with owner := pc } items held' :=
  ⟨h.top, h.bounded, h.slots, ho, h.thieves⟩

theorem push_sim (h : Sim cap s items held) (hpc : s.owner = .idle) :
    Sim cap { s with owner := .pushTop task s.bottom } items held := by
  have ho := h.owner
  simp only [OwnerSim, hpc] at ho
  exact h.moveOwner ⟨ho.1, ho.2, ho.1⟩

theorem pop_sim (h : Sim cap s items held) (hpc : s.owner = .idle) :
    Sim cap { s with owner := .popStore (s.bottom - 1) } items held := by
  have ho := h.owner
  simp only [OwnerSim, hpc] at ho
  exact h.moveOwner ⟨ho.1, ho.2, (BitVec.sub_add_cancel s.bottom 1).trans ho.1⟩

/-- The distance test of a push that goes on. -/
theorem room_of_accepts (h : Sim cap s items held) (hr : refusesPush cap.value (s.limit items) s.top = false) :
    items.length < cap.value := by
  rw [refusesPush, Bool.or_eq_false_iff, decide_eq_false_iff_not, h.distance] at hr
  exact Nat.lt_of_not_le hr.2

/-- The last of several items becomes the owner's when it has seen `top` below it. -/
theorem Sim.claimLast {init : List (Entry α)} (h : Sim cap s (init ++ [e]) none)
    (hinit : init ≠ []) (hb : s.bottom = b) (hlimit : b = BitVec.ofNat 64 (s.topAt + init.length)) (hne : b ≠ s.top) :
    Sim cap { s with owner := .popSlot b s.top } init (some (s.topAt + init.length, e)) := by
  have hbounded := h.bounded
  have hslots := h.slots
  rw [List.length_append, List.length_singleton] at hbounded hslots
  rw [Ring.contents_concat, List.map_append] at hslots
  obtain ⟨hl, hr⟩ := List.append_inj hslots (by simp)
  refine ⟨h.top, Nat.le_of_succ_le hbounded, hl, ⟨hb, .inr ⟨hne, hlimit, e, rfl, ?_, hbounded⟩⟩, fun t => ?_⟩
  · exact List.head_eq_of_cons_eq hr
  · refine (h.thieves t).keep fun _ => ?_
    rw [List.head?_append_of_ne_nil _ hinit]

section Step

variable (h : Sim cap s items held) (hs : ownerStep cap.value s = some s')
include h hs

theorem pushTop_sim (hpc : s.owner = .pushTop task b) : Refines cap (s.spec items held) s' := by
  have ho := h.owner
  simp only [OwnerSim, hpc] at ho
  obtain ⟨hb, hheld, rfl⟩ := ho
  simp only [ownerStep, hpc] at hs
  split at hs
  · cases hs
    refine Sim.refines ⟨h.top, h.bounded, h.slots, ⟨hb, hheld⟩, h.thieves⟩ ?_
    simp [State.spec, State.finish]
  · rename_i hr
    cases hs
    exact Sim.refines (h.moveOwner ⟨hb, hheld, rfl, room_of_accepts h (Bool.not_eq_true _ ▸ hr)⟩) rfl

theorem pushSlot_sim (hpc : s.owner = .pushSlot task b) : Refines cap (s.spec items held) s' := by
  have ho := h.owner
  simp only [OwnerSim, hpc] at ho
  obtain ⟨hb, hheld, rfl, hroom⟩ := ho
  simp only [ownerStep, hpc, Option.some.injEq] at hs
  subst hs
  have hslot : slot cap.value (s.limit items) = (s.topAt + items.length) % cap.value := slot_ofNat cap _
  rw [hslot, h.position_limit]
  refine Sim.refines ⟨h.top, h.bounded, ?_, ⟨hb, hheld, rfl, hroom, update_self .., task, rfl⟩, h.thieves⟩ rfl
  -- the slot after the last item is none of theirs
  let entry : Entry α := ⟨s.pushed.length, s.topAt + items.length, task⟩
  have hwrite : Ring.contents (update s.buffer ((s.topAt + items.length) % cap.value) (some entry)) cap.value
      s.topAt (items.length + 1) = _ := Ring.contents_write (some entry) hroom
  rw [Ring.contents_concat, h.slots] at hwrite
  exact (List.append_inj hwrite (by simp)).1

theorem pushBottom_sim (hpc : s.owner = .pushBottom b e) : Refines cap (s.spec items held) s' := by
  have ho := h.owner
  simp only [OwnerSim, hpc] at ho
  obtain ⟨hb, hheld, rfl, hroom, hslot, task, rfl⟩ := ho
  simp only [ownerStep, hpc, Option.some.injEq] at hs
  subst hs
  refine ⟨items ++ [_], held, ⟨h.top, ?_, ?_, ⟨?_, hheld⟩, fun t => (h.thieves t).keep fun hne => ?_⟩, .push task hroom⟩
  · rw [List.length_append, List.length_singleton]
    exact hroom
  · rw [List.length_append, List.length_singleton, Ring.contents_concat, h.slots, hslot, List.map_append]
    rfl
  · show s.limit items + 1 = BitVec.ofNat 64 (s.topAt + _)
    rw [State.limit, ofNat_succ, List.length_append, List.length_singleton, Nat.add_assoc]
  · exact List.head?_append_of_ne_nil _ hne

theorem popStore_sim (hpc : s.owner = .popStore b) : Refines cap (s.spec items held) s' := by
  have ho := h.owner
  simp only [OwnerSim, hpc] at ho
  simp only [ownerStep, hpc, Option.some.injEq] at hs
  subst hs
  exact Sim.refines ⟨h.top, h.bounded, h.slots, ⟨rfl, ho.2.1, ho.2.2⟩, h.thieves⟩ rfl

theorem popTop_sim (hpc : s.owner = .popTop b) : Refines cap (s.spec items held) s' := by
  have ho := h.owner
  simp only [OwnerSim, hpc] at ho
  obtain ⟨hb, rfl, hlimit⟩ := ho
  simp only [ownerStep, hpc] at hs
  rcases h.below_limit hlimit with ⟨rfl, htop, hneg⟩ | ⟨n, hlen, hbn, hdist, hneg⟩
  · rw [if_pos hneg] at hs
    cases hs
    exact Sim.refines (h.moveOwner ⟨hb ▸ htop, rfl, rfl, rfl⟩) rfl
  rw [if_neg (by rw [hneg]; exact Bool.false_ne_true)] at hs
  cases hs
  cases n with
  | zero =>
    have hbt : b = s.top := by rw [hbn, h.top, Nat.add_zero]
    exact Sim.refines (h.moveOwner ⟨hb, .inl ⟨hbt, rfl, .inl ⟨rfl, hlen⟩⟩⟩) rfl
  | succ n =>
    have hne : b ≠ s.top := by
      intro hbt
      rw [hbt, BitVec.sub_self] at hdist
      cases hdist
    obtain rfl | ⟨init, e, hconcat⟩ := List.eq_nil_or_concat items
    · cases hlen
    rw [List.concat_eq_append] at hconcat
    subst hconcat
    have hinit : init.length = n + 1 := by simpa using hlen
    have hnil : init ≠ [] := by
      rintro rfl
      cases hinit
    exact ⟨init, _, h.claimLast hnil hb (hinit ▸ hbn) hne, .popLast rfl rfl⟩

theorem popEmpty_sim (hpc : s.owner = .popEmpty top) : Refines cap (s.spec items held) s' := by
  have ho := h.owner
  simp only [OwnerSim, hpc] at ho
  obtain ⟨-, rfl, rfl, rfl⟩ := ho
  simp only [ownerStep, hpc, Option.some.injEq] at hs
  subst hs
  refine Sim.refines ⟨h.top, h.bounded, h.slots, ⟨h.top, rfl⟩, h.thieves⟩ ?_
  simp [State.spec, State.finish]

theorem popSlot_sim (hpc : s.owner = .popSlot b top) : Refines cap (s.spec items held) s' := by
  have ho := h.owner
  simp only [OwnerSim, hpc] at ho
  simp only [ownerStep, hpc] at hs
  obtain ⟨hb, ⟨rfl, rfl, hlast⟩ | ⟨hne, hlimit, e, rfl, hslot, hroom⟩⟩ := ho
  · rw [if_pos (by exact BitVec.sub_self b)] at hs
    cases hs
    refine Sim.refines (h.moveOwner ⟨hb, rfl, ?_⟩) rfl
    rcases hlast with ⟨htop, hlen⟩ | ⟨htop, rfl⟩
    · obtain ⟨e, rfl⟩ := List.length_eq_one_iff.mp hlen
      have hslots := h.slots
      refine .inl ⟨htop, e, ?_, rfl⟩
      rw [← htop, h.top, slot_ofNat]
      exact List.head_eq_of_cons_eq hslots
    · exact .inr ⟨htop, rfl⟩
  · have hsub : b - top ≠ 0 := by
      intro hzero
      exact hne (by bv_omega)
    have hentry : s.buffer (slot cap.value b) = some e := by rw [hlimit, State.limit, slot_ofNat, hslot]
    have hposition : s.position b = s.topAt + items.length := by rw [hlimit, h.position_limit]
    rw [if_neg hsub, hentry, hposition] at hs
    cases hs
    exact ⟨items, none, ⟨h.top, h.bounded, h.slots, ⟨hb.trans hlimit, rfl⟩, h.thieves⟩, .giveBack rfl⟩

theorem popCas_sim {e : Option (Entry α)} (hpc : s.owner = .popCas top e) : Refines cap (s.spec items held) s' := by
  have ho := h.owner
  simp only [OwnerSim, hpc] at ho
  simp only [ownerStep, hpc] at hs
  obtain ⟨hb, rfl, ⟨rfl, e, rfl, rfl⟩ | ⟨htop, rfl⟩⟩ := ho
  · rw [if_pos rfl] at hs
    cases hs
    refine ⟨[], some (s.topAt, e), ⟨?_, Nat.zero_le _, rfl, ⟨hb, rfl, rfl, rfl⟩, ?_⟩, .popOnly rfl rfl⟩
    · show s.top + 1 = _
      rw [h.top, ofNat_succ]
      rfl
    · exact fun t => (h.thieves t).advance
  · have hne : s.top ≠ top := by
      bv_omega
    rw [if_neg hne] at hs
    cases hs
    exact Sim.refines (h.moveOwner ⟨hb, htop, rfl, rfl⟩) rfl

theorem popFinish_sim {result : Option (Taken α)} (hpc : s.owner = .popFinish top result) :
    Refines cap (s.spec items held) s' := by
  have ho := h.owner
  simp only [OwnerSim, hpc] at ho
  obtain ⟨-, htop, rfl, rfl⟩ := ho
  simp only [ownerStep, hpc, Option.some.injEq] at hs
  subst hs
  refine ⟨[], none, ⟨h.top, h.bounded, h.slots, ⟨htop.symm.trans h.top, rfl⟩, h.thieves⟩, ?_⟩
  cases held with
  | none =>
    simp only [State.spec, State.finish, Option.toList_none, List.append_nil]
    exact .stay _
  | some x => exact .giveBack rfl

/-- **The owner refines the specification.** -/
theorem owner_sim : Refines cap (s.spec items held) s' := by
  cases hpc : s.owner with
  | idle => simp [ownerStep, hpc] at hs
  | pushTop task b => exact pushTop_sim h hs hpc
  | pushSlot task b => exact pushSlot_sim h hs hpc
  | pushBottom b e => exact pushBottom_sim h hs hpc
  | popStore b => exact popStore_sim h hs hpc
  | popTop b => exact popTop_sim h hs hpc
  | popEmpty top => exact popEmpty_sim h hs hpc
  | popSlot b top => exact popSlot_sim h hs hpc
  | popCas top e => exact popCas_sim h hs hpc
  | popFinish top result => exact popFinish_sim h hs hpc

end Step

/-! ## The thieves -/

theorem Sim.moveThief (h : Sim cap s items held) (hpc : ThiefSim s.topAt items pc) :
    Sim cap (s.setThief t pc) items held := by
  refine ⟨h.top, h.bounded, h.slots, h.owner, fun u => ?_⟩
  show ThiefSim s.topAt items (update s.thieves t pc u)
  rw [update_apply]
  split
  · exact hpc
  · exact h.thieves u

/-- A thief that sees an item between `top` and `bottom` is right unless `top` has moved. -/
theorem Sim.nonempty (h : Sim cap s items held) (hzero : s.bottom - s.top ≠ 0)
    (hneg : distanceIsNegative (s.bottom - s.top) = false) : items ≠ [] := by
  rintro rfl
  rcases h.bottom with hb | hb
  · refine hzero ?_
    rw [hb, h.top]
    exact BitVec.sub_self _
  rcases h.below_limit hb with ⟨-, -, hneg'⟩ | ⟨n, hlen, -⟩
  · rw [hneg] at hneg'
    cases hneg'
  · cases hlen

/-- The owner's view when a thief takes the first item. -/
theorem OwnerSim.steal (h : OwnerSim cap s (e :: items) held) :
    OwnerSim cap { s.advance.setThief t .idle with returned := s.returned ++ [(s.topAt, e)] } items held := by
  have hlength : s.topAt + 1 + items.length = s.topAt + (e :: items).length := by
    rw [List.length_cons]
    omega
  have hshorter : items.length < (e :: items).length := Nat.lt_succ_self _
  cases hpc : s.owner <;>
    simp only [OwnerSim, hpc, State.advance, State.setThief, State.limit, State.spec, Spec.next, hlength] at h ⊢
  case idle | pushTop | popStore | popTop => exact h
  case pushSlot => exact ⟨h.1, h.2.1, h.2.2.1, Nat.lt_trans hshorter h.2.2.2⟩
  case pushBottom =>
    obtain ⟨hb, hheld, hlimit, hroom, hslot⟩ := h
    exact ⟨hb, hheld, hlimit, Nat.lt_trans hshorter hroom, hslot⟩
  case popEmpty =>
    obtain ⟨-, -, -, hnil⟩ := h
    cases hnil
  case popSlot =>
    obtain ⟨hb, ⟨hbt, hheld, ⟨htop, hlen⟩ | ⟨-, hnil⟩⟩ | ⟨hne, hlimit, x, hheld, hslot, hroom⟩⟩ := h
    · refine ⟨hb, .inl ⟨hbt, hheld, .inr ⟨by rw [htop], ?_⟩⟩⟩
      exact List.length_eq_zero_iff.mp (Nat.succ.inj hlen)
    · cases hnil
    · exact ⟨hb, .inr ⟨hne, hlimit, x, hheld, hslot, Nat.lt_trans hshorter hroom⟩⟩
  case popCas =>
    obtain ⟨hb, hheld, ⟨htop, x, -, hitems⟩ | ⟨-, hnil⟩⟩ := h
    · exact ⟨hb, hheld, .inr ⟨by rw [htop], (List.cons.inj hitems).2⟩⟩
    · cases hnil
  case popFinish =>
    obtain ⟨-, -, hnil, -⟩ := h
    cases hnil

theorem Sim.stealFirst (h : Sim cap s (e :: items) held) (t : T) :
    Sim cap { s.advance.setThief t .idle with returned := s.returned ++ [(s.topAt, e)] } items held := by
  have hbounded := h.bounded
  have hslots := h.slots
  rw [List.length_cons] at hbounded hslots
  rw [Ring.contents_cons] at hslots
  have hmoved : s.top + 1 = BitVec.ofNat 64 (s.topAt + 1) := by rw [h.top, ofNat_succ]
  refine ⟨hmoved, Nat.le_of_succ_le hbounded, (List.cons.inj hslots).2, h.owner.steal, fun u => ?_⟩
  show ThiefSim (s.topAt + 1) items (update s.thieves t .idle u)
  rw [update_apply]
  split
  · trivial
  · exact (h.thieves u).advance

/-- **The thieves refine the specification**, as long as their compare-and-swap comes within one turn. -/
theorem thief_sim (h : Sim cap s items held) (hturn : withinTurn s (.thief t) = true) :
    Refines cap (s.spec items held) (thiefStep cap.value s t) := by
  have ht := h.thieves t
  have stays {pc : ThiefPc α} (hpc : ThiefSim s.topAt items pc) : Refines cap (s.spec items held) (s.setThief t pc) :=
    (h.moveThief hpc).refines rfl
  unfold thiefStep
  cases hpc : s.thieves t <;> simp only [hpc, ThiefSim] at ht ⊢
  case idle => exact stays ⟨h.top, Nat.le_refl _⟩
  case loadBottom top seen =>
    split
    · exact stays trivial
    rename_i hsees
    obtain ⟨hzero, hneg⟩ := not_or.mp hsees
    refine stays ⟨ht, fun hseen => ?_⟩
    have htop : top = s.top := by rw [ht.1, h.top, hseen]
    rw [htop] at hzero hneg
    exact h.nonempty hzero (Bool.not_eq_true _ ▸ hneg)
  case loadSlot top seen =>
    cases hslot : s.buffer (slot cap.value top) with
    | none => exact stays trivial
    | some x =>
      refine stays ⟨ht.1, fun hseen => ?_⟩
      obtain ⟨e, rest, rfl⟩ := List.exists_cons_of_ne_nil (ht.2 hseen)
      have hslots := h.slots
      rw [List.length_cons, Ring.contents_cons] at hslots
      rw [ht.1.1, slot_ofNat, ← hseen, (List.cons.inj hslots).1] at hslot
      exact hslot
  case cas top seen e =>
    split
    · -- within one turn of the index space equal words are equal positions
      rename_i htop
      simp only [withinTurn, hpc, decide_eq_true_iff] at hturn
      have hseen : s.topAt = seen := by
        refine ofNat_inj_of_lt (w := 64) ht.1.2 hturn ?_
        rw [← h.top, htop, ht.1.1]
      obtain ⟨rest, rfl⟩ := List.head?_eq_some_iff.mp (ht.2 hseen)
      exact ⟨rest, held, h.stealFirst t, .steal rfl⟩
    · exact stays trivial

/-! ## Runs -/

theorem init_sim (start : Index) : Sim cap (State.init T α start) [] none := by
  have hstart : start = BitVec.ofNat 64 start.toNat := by simp
  exact ⟨hstart, Nat.zero_le _, rfl, ⟨hstart, rfl⟩, fun _ => trivial⟩

/-- **Step lemma**: an action refines the specification. -/
theorem step_sim {a : Action T α} (h : Sim cap s items held) (hs : guarded withinTurn (step cap.value) s a = some s') :
    Refines cap (s.spec items held) s' := by
  obtain ⟨hturn, hs⟩ := guarded_some.mp hs
  cases a with
  | push task =>
    simp only [step] at hs
    split at hs <;> cases hs
    exact (push_sim h ‹_›).refines rfl
  | pop =>
    simp only [step] at hs
    split at hs <;> cases hs
    exact (pop_sim h ‹_›).refines rfl
  | owner => exact owner_sim h hs
  | thief t =>
    cases hs
    exact thief_sim h hturn

/-- **Run lemma**: every reachable state has its items, and its account is balanced. -/
theorem reachable_sim {start : Index} (hr : Reachable (guarded withinTurn (step cap.value)) (State.init T α start) s) :
    ∃ items held, Sim cap s items held ∧ (s.spec items held).Ok cap.value := by
  refine hr.induction (I := fun s => ∃ items held, Sim cap s items held ∧ (s.spec items held).Ok cap.value) ?_ ?_
  · exact ⟨[], none, init_sim start, Spec.Ok.empty _⟩
  · rintro s a s' ⟨items, held, hsim, hok⟩ hs
    obtain ⟨items', held', hsim', hstep⟩ := step_sim hsim hs
    exact ⟨items', held', hsim', hstep.ok hok⟩

end Llam.Deque
