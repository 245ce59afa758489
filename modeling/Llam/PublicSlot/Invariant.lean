import Llam.PublicSlot.Table

/-!
# The slot table invariant

Every slot in use is in an epoch `1 ≤ e` and carries the generation of that epoch (`EntryGood`), every slot behind them is
zero, and the free list spelled by the links holds empty used slots, each once (`Good`). An activation moves a slot to
its next epoch (`Activated`), and nothing moves it back.

Each operation keeps `Good` and has one lemma that says what it does: `reserve_spec`, `reactivate_spec`, `release_spec`.
A successful `reserve` or `reactivate` puts one slot in a new epoch and only relinks the others (`Issues`).
-/

namespace Llam.PublicSlot

open Llam.Lib Function

variable {Obj : Type} {cfg : Config}

/-! ## Epochs of a slot -/

/-- The last epoch a slot can reach. -/
def epochLimit (cfg : Config) : Nat := if cfg.family ≠ 0 then maxEpoch else maxGeneration

/-- The generation the slot carries in epoch `e`. -/
def genAt (cfg : Config) (entry : Slot Obj) (e : Nat) : Nat :=
  if cfg.family ≠ 0 then affineGenAt cfg.family entry.sealMultiplier entry.sealAddend e else e

/-- A slot that has been active: its epoch, its seal and its generation fit together. -/
structure EntryGood (cfg : Config) (entry : Slot Obj) : Prop where
  pos : 1 ≤ entry.epoch
  le : entry.epoch ≤ epochLimit cfg
  sealOk : cfg.family ≠ 0 → SealGood entry.sealMultiplier entry.sealAddend
  generation : entry.generation = genAt cfg entry entry.epoch

theorem genAt_pos (entry : Slot Obj) {e : Nat} (he : 1 ≤ e) : genAt cfg entry e ≠ 0 := by
  unfold genAt affineGenAt
  split <;> omega

variable {entry : Slot Obj} {t t' : Table Obj} {slot head : Nat} {slots : Nat → Slot Obj} {fl : List Nat}

theorem EntryGood.genAt_inj (h : EntryGood cfg entry) {e e' : Nat} (he : 1 ≤ e) (he' : 1 ≤ e')
    (hle : e ≤ entry.epoch) (hle' : e' ≤ entry.epoch) (heq : genAt cfg entry e = genAt cfg entry e') : e = e' := by
  have hlim := h.le
  unfold genAt at heq
  unfold epochLimit at hlim
  by_cases hf : cfg.family ≠ 0
  · rw [if_pos hf] at heq hlim
    rw [if_pos hf] at heq
    exact affineGenAt_inj (h.sealOk hf) he he' (by omega) (by omega) heq
  · rw [if_neg hf, if_neg hf] at heq
    exact heq

/-- `entry'` is `entry` in its next epoch. -/
structure Activated (cfg : Config) (entry entry' : Slot Obj) : Prop where
  good : EntryGood cfg entry'
  epoch : entry'.epoch = entry.epoch + 1
  stable : 1 ≤ entry.epoch → ∀ e, genAt cfg entry' e = genAt cfg entry e
  object : entry'.object = entry.object
  link : entry'.nextFreePlusOne = entry.nextFreePlusOne

/-- The families for which a table accepts operations. -/
def FamilyOk (cfg : Config) : Prop := cfg.family = 0 ∨ familyValid cfg.family = true

theorem FamilyOk.le (hf : FamilyOk cfg) : cfg.family ≤ familyMask := by
  rcases hf with h | h
  · omega
  · simp only [familyValid, Bool.and_eq_true, decide_eq_true_eq] at h
    exact h.2

/-- The refresh loop stops in its first round as soon as the next generation differs from the previous one. -/
theorem refreshLoop_eq {family previous : Nat} {fuel : Nat} (hfuel : 0 < fuel)
    (hne : nextAffineGeneration previous family entry.sealMultiplier entry.sealAddend ≠ previous) :
    refreshLoop family previous fuel entry =
      ({ entry with
          epoch := entry.epoch + 1
          generation := nextAffineGeneration previous family entry.sealMultiplier entry.sealAddend }, none) := by
  obtain ⟨n, rfl⟩ : ∃ n, fuel = n + 1 := ⟨fuel - 1, by omega⟩
  simp [refreshLoop, hne]

/-- A family slot with a good seal moves to its next epoch. -/
theorem refreshFamilyGeneration_eq {entropy : UInt64}
    (hfam : familyValid cfg.family = true) (ht' : prepareAffineSeal cfg t slot entropy = t')
    (hseal : SealGood (t'.slots slot).sealMultiplier (t'.slots slot).sealAddend)
    (hlt : (t'.slots slot).epoch < maxEpoch) {generation : Nat}
    (hgen : nextAffineGeneration (t.slots slot).generation cfg.family (t'.slots slot).sealMultiplier
      (t'.slots slot).sealAddend = generation) (hne : generation ≠ (t.slots slot).generation) :
    refreshFamilyGeneration cfg t slot entropy =
      (t'.set slot { t'.slots slot with epoch := (t'.slots slot).epoch + 1, generation := generation }, none) := by
  have hvalid : (!affineMultiplierValid (t'.slots slot).sealMultiplier ||
      decide (maxEpoch ≤ (t'.slots slot).sealAddend)) = false := by
    have := hseal.2.2
    simp [hseal.1]
    omega
  subst hgen
  simp only [refreshFamilyGeneration, hfam, Bool.not_true, Bool.false_eq_true, if_false, ht', hvalid]
  rw [refreshLoop_eq (by omega) hne]

/-- **Activation of a slot that was active before.** -/
theorem advance_spec (entropy : UInt64) (hf : FamilyOk cfg)
    (hg : EntryGood cfg (t.slots slot)) (hx : exhausted cfg (t.slots slot) = false) :
    ∃ entry', advance cfg t slot entropy = (t.set slot entry', none) ∧ Activated cfg (t.slots slot) entry' := by
  have hlim := hg.le
  have hgen := hg.generation
  have hpos := hg.pos
  unfold genAt at hgen
  unfold epochLimit at hlim
  unfold exhausted at hx
  by_cases hz : cfg.family = 0
  · simp only [hz, ne_eq, not_true_eq_false, if_false, decide_eq_false_iff_not] at hgen hlim hx
    have hnext : nextGeneration (t.slots slot).generation = (t.slots slot).epoch + 1 := by
      have hM : maxGeneration = 4294967295 := rfl
      have hmod : ((t.slots slot).epoch + 1) % 2 ^ 32 = (t.slots slot).epoch + 1 := Nat.mod_eq_of_lt (by omega)
      simp only [nextGeneration, hgen, hmod, Nat.add_eq_zero_iff, one_ne_zero, and_false, if_false, Nat.add_zero]
    refine ⟨{ t.slots slot with
      generation := (t.slots slot).epoch + 1
      epoch := (t.slots slot).epoch + 1
      sealMultiplier := 0
      sealAddend := 0 }, ?_, ?_, rfl, ?_, rfl, rfl⟩
    · simp [advance, hz, hnext]
    · have hM : maxGeneration = 4294967295 := rfl
      exact ⟨by simp, by simp only [epochLimit, hz]; simp; omega, fun h => absurd hz h, by simp [genAt, hz]⟩
    · simp [genAt, hz]
  · have hfam : familyValid cfg.family = true := hf.resolve_left hz
    simp only [ne_eq, hz, not_false_eq_true, if_true, decide_eq_false_iff_not, Nat.not_le] at hgen hlim hx
    have hseal := hg.sealOk hz
    have hmul : (t.slots slot).sealMultiplier ≠ 0 := by
      intro h0
      have hv := hseal.1
      rw [h0] at hv
      exact absurd hv (by decide)
    have hprep : prepareAffineSeal cfg t slot entropy = t := by simp [prepareAffineSeal, hmul]
    have hnext := nextAffineGeneration_genAt hf.le hseal hpos
    rw [← hgen] at hnext
    have hne : affineGenAt cfg.family (t.slots slot).sealMultiplier (t.slots slot).sealAddend ((t.slots slot).epoch + 1) ≠
        (t.slots slot).generation := by
      rw [hgen]
      intro heq
      have := affineGenAt_inj hseal (by omega) hpos (by omega) hlim heq
      omega
    refine ⟨{ t.slots slot with
      epoch := (t.slots slot).epoch + 1
      generation := affineGenAt cfg.family (t.slots slot).sealMultiplier (t.slots slot).sealAddend
        ((t.slots slot).epoch + 1) }, ?_, ?_, rfl, ?_, rfl, rfl⟩
    · rw [advance, if_pos hz]
      exact refreshFamilyGeneration_eq hfam hprep hseal hx hnext hne
    · exact ⟨by simp, by simp only [epochLimit, ne_eq, hz, not_false_eq_true, if_true]; omega, fun _ => hseal,
        by simp [genAt, hz]⟩
    · simp [genAt, hz]

/-- A seal chosen for a new slot is good. -/
theorem prepareAffineSeal_fresh (cfg : Config) (entropy : UInt64) (h0 : (t.slots slot).sealMultiplier = 0) :
    ∃ m a key, SealGood m a ∧ prepareAffineSeal cfg t slot entropy =
      { t.set slot { t.slots slot with sealMultiplier := m, sealAddend := a } with handleSecret := key } := by
  let key := tableSecret t entropy
  let seed := key ^^^ mix64 ((UInt64.ofNat (slot + 1) <<< 32) ^^^ cfg.address)
  have hm := chooseAffineMultiplier_valid seed
  refine ⟨chooseAffineMultiplier seed, (mix64 (seed ^^^ 0xa0761d6478bd642f)).toNat % maxEpoch, key,
    ⟨hm.1, hm.2, Nat.mod_lt _ (by decide)⟩, ?_⟩
  simp [prepareAffineSeal, h0, key, seed]

/-- **First activation of a family slot.** -/
theorem refreshFamilyGeneration_fresh (entropy : UInt64) (hf : FamilyOk cfg)
    (hz : cfg.family ≠ 0) (h0 : (t.slots slot).sealMultiplier = 0) (hg : (t.slots slot).generation = 0)
    (he : (t.slots slot).epoch = 0) : ∃ entry' key, refreshFamilyGeneration cfg t slot entropy =
      ({ t.set slot entry' with handleSecret := key }, none) ∧ Activated cfg (t.slots slot) entry' := by
  obtain ⟨m, a, key, hseal, hprep⟩ := prepareAffineSeal_fresh cfg entropy h0
  have hslot : ({ t.set slot { t.slots slot with sealMultiplier := m, sealAddend := a } with handleSecret := key } :
      Table Obj).slots slot = { t.slots slot with sealMultiplier := m, sealAddend := a } := by
    simp [Table.set]
  have hfam : familyValid cfg.family = true := hf.resolve_left hz
  have hgen := nextAffineGeneration_zero hf.le hseal
  rw [← hg] at hgen
  have hne : affineGenAt cfg.family m a 1 ≠ (t.slots slot).generation := by
    rw [hg]; unfold affineGenAt; omega
  have heq := refreshFamilyGeneration_eq hfam hprep (by rw [hslot]; exact hseal)
    (by rw [hslot]; simp [he, maxEpoch]) (by rw [hslot]; exact hgen) hne
  rw [hslot] at heq
  refine ⟨{ t.slots slot with
    sealMultiplier := m
    sealAddend := a
    epoch := (t.slots slot).epoch + 1
    generation := affineGenAt cfg.family m a 1 }, key, ?_, ?_, rfl, ?_, rfl, rfl⟩
  · rw [heq]; simp [Table.set]
  · exact ⟨by simp, by simp [he, epochLimit, hz, maxEpoch], fun _ => hseal, by simp [genAt, hz, he]⟩
  · intro hpos
    omega

/-! ## The table invariant -/

/-- The free list as the links spell it: `head` is a slot index plus one, or 0 at the end. -/
inductive FreeList (slots : Nat → Slot Obj) : Nat → List Nat → Prop
  | nil : FreeList slots 0 []
  | cons {slot : Nat} {fl : List Nat} : FreeList slots (slots slot).nextFreePlusOne fl →
      FreeList slots (slot + 1) (slot :: fl)

/-- Only the links of the listed slots matter. -/
theorem FreeList.congr {slots' : Nat → Slot Obj} (h : FreeList slots head fl)
    (heq : ∀ s ∈ fl, (slots' s).nextFreePlusOne = (slots s).nextFreePlusOne) : FreeList slots' head fl := by
  induction h with
  | nil => exact .nil
  | @cons slot fl _ ih =>
    have hs := heq slot List.mem_cons_self
    exact .cons (by rw [hs]; exact ih fun s hm => heq s (List.mem_cons_of_mem _ hm))

theorem FreeList.cons_inv
    (h : FreeList slots head (slot :: fl)) : head = slot + 1 ∧ FreeList slots (slots slot).nextFreePlusOne fl := by
  cases h with
  | cons h => exact ⟨rfl, h⟩

theorem FreeList.head_eq_zero (h : FreeList slots head []) : head = 0 := by
  cases h; rfl

/-- **The invariant**: used slots are in a good epoch, unused ones are zero, and the free list holds empty used slots,
each once. -/
structure Good (cfg : Config) (t : Table Obj) (fl : List Nat) : Prop where
  count_le : t.count ≤ t.capacity ∧ t.capacity ≤ maxSlots
  entries : ∀ s < t.count, EntryGood cfg (t.slots s)
  unused : ∀ s, t.count ≤ s → s < t.capacity → t.slots s = Slot.zero
  free : FreeList t.slots t.freeHeadPlusOne fl
  nodup : fl.Nodup
  empty : ∀ s ∈ fl, s < t.count ∧ (t.slots s).object = none

theorem empty_good : Good cfg (Table.empty : Table Obj) [] :=
  ⟨⟨Nat.le_refl _, Nat.zero_le _⟩, fun s hs => absurd hs (Nat.not_lt_zero s), fun _ _ _ => rfl, .nil, List.nodup_nil,
    by simp⟩

/-- Two slots that differ at most in their free-list link. -/
def Relinked (entry entry' : Slot Obj) : Prop := ∃ n, entry' = { entry with nextFreePlusOne := n }

theorem Relinked.refl (entry : Slot Obj) : Relinked entry entry := ⟨entry.nextFreePlusOne, rfl⟩

theorem Relinked.trans {a b c : Slot Obj} (h : Relinked a b) (h' : Relinked b c) : Relinked a c := by
  obtain ⟨n, rfl⟩ := h
  obtain ⟨m, rfl⟩ := h'
  exact ⟨m, rfl⟩

theorem Relinked.good {a b : Slot Obj} (h : Relinked a b) (hg : EntryGood cfg a) : EntryGood cfg b := by
  obtain ⟨n, rfl⟩ := h
  exact ⟨hg.pos, hg.le, hg.sealOk, hg.generation⟩

/-- A table whose used slots differ from those of `t` at most in their links. -/
structure TableRelinked (t t' : Table Obj) : Prop where
  count : t'.count = t.count
  capacity : t'.capacity = t.capacity
  slots : ∀ s, Relinked (t.slots s) (t'.slots s)

theorem TableRelinked.refl (t : Table Obj) : TableRelinked t t := ⟨rfl, rfl, fun _ => Relinked.refl _⟩

theorem TableRelinked.trans {a b c : Table Obj} (h : TableRelinked a b) (h' : TableRelinked b c) : TableRelinked a c :=
  ⟨h'.count.trans h.count, h'.capacity.trans h.capacity, fun s => (h.slots s).trans (h'.slots s)⟩

/-! ## What the operations do -/

/-- An operation that issues `i`: its slot enters a new epoch with that object, the other slots are only relinked. -/
structure Issues (cfg : Config) (t t' : Table Obj) (i : Issue Obj) : Prop where
  count : t.count ≤ t'.count
  slot : i.1.slot < t'.count
  generation : i.1.generation = (t'.slots i.1.slot).generation
  object : (t'.slots i.1.slot).object = some i.2
  epoch : i.1.slot < t.count → (t'.slots i.1.slot).epoch = (t.slots i.1.slot).epoch + 1
  stable : i.1.slot < t.count → ∀ e, genAt cfg (t'.slots i.1.slot) e = genAt cfg (t.slots i.1.slot) e
  others : ∀ s < t.count, s ≠ i.1.slot → Relinked (t.slots s) (t'.slots s)

/-- Relinking first does not change what is issued. -/
theorem Issues.of_relinked {u : Table Obj} {i : Issue Obj} (h : TableRelinked t u) (hi : Issues cfg u t' i) :
    Issues cfg t t' i where
  count := h.count ▸ hi.count
  slot := hi.slot
  generation := hi.generation
  object := hi.object
  epoch := by
    intro hlt
    obtain ⟨n, hn⟩ := h.slots i.1.slot
    rw [hi.epoch (by rw [h.count]; exact hlt), hn]
  stable := by
    intro hlt e
    obtain ⟨n, hn⟩ := h.slots i.1.slot
    rw [hi.stable (by rw [h.count]; exact hlt), hn]
    rfl
  others := by
    intro s hs hne
    exact (h.slots s).trans (hi.others s (by rw [h.count]; exact hs) hne)

@[simp] theorem Table.set_slots (t : Table Obj) (slot : Nat) (entry : Slot Obj) :
    (t.set slot entry).slots = update t.slots slot entry := rfl

@[simp] theorem Table.set_count (t : Table Obj) (slot : Nat) (entry : Slot Obj) :
    (t.set slot entry).count = t.count := rfl

theorem TableRelinked.set (h : Relinked (t.slots slot) entry) : TableRelinked t (t.set slot entry) := by
  refine ⟨rfl, rfl, fun s => ?_⟩
  by_cases hs : s = slot
  · subst hs; simpa using h
  · simpa [update_of_ne hs] using Relinked.refl (t.slots s)

theorem popFree_good (h : Good cfg t (slot :: fl)) :
    t.freeHeadPlusOne = slot + 1 ∧ Good cfg t.popFree fl ∧ TableRelinked t t.popFree ∧
      (t.popFree.slots slot).object = none := by
  obtain ⟨hhead, hfree⟩ := h.free.cons_inv
  obtain ⟨hnot, hnd⟩ := List.nodup_cons.mp h.nodup
  have hrel : TableRelinked t t.popFree := by
    have hset : TableRelinked t (t.set slot { t.slots slot with nextFreePlusOne := 0 }) := .set ⟨0, rfl⟩
    exact ⟨hset.count, hset.capacity, by simpa [Table.popFree, hhead] using hset.slots⟩
  have hobj : ∀ s, (t.popFree.slots s).object = (t.slots s).object := by
    intro s
    obtain ⟨n, hn⟩ := hrel.slots s
    rw [hn]
  have hempty := h.empty slot List.mem_cons_self
  refine ⟨hhead, ⟨h.count_le, ?_, ?_, ?_, hnd, ?_⟩, hrel, by rw [hobj]; exact hempty.2⟩
  · exact fun s hs => (hrel.slots s).good (h.entries s hs)
  · intro s hle hlt
    have hne : s ≠ slot := fun heq => absurd hempty.1 (by subst heq; exact Nat.not_lt.mpr hle)
    simpa [Table.popFree, hhead, update_of_ne hne] using h.unused s hle hlt
  · have : t.popFree.freeHeadPlusOne = (t.slots slot).nextFreePlusOne := by simp [Table.popFree, hhead]
    rw [this]
    refine hfree.congr fun s hs => ?_
    have hne : s ≠ slot := fun heq => hnot (heq ▸ hs)
    simp [Table.popFree, hhead, update_of_ne hne]
  · intro s hs
    rw [hobj]
    exact h.empty s (List.mem_cons_of_mem _ hs)

/-- Writing an entry in a good epoch at a slot that is not free keeps the invariant. -/
theorem Good.set (h : Good cfg t fl) (hslot : slot < t.count)
    (hfree : slot ∉ fl) (hg : EntryGood cfg entry) : Good cfg (t.set slot entry) fl := by
  refine ⟨h.count_le, ?_, ?_, ?_, h.nodup, ?_⟩
  · intro s hs
    by_cases hne : s = slot
    · subst hne; simpa using hg
    · simpa [update_of_ne hne] using h.entries s hs
  · intro s hle hlt
    have hne : s ≠ slot := fun heq => absurd hslot (by subst heq; exact Nat.not_lt.mpr hle)
    simpa [update_of_ne hne] using h.unused s hle hlt
  · refine h.free.congr fun s hs => ?_
    have hne : s ≠ slot := fun heq => hfree (heq ▸ hs)
    simp [update_of_ne hne]
  · intro s hs
    have hne : s ≠ slot := fun heq => hfree (heq ▸ hs)
    simpa [update_of_ne hne] using h.empty s hs

/-- An activated slot with its object written issues the handle of its new epoch. -/
theorem Issues.of_activated (object : Obj) {entry' : Slot Obj}
    (hslot : slot < t.count) (hpos : 1 ≤ (t.slots slot).epoch) (ha : Activated cfg (t.slots slot) entry)
    (hentry' : entry' = { entry with object := some object }) :
    Issues cfg t (t.set slot entry') (⟨slot, entry'.generation⟩, object) where
  count := Nat.le_refl _
  slot := hslot
  generation := by simp
  object := by simp [hentry']
  epoch := fun _ => by simp [hentry', ha.epoch]
  stable := fun _ e => by
    have := ha.stable hpos e
    simpa [hentry', genAt] using this
  others := fun s _ hne => by
    have hne' : s ≠ slot := hne
    simpa [update_of_ne hne'] using Relinked.refl (t.slots s)

theorem Activated.good_object {entry' : Slot Obj} (ha : Activated cfg entry entry') (object : Option Obj) :
    EntryGood cfg { entry' with object := object } :=
  ⟨ha.good.pos, ha.good.le, ha.good.sealOk, ha.good.generation⟩

/-- What `reserve` does to a table: a slot that was free or new is issued, or the free list runs empty and nothing but
links changes. -/
def ReserveEffect (cfg : Config) (t t' : Table Obj) (object : Obj) : Option Handle → Prop
  | none => TableRelinked t t' ∧ t'.freeHeadPlusOne = 0
  | some h => Issues cfg t t' (h, object) ∧ (h.slot < t.count → (t.slots h.slot).object = none)

/-- **The free-list loop.** The induction is on the list the links spell: every round unlinks its head, so as many rounds
as the list is long empty it. -/
theorem reserveFree_spec (hf : FamilyOk cfg) (object : Obj) (entropy : UInt64) : ∀ (fl : List Nat) (fuel : Nat)
    (t : Table Obj), Good cfg t fl → fl.length < fuel →
    ∃ fl', Good cfg (reserveFree cfg object entropy fuel t).1 fl' ∧
      ReserveEffect cfg t (reserveFree cfg object entropy fuel t).1 object (reserveFree cfg object entropy fuel t).2
  | _, 0, _, _, hfuel => absurd hfuel (Nat.not_lt_zero _)
  | [], fuel + 1, t, h, _ => by
    have hhead := h.free.head_eq_zero
    simp only [reserveFree, hhead, if_true]
    exact ⟨[], h, TableRelinked.refl t, hhead⟩
  | slot :: fl, fuel + 1, t, h, hfuel => by
    obtain ⟨hhead, hpop, hrel, hnone⟩ := popFree_good h
    have hlt : slot < t.popFree.count := by rw [hrel.count]; exact (h.empty slot List.mem_cons_self).1
    have hnot : slot ∉ fl := (List.nodup_cons.mp h.nodup).1
    have hentry := hpop.entries slot hlt
    simp only [reserveFree, hhead, Nat.add_eq_zero_iff, one_ne_zero, and_false, if_false, Nat.add_sub_cancel]
    by_cases hx : exhausted cfg (t.popFree.slots slot) = true
    · -- an exhausted slot leaves the list; it was empty already
      have hset : t.popFree.setObject slot none = t.popFree := by
        have : ({ t.popFree.slots slot with object := none } : Slot Obj) = t.popFree.slots slot := by
          rw [← hnone]
        simp [Table.setObject, Table.set, this]
      rw [if_pos hx, hset]
      obtain ⟨fl', hgood, heff⟩ := reserveFree_spec hf object entropy fl fuel t.popFree hpop
        (by simp only [List.length_cons] at hfuel; omega)
      refine ⟨fl', hgood, ?_⟩
      cases hr : (reserveFree cfg object entropy fuel t.popFree).2 with
      | none => rw [hr] at heff; exact ⟨hrel.trans heff.1, heff.2⟩
      | some g =>
        rw [hr] at heff
        refine ⟨heff.1.of_relinked hrel, fun hg => ?_⟩
        obtain ⟨n, hn⟩ := hrel.slots g.slot
        have := heff.2 (by rw [hrel.count]; exact hg)
        rw [hn] at this
        exact this
    · have hx' : exhausted cfg (t.popFree.slots slot) = false := by simpa using hx
      obtain ⟨entry', hadv, hact⟩ := advance_spec entropy hf hentry hx'
      have hset : (t.popFree.set slot entry').setObject slot (some object) =
          t.popFree.set slot { entry' with object := some object } := by
        simp [Table.setObject, Table.set]
      simp only [hx', Bool.false_eq_true, if_false, hadv, Option.isSome_none, hset]
      refine ⟨fl, hpop.set hlt hnot (hact.good_object _), ?_, fun _ => ?_⟩
      · have hi := Issues.of_activated object hlt hentry.pos hact rfl
        simpa using hi.of_relinked hrel
      · exact (h.empty slot List.mem_cons_self).2

theorem Good.length_le (h : Good cfg t fl) : fl.length ≤ t.count := by
  have hsub : fl ⊆ List.range t.count := fun s hs => List.mem_range.mpr (h.empty s hs).1
  simpa using (List.Nodup.subperm h.nodup hsub).length_le

/-- Growing makes room behind the used slots and leaves them alone. -/
theorem grow_spec {initialCapacity : Nat} {allocOk : Bool} (h : Good cfg t fl)
    (hmax : t.count < maxSlots) (hg : grow t initialCapacity allocOk = .ok t') :
    Good cfg t' fl ∧ t'.count = t.count ∧ t.count < t'.capacity ∧ ∀ s < t.count, t'.slots s = t.slots s := by
  unfold grow at hg
  by_cases hfull : t.count = t.capacity
  · rw [if_pos hfull] at hg
    dsimp only at hg
    generalize hcap : (if t.capacity ≠ 0 then t.capacity * 2 else initialCapacity) = cap₁ at hg
    generalize hcap' : (if cap₁ = 0 then 64 else cap₁) = cap₂ at hg
    generalize hcap'' : (if maxSlots < cap₂ then maxSlots else cap₂) = cap at hg
    obtain ⟨hlt, hmost⟩ : t.count < cap ∧ cap ≤ maxSlots := by
      have hM : maxSlots = 4294967295 := rfl
      split at hcap <;> split at hcap' <;> split at hcap'' <;> omega
    split at hg
    · cases hg
    split at hg
    · cases hg
    cases hg
    refine ⟨⟨⟨Nat.le_of_lt hlt, hmost⟩, ?_, ?_, ?_, h.nodup, ?_⟩, rfl, hlt, ?_⟩
    · intro s hs
      have : ¬(t.capacity ≤ s ∧ s < cap) := fun hc => absurd hs (by have := hc.1; show ¬ s < t.count; omega)
      simpa [this] using h.entries s hs
    · intro s hle hlt'
      have hc : t.capacity ≤ s ∧ s < cap := ⟨hfull ▸ hle, hlt'⟩
      simp [hc]
    · refine h.free.congr fun s hs => ?_
      have hs' := (h.empty s hs).1
      have : ¬(t.capacity ≤ s ∧ s < cap) := fun hc => absurd hs' (by have := hc.1; omega)
      simp [this]
    · intro s hs
      have hs' := (h.empty s hs).1
      have : ¬(t.capacity ≤ s ∧ s < cap) := fun hc => absurd hs' (by have := hc.1; omega)
      simpa [this] using h.empty s hs
    · intro s hs
      have : ¬(t.capacity ≤ s ∧ s < cap) := fun hc => absurd hs (by have := hc.1; omega)
      simp [this]
  · rw [if_neg hfull] at hg
    cases hg
    have := h.count_le
    exact ⟨h, rfl, by omega, fun _ _ => rfl⟩

/-- A slot behind the used ones, once it is in a good epoch, extends the invariant. -/
theorem Good.push (h : Good cfg t fl) (hroom : t.count < t.capacity) (hg : EntryGood cfg entry) (key : UInt64) :
    Good cfg { t with slots := update t.slots t.count entry, count := t.count + 1, handleSecret := key } fl := by
  refine ⟨⟨hroom, h.count_le.2⟩, ?_, ?_, ?_, h.nodup, ?_⟩
  · intro s hs
    by_cases hne : s = t.count
    · subst hne; simpa using hg
    have hs' : s < t.count := by
      have : s < t.count + 1 := hs
      omega
    simpa [update_of_ne hne] using h.entries s hs'
  · intro s hle hlt
    have hle' : t.count + 1 ≤ s := hle
    have hne : s ≠ t.count := by omega
    simpa [update_of_ne hne] using h.unused s (by omega) hlt
  · refine h.free.congr fun s hs => ?_
    have hne : s ≠ t.count := fun heq => absurd (h.empty s hs).1 (by omega)
    simp [update_of_ne hne]
  · intro s hs
    have hlt := (h.empty s hs).1
    have hne : s ≠ t.count := by omega
    refine ⟨Nat.lt_succ_of_lt hlt, ?_⟩
    simpa [update_of_ne hne] using (h.empty s hs).2

/-- **First activation of a slot**, with and without a family. -/
theorem activateNew_spec (entropy : UInt64) (hf : FamilyOk cfg) {object : Option Obj}
    (hslot : t.slots slot = ⟨object, 0, if cfg.family ≠ 0 then 0 else 1, 0, 0, 0⟩) :
    ∃ entry key, activateNew cfg t slot entropy = ({ t.set slot entry with handleSecret := key }, none) ∧
      EntryGood cfg entry ∧ entry.object = object ∧ entry.nextFreePlusOne = 0 := by
  by_cases hz : cfg.family = 0
  · refine ⟨⟨object, 1, 1, 0, 0, 0⟩, t.handleSecret, ?_, ⟨Nat.le_refl _, ?_, fun hne => absurd hz hne, ?_⟩, rfl, rfl⟩
    · simp [activateNew, hz, hslot, Table.set]
    · simp [epochLimit, hz, maxGeneration]
    · simp [genAt, hz]
  have hzero : (t.slots slot).sealMultiplier = 0 := by simp [hslot]
  obtain ⟨entry, key, heq, ha⟩ := refreshFamilyGeneration_fresh entropy hf hz hzero (by simp [hslot])
    (by simp [hslot, hz])
  refine ⟨entry, key, ?_, ha.good, ?_, ?_⟩
  · rw [activateNew, if_pos hz, heq]
  · rw [ha.object, hslot]
  · rw [ha.link, hslot]

/-- **A slot that was never used.** -/
theorem reserveNew_spec (hf : FamilyOk cfg) (h : Good cfg t fl) (object : Obj)
    (initialCapacity : Nat) (allocOk : Bool) (entropy : UInt64) :
    Good cfg (reserveNew cfg t object initialCapacity allocOk entropy).1 fl ∧
      match (reserveNew cfg t object initialCapacity allocOk entropy).2 with
      | .error _ => (reserveNew cfg t object initialCapacity allocOk entropy).1 = t
      | .ok g => Issues cfg t (reserveNew cfg t object initialCapacity allocOk entropy).1 (g, object) ∧
          g.slot = t.count := by
  by_cases hmax : maxSlots ≤ t.count
  · simp only [reserveNew, hmax, if_true]
    exact ⟨h, trivial⟩
  cases hgrow : grow t initialCapacity allocOk with
  | error e =>
    simp only [reserveNew, hmax, if_false, hgrow]
    exact ⟨h, trivial⟩
  | ok u =>
    obtain ⟨hu, hcount, hroom, hslots⟩ := grow_spec h (by omega) hgrow
    have hroom' : u.count < u.capacity := by omega
    have hzero : u.slots u.count = Slot.zero := hu.unused u.count (Nat.le_refl _) hroom'
    obtain ⟨entry, key, hact, hgood, hobj, hlink⟩ := activateNew_spec (t := u.pushSlot cfg object) entropy hf
      (show (u.pushSlot cfg object).slots u.count = ⟨some object, 0, if cfg.family ≠ 0 then 0 else 1, 0, 0, 0⟩ by
        simp [Table.pushSlot, hzero, Slot.zero])
    have hrelink : ({ entry with nextFreePlusOne := 0 } : Slot Obj) = entry := by rw [← hlink]
    have hresult : reserveNew cfg t object initialCapacity allocOk entropy =
        ({ u with slots := update u.slots u.count entry, count := u.count + 1, handleSecret := key },
          .ok ⟨u.count, entry.generation⟩) := by
      simp only [reserveNew, hmax, if_false, hgrow, hact]
      simp only [Table.set, Table.pushSlot, update_self, update_idem, hrelink]
    rw [hresult]
    refine ⟨hu.push hroom' hgood key, ⟨by simp [hcount], by simp, by simp, by simpa using hobj, ?_, ?_, ?_⟩, hcount⟩
    · intro hlt
      exact absurd hlt (by simp [hcount])
    · intro hlt
      exact absurd hlt (by simp [hcount])
    · intro s hs hne
      have hne' : s ≠ u.count := hne
      simp only [update_of_ne hne', hslots s hs]
      exact Relinked.refl _

/-- **`reserve`** keeps the invariant; on success it issues a handle of a slot that had no object. -/
theorem reserve_spec (hf : FamilyOk cfg) (h : Good cfg t fl) (object : Obj)
    (initialCapacity : Nat) (allocOk : Bool) (entropy : UInt64) :
    (∃ fl', Good cfg (reserve cfg t object initialCapacity allocOk entropy).1 fl') ∧
      match (reserve cfg t object initialCapacity allocOk entropy).2 with
      | .error _ => TableRelinked t (reserve cfg t object initialCapacity allocOk entropy).1
      | .ok g => Issues cfg t (reserve cfg t object initialCapacity allocOk entropy).1 (g, object) ∧
          (g.slot < t.count → (t.slots g.slot).object = none) := by
  have hfam : (decide (cfg.family ≠ 0) && !familyValid cfg.family) = false := by
    rcases hf with h0 | hv
    · simp [h0]
    · simp [hv]
  obtain ⟨fl', hgood, heff⟩ := reserveFree_spec hf object entropy fl (t.count + 1) t h
    (Nat.lt_succ_of_le h.length_le)
  unfold reserve
  simp only [hfam, Bool.false_eq_true, if_false]
  rcases hr : reserveFree cfg object entropy (t.count + 1) t with ⟨u, _ | g⟩
  · rw [hr] at hgood heff
    obtain ⟨hgood', hnew⟩ := reserveNew_spec hf hgood object initialCapacity allocOk entropy
    refine ⟨⟨fl', hgood'⟩, ?_⟩
    cases hn : (reserveNew cfg u object initialCapacity allocOk entropy).2 with
    | error e =>
      simp only [hn] at hnew ⊢
      rw [hnew]
      exact heff.1
    | ok g =>
      simp only [hn] at hnew ⊢
      refine ⟨hnew.1.of_relinked heff.1, fun hlt => ?_⟩
      have hcount : u.count = t.count := heff.1.count
      exact absurd hlt (by rw [hnew.2, hcount]; omega)
  · rw [hr] at hgood heff
    exact ⟨⟨fl', hgood⟩, heff⟩

section Objects

variable [DecidableEq Obj]

/-- **`reactivate`** keeps the invariant; on success it issues a new handle of the same slot and object, and on failure
it changes nothing. -/
theorem reactivate_spec {t : Table Obj} {fl : List Nat} (hf : FamilyOk cfg) (h : Good cfg t fl) (slot : Nat)
    (object : Obj) (entropy : UInt64) : Good cfg (reactivate cfg t slot object entropy).1 fl ∧
      match (reactivate cfg t slot object entropy).2 with
      | .error _ => (reactivate cfg t slot object entropy).1 = t
      | .ok g => Issues cfg t (reactivate cfg t slot object entropy).1 (g, object) ∧ g.slot = slot := by
  have hfam : (decide (cfg.family ≠ 0) && !familyValid cfg.family) = false := by
    rcases hf with h0 | hv
    · simp [h0]
    · simp [hv]
  unfold reactivate
  simp only [hfam, Bool.or_false, decide_eq_true_eq]
  split
  · exact ⟨h, rfl⟩
  rename_i hslot
  split
  · exact ⟨h, rfl⟩
  rename_i hobj
  split
  · exact ⟨h, rfl⟩
  rename_i hx
  have hobj' : (t.slots slot).object = some object := by simpa using hobj
  have hlt : slot < t.count := by omega
  have hentry := h.entries slot hlt
  have hnot : slot ∉ fl := fun hm => by
    have := (h.empty slot hm).2
    rw [hobj'] at this
    cases this
  obtain ⟨entry', hadv, hact⟩ := advance_spec entropy hf hentry (by simpa using hx)
  have hsame : ({ entry' with object := some object } : Slot Obj) = entry' := by
    rw [← hobj', ← hact.object]
  have hi := Issues.of_activated object hlt hentry.pos hact hsame.symm
  rw [hadv]
  exact ⟨h.set hlt hnot hact.good, by simpa using hi, rfl⟩

/-- **`release`** either matches nothing and changes nothing, or empties the slot of exactly that handle. -/
theorem release_spec {t : Table Obj} {fl : List Nat} (h : Good cfg t fl) (slot : Nat) (object : Obj)
    (generation : Nat) : (∃ fl', Good cfg (release t slot object generation) fl') ∧
      (release t slot object generation = t ∧
          ¬(slot < t.count ∧ (t.slots slot).object = some object ∧ (t.slots slot).generation = generation) ∨
        slot < t.count ∧ (t.slots slot).object = some object ∧ (t.slots slot).generation = generation ∧
          (release t slot object generation).count = t.count ∧ ∀ s, (release t slot object generation).slots s =
            if s = slot then { t.slots slot with object := none, nextFreePlusOne := t.freeHeadPlusOne }
            else t.slots s) := by
  unfold release
  split
  · rename_i hslot
    exact ⟨⟨fl, h⟩, .inl ⟨rfl, fun hc => by omega⟩⟩
  rename_i hslot
  dsimp only
  split
  · rename_i hne
    refine ⟨⟨fl, h⟩, .inl ⟨rfl, fun hc => ?_⟩⟩
    simp [hc.2.1, hc.2.2] at hne
  rename_i hmatch
  simp only [Bool.or_eq_true, decide_eq_true_eq, not_or, ne_eq, not_not] at hmatch
  obtain ⟨hobj, hgen⟩ := hmatch
  have hlt : slot < t.count := by omega
  have hnot : slot ∉ fl := fun hm => by
    have := (h.empty slot hm).2
    rw [hobj] at this
    cases this
  refine ⟨⟨slot :: fl, h.count_le, ?_, ?_, ?_, List.nodup_cons.mpr ⟨hnot, h.nodup⟩, ?_⟩, .inr ⟨hlt, hobj, hgen, rfl, ?_⟩⟩
  · intro s hs
    by_cases hne : s = slot
    · subst hne
      have hg := h.entries s hlt
      simpa using (⟨hg.pos, hg.le, hg.sealOk, hg.generation⟩ : EntryGood cfg
        { t.slots s with object := none, nextFreePlusOne := t.freeHeadPlusOne })
    · simpa [update_of_ne hne] using h.entries s hs
  · intro s hle hcap
    have hle' : t.count ≤ s := hle
    have hne : s ≠ slot := by omega
    simpa [update_of_ne hne] using h.unused s hle hcap
  · refine .cons ?_
    have hlink : ((t.set slot { t.slots slot with object := none, nextFreePlusOne := t.freeHeadPlusOne }).slots
        slot).nextFreePlusOne = t.freeHeadPlusOne := by simp
    rw [hlink]
    refine h.free.congr fun s hs => ?_
    have hne : s ≠ slot := fun heq => hnot (heq ▸ hs)
    simp [update_of_ne hne]
  · intro s hs
    rcases List.mem_cons.mp hs with rfl | hs
    · exact ⟨hlt, by simp⟩
    · have hne : s ≠ slot := fun heq => hnot (heq ▸ hs)
      simpa [update_of_ne hne] using h.empty s hs
  · intro s
    by_cases hne : s = slot
    · subst hne; simp
    · simp [hne]

end Objects

end Llam.PublicSlot
