import Mathlib

/-!
# Grants and tickets

A registry keeps objects in slots. The grant in a slot names the object by a number that is never given twice, and says
which generation of it is current, what may be done with it and by whom. A ticket names an object, a generation of it,
some rights and a subject, and the epoch it was issued in. The registry honours a ticket if the current grant of the
object is of the ticket's generation and the current epoch is the ticket's.

Whatever the registry does (`Change`), an honoured ticket never says more than the grant, which never says more than the
object was created with (`Registry.Ok.honoured`), and a ticket that is not honoured is never honoured again
(`Changes.dead`).
-/

namespace Llam.Lib

open Function

variable {K I S R : Type}

/-- What a slot says about the object in it. -/
structure Grant (S R : Type) where
  id : Nat
  generation : Nat
  rights : R
  subject : S

structure Ticket (K S R : Type) where
  kind : K
  id : Nat
  generation : Nat
  rights : R
  subject : S
  epoch : Nat

/-- The slots for the objects of every kind, the next number of every kind, the current epoch, the tickets that were issued
and the rights that the objects were created with. -/
@[ext]
structure Registry (K I S R : Type) where
  slots : K → I → Option (Grant S R)
  next : K → Nat
  epoch : Nat
  tickets : Set (Ticket K S R)
  created : K → Nat → Option R

open Registry

/-! ## Slots -/

section Slots

variable [DecidableEq K] [DecidableEq I] {w : Registry K I S R}

def Registry.setSlot (w : Registry K I S R) (k : K) (i : I) (g : Option (Grant S R)) : Registry K I S R :=
  { w with slots := update w.slots k (update (w.slots k) i g) }

@[simp] theorem Registry.setSlot_self (w : Registry K I S R) (k : K) (i : I) (g : Option (Grant S R)) :
    (w.setSlot k i g).slots k i = g := by
  simp [Registry.setSlot]

theorem Registry.setSlot_of_ne {k l : K} {i j : I} {g : Option (Grant S R)} (h : ¬ (l = k ∧ j = i)) :
    (w.setSlot k i g).slots l j = w.slots l j := by
  simp only [Registry.setSlot]
  rcases eq_or_ne l k with rfl | hl
  · rw [update_self, update_of_ne fun hj => h ⟨rfl, hj⟩]
  · rw [update_of_ne hl]

theorem Registry.setSlot_cases {k l : K} {i j : I} {g : Option (Grant S R)} {h : Grant S R}
    (hslot : (w.setSlot k i g).slots l j = some h) : (l = k ∧ j = i ∧ g = some h) ∨ w.slots l j = some h := by
  by_cases hsame : l = k ∧ j = i
  · obtain ⟨rfl, rfl⟩ := hsame
    rw [setSlot_self] at hslot
    exact .inl ⟨rfl, rfl, hslot⟩
  · rw [setSlot_of_ne hsame] at hslot
    exact .inr hslot

end Slots

/-! ## Changes -/

section Changes

variable [DecidableEq K] [DecidableEq I] [PartialOrder R] [OrderBot R] {w w' : Registry K I S R} {t : Ticket K S R}

/-- A new object of kind `k` in slot `i`. -/
def Registry.create (w : Registry K I S R) (k : K) (i : I) (generation : Nat) (rights : R) (subject : S) :
    Registry K I S R :=
  { w.setSlot k i (some ⟨w.next k, generation, rights, subject⟩) with
    next := update w.next k (w.next k + 1)
    created := update w.created k (update (w.created k) (w.next k) (some rights)) }

/-- **What a registry does.** A ticket is issued for a grant, a grant is replaced by a weaker one of a later generation or
by one without rights, a slot is cleared or used for a new object, and the epoch advances. -/
inductive Change : Registry K I S R → Registry K I S R → Prop
  | create (w : Registry K I S R) (k : K) (i : I) (generation : Nat) (rights : R) (subject : S) :
    Change w (w.create k i generation rights subject)
  | issue {w : Registry K I S R} {i : I} {g : Grant S R} (t : Ticket K S R) (hslot : w.slots t.kind i = some g)
      (hid : t.id = g.id) (hgeneration : t.generation = g.generation) (hsubject : t.subject = g.subject)
      (hrights : t.rights ≤ g.rights ∨ g.rights = ⊥) (hepoch : t.epoch ≤ w.epoch) :
    Change w { w with tickets := insert t w.tickets }
  | weaken {w : Registry K I S R} {k : K} {i : I} {g : Grant S R} (generation : Nat) (rights : R)
      (hslot : w.slots k i = some g) (hrights : rights ≤ g.rights)
      (hlater : g.generation < generation ∨ generation = g.generation ∧ rights = ⊥) :
    Change w (w.setSlot k i (some { g with generation := generation, rights := rights }))
  | clear (w : Registry K I S R) (k : K) (i : I) : Change w (w.setSlot k i none)
  | advance {w : Registry K I S R} (epoch : Nat) (h : w.epoch ≤ epoch) : Change w { w with epoch := epoch }

/-- Any number of changes. -/
abbrev Changes : Registry K I S R → Registry K I S R → Prop := Relation.ReflTransGen Change

/-- A slot is cleared, or its grant replaced by a weaker one. -/
inductive Lowers : Option (Grant S R) → Option (Grant S R) → Prop
  | same (g : Option (Grant S R)) : Lowers g g
  | clear (g : Option (Grant S R)) : Lowers g none
  | weaken {g : Grant S R} (generation : Nat) (rights : R) (hrights : rights ≤ g.rights)
      (hlater : g.generation < generation ∨ generation = g.generation ∧ rights = ⊥) :
    Lowers (some g) (some { g with generation := generation, rights := rights })

theorem Registry.setSlot_same (w : Registry K I S R) (k : K) (i : I) : w.setSlot k i (w.slots k i) = w := by
  unfold Registry.setSlot
  rw [update_eq_self, update_eq_self]

variable {k : K} {i : I} {g : Grant S R}

theorem Lowers.changes {g : Option (Grant S R)} (h : Lowers (w.slots k i) g) : Changes w (w.setSlot k i g) := by
  generalize hslot : w.slots k i = g₀ at h
  cases h with
  | same =>
    rw [← hslot, setSlot_same]
  | clear => exact .single (.clear w k i)
  | weaken generation rights hrights hlater => exact .single (.weaken generation rights hslot hrights hlater)

/-- The slots of a kind are lowered one after another. -/
theorem Changes.lower [Finite I] (k : K) {slots : I → Option (Grant S R)} (h : ∀ i, Lowers (w.slots k i) (slots i)) :
    Changes w { w with slots := update w.slots k slots } := by
  have := Fintype.ofFinite I
  -- those of a set `s` are lowered already
  have hpart : ∀ s : Finset I, Changes w
      { w with slots := update w.slots k fun i => if i ∈ s then slots i else w.slots k i } := by
    intro s
    induction s using Finset.induction with
    | empty =>
      simp only [Finset.notMem_empty, if_false, update_eq_self]
      exact .refl
    | insert i s hi ih =>
      refine ih.trans ?_
      let part : I → Option (Grant S R) := fun j => if j ∈ s then slots j else w.slots k j
      have hlowers : Lowers (update w.slots k part k i) (slots i) := by
        simpa [part, hi] using h i
      have hstep := Lowers.changes (w := { w with slots := update w.slots k part }) hlowers
      have hnext : update part i (slots i) = fun j => if j ∈ insert i s then slots j else w.slots k j := by
        funext j
        rcases eq_or_ne j i with rfl | hj
        · simp
        · simp [part, hj]
      simp only [Registry.setSlot, update_self, update_idem, hnext] at hstep
      exact hstep
  have hall := hpart Finset.univ
  simp only [Finset.mem_univ, if_true] at hall
  exact hall

/-! ## The invariant -/

/-- The grant `g` backs the ticket: it is of a later generation, or it says at least as much, or it says nothing. -/
def Grant.Backs (g : Grant S R) (t : Ticket K S R) : Prop :=
  t.generation < g.generation ∨
    t.generation = g.generation ∧ t.subject = g.subject ∧ (t.rights ≤ g.rights ∨ g.rights = ⊥)

structure Registry.Ok (w : Registry K I S R) : Prop where
  slot : ∀ k i g, w.slots k i = some g → g.id < w.next k
  created : ∀ k i g, w.slots k i = some g → ∃ r, w.created k g.id = some r ∧ g.rights ≤ r
  unique : ∀ k i j g h, w.slots k i = some g → w.slots k j = some h → g.id = h.id → i = j
  ticket : ∀ t ∈ w.tickets, t.id < w.next t.kind ∧ t.epoch ≤ w.epoch
  backed : ∀ t ∈ w.tickets, ∀ i g, w.slots t.kind i = some g → g.id = t.id → g.Backs t

/-- The registry honours the ticket. -/
def Registry.Honours (w : Registry K I S R) (t : Ticket K S R) : Prop :=
  t.epoch = w.epoch ∧ ∃ i g, w.slots t.kind i = some g ∧ g.id = t.id ∧ g.generation = t.generation ∧ g.rights ≠ ⊥

/-- **No amplification**: an honoured ticket says no more than the grant, and the grant no more than what the object was
created with. -/
theorem Registry.Ok.honoured (hok : w.Ok) (ht : t ∈ w.tickets) (hslot : w.slots t.kind i = some g)
    (hid : g.id = t.id) (hgeneration : g.generation = t.generation) (hrights : g.rights ≠ ⊥) :
    t.rights ≤ g.rights ∧ t.subject = g.subject ∧ ∃ r, w.created t.kind t.id = some r ∧ g.rights ≤ r := by
  obtain hlater | ⟨-, hsubject, hle | hnone⟩ := hok.backed t ht i g hslot hid
  · omega
  · exact ⟨hle, hsubject, hid ▸ hok.created t.kind i g hslot⟩
  · exact absurd hnone hrights

theorem Registry.next_le_create (w : Registry K I S R) (k : K) (i : I) (generation : Nat) (rights : R) (subject : S)
    (l : K) : w.next l ≤ (w.create k i generation rights subject).next l := by
  show w.next l ≤ update w.next k (w.next k + 1) l
  rcases eq_or_ne l k with rfl | hl
  · rw [update_self]
    exact Nat.le_succ _
  · rw [update_of_ne hl]

theorem Registry.Ok.create (hok : w.Ok) (k : K) (i : I) (generation : Nat) (rights : R) (subject : S) :
    (w.create k i generation rights subject).Ok := by
  have hnext := w.next_le_create k i generation rights subject
  -- a grant that was there keeps its number, which is not the new one
  have hold : ∀ l j g, w.slots l j = some g →
      update w.created k (update (w.created k) (w.next k) (some rights)) l g.id =
        w.created l g.id := by
    intro l j g hg
    rcases eq_or_ne l k with rfl | hl
    · rw [update_self, update_of_ne (Nat.ne_of_lt (hok.slot l j g hg))]
    · rw [update_of_ne hl]
  refine ⟨fun l j g hg => ?_, fun l j g hg => ?_, fun l a b g h hg hh hid => ?_, fun t ht => ?_, fun t ht j g hg hid => ?_⟩
  · rcases setSlot_cases hg with ⟨rfl, rfl, heq⟩ | hg
    · cases heq
      show w.next l < update w.next l (w.next l + 1) l
      rw [update_self]
      exact Nat.lt_succ_self _
    · exact Nat.lt_of_lt_of_le (hok.slot l j g hg) (hnext l)
  · rcases setSlot_cases hg with ⟨rfl, rfl, heq⟩ | hg
    · cases heq
      refine ⟨rights, ?_, le_refl _⟩
      show update w.created l _ l (w.next l) = some rights
      rw [update_self, update_self]
    · obtain ⟨r, hr, hle⟩ := hok.created l j g hg
      exact ⟨r, (hold l j g hg).trans hr, hle⟩
  · rcases setSlot_cases hg with ⟨rfl, rfl, heq⟩ | hg' <;>
      rcases setSlot_cases hh with ⟨hl, rfl, heq'⟩ | hh'
    · rfl
    · cases heq
      exact absurd hid (Nat.ne_of_gt (hok.slot l b h hh'))
    · cases heq'
      exact absurd hid (Nat.ne_of_lt (hl ▸ hok.slot l a g hg'))
    · exact hok.unique l a b g h hg' hh' hid
  · obtain ⟨hid, hepoch⟩ := hok.ticket t ht
    exact ⟨Nat.lt_of_lt_of_le hid (hnext t.kind), hepoch⟩
  · rcases setSlot_cases hg with ⟨hk, rfl, heq⟩ | hg
    · cases heq
      exact absurd hid (Nat.ne_of_gt (hk ▸ (hok.ticket t ht).1))
    · exact hok.backed t ht j g hg hid

theorem Registry.Ok.weaken (hok : w.Ok) {generation : Nat} {rights : R}
    (hslot : w.slots k i = some g) (hrights : rights ≤ g.rights)
    (hlater : g.generation < generation ∨ generation = g.generation ∧ rights = ⊥) :
    (w.setSlot k i (some { g with generation := generation, rights := rights })).Ok := by
  refine ⟨fun l j h hh => ?_, fun l j h hh => ?_, fun l a b h h' hh hh' hid => ?_, hok.ticket, fun t ht j h hh hid => ?_⟩
  · rcases setSlot_cases hh with ⟨rfl, rfl, heq⟩ | hh
    · cases heq
      exact hok.slot l j g hslot
    · exact hok.slot l j h hh
  · rcases setSlot_cases hh with ⟨rfl, rfl, heq⟩ | hh
    · cases heq
      obtain ⟨r, hr, hle⟩ := hok.created l j g hslot
      exact ⟨r, hr, le_trans hrights hle⟩
    · exact hok.created l j h hh
  · rcases setSlot_cases hh with ⟨rfl, rfl, heq⟩ | hold <;>
      rcases setSlot_cases hh' with ⟨hl, rfl, heq'⟩ | hold'
    · rfl
    · cases heq
      exact hok.unique l a b g h' hslot hold' hid
    · cases heq'
      exact hok.unique l a b h g hold (hl ▸ hslot) hid
    · exact hok.unique l a b h h' hold hold' hid
  · rcases setSlot_cases hh with ⟨hk, rfl, heq⟩ | hh
    · cases heq
      -- the ticket was of this generation at most
      have hbacks := hok.backed t ht j g (hk ▸ hslot) hid
      rcases hlater with hlater | ⟨hsame, hnone⟩
      · refine .inl ?_
        rcases hbacks with hlt | ⟨heq, -⟩
        · exact Nat.lt_trans hlt hlater
        · exact heq ▸ hlater
      · rcases hbacks with hlt | ⟨heq, hsubject, -⟩
        · exact .inl (hsame ▸ hlt)
        · exact .inr ⟨heq.trans hsame.symm, hsubject, .inr hnone⟩
    · exact hok.backed t ht j h hh hid

theorem Registry.Ok.clear (hok : w.Ok) (k : K) (i : I) : (w.setSlot k i none).Ok := by
  -- what is left was there before
  have hleft : ∀ l j g, (w.setSlot k i none).slots l j = some g → w.slots l j = some g := by
    intro l j g hg
    rcases setSlot_cases hg with ⟨-, -, heq⟩ | hg
    · cases heq
    · exact hg
  exact ⟨fun l j g hg => hok.slot l j g (hleft l j g hg), fun l j g hg => hok.created l j g (hleft l j g hg),
    fun l a b g h hg hh => hok.unique l a b g h (hleft l a g hg) (hleft l b h hh), hok.ticket,
    fun t ht j g hg => hok.backed t ht j g (hleft t.kind j g hg)⟩

theorem Change.ok (h : Change w w') (hok : w.Ok) : w'.Ok := by
  cases h with
  | create k i generation rights subject => exact hok.create k i generation rights subject
  | @issue i g t hslot hid hgeneration hsubject hrights hepoch =>
    refine ⟨hok.slot, hok.created, hok.unique, fun u hu => ?_, fun u hu j h hh huid => ?_⟩
    · rcases hu with rfl | hu
      · exact ⟨hid ▸ hok.slot u.kind i g hslot, hepoch⟩
      · exact hok.ticket u hu
    · rcases hu with rfl | hu
      · -- the grant of the ticket is the one it was issued for
        have hij := hok.unique u.kind j i h g hh hslot (huid.trans hid)
        have hgrant : h = g := Option.some.inj ((hij ▸ hh).symm.trans hslot)
        exact .inr ⟨hgrant ▸ hgeneration, hgrant ▸ hsubject, hgrant ▸ hrights⟩
      · exact hok.backed u hu j h hh huid
  | weaken generation rights hslot hrights hlater => exact hok.weaken hslot hrights hlater
  | clear k i => exact hok.clear k i
  | advance epoch hle =>
    exact ⟨hok.slot, hok.created, hok.unique, fun t ht => ⟨(hok.ticket t ht).1, le_trans (hok.ticket t ht).2 hle⟩,
      hok.backed⟩

theorem Changes.ok (h : Changes w w') (hok : w.Ok) : w'.Ok := by
  induction h with
  | refl => exact hok
  | tail _ hchange ih => exact hchange.ok ih

theorem Changes.tickets (h : Changes w w') (ht : t ∈ w.tickets) : t ∈ w'.tickets := by
  induction h with
  | refl => exact ht
  | tail _ hchange ih =>
    cases hchange with
    | issue => exact Set.mem_insert_of_mem _ ih
    | create | weaken | clear | advance => exact ih

theorem Changes.epoch_le (h : Changes w w') : w.epoch ≤ w'.epoch := by
  induction h with
  | refl => exact Nat.le_refl _
  | tail _ hchange ih =>
    cases hchange with
    | advance epoch hle => exact Nat.le_trans ih hle
    | create | issue | weaken | clear => exact ih

/-! ## Revocation -/

theorem Change.dead (h : Change w w') (hok : w.Ok) (ht : t ∈ w.tickets) (hdead : ¬ w.Honours t) : ¬ w'.Honours t := by
  rintro ⟨hepoch, j, g, hg, hid, hgeneration, hrights⟩
  have hticket := hok.ticket t ht
  cases h with
  | @create k i generation rights subject =>
    rcases setSlot_cases hg with ⟨hk, rfl, heq⟩ | hg
    · cases heq
      exact absurd hid (Nat.ne_of_gt (hk ▸ hticket.1))
    · exact hdead ⟨hepoch, j, g, hg, hid, hgeneration, hrights⟩
  | issue => exact hdead ⟨hepoch, j, g, hg, hid, hgeneration, hrights⟩
  | @weaken k i g₀ generation rights hslot hle hlater =>
    rcases setSlot_cases hg with ⟨hk, rfl, heq⟩ | hg
    · cases heq
      -- the new grant is of a later generation than the ticket
      rcases hlater with hlater | ⟨-, hnone⟩
      · have hbacks := hok.backed t ht j g₀ (hk ▸ hslot) hid
        rcases hbacks with hlt | ⟨heq, -⟩ <;> dsimp only at hgeneration <;> omega
      · exact hrights hnone
    · exact hdead ⟨hepoch, j, g, hg, hid, hgeneration, hrights⟩
  | clear k i =>
    rcases setSlot_cases hg with ⟨-, -, heq⟩ | hg
    · cases heq
    · exact hdead ⟨hepoch, j, g, hg, hid, hgeneration, hrights⟩
  | @advance epoch hle =>
    -- the epoch of the ticket is not later than the old one
    have hsame : t.epoch = w.epoch := le_antisymm hticket.2 (hepoch ▸ hle)
    exact hdead ⟨hsame, j, g, hg, hid, hgeneration, hrights⟩

/-- **Revocation is permanent**: a ticket that is not honoured is never honoured again. -/
theorem Changes.dead (h : Changes w w') (hok : w.Ok) (ht : t ∈ w.tickets) (hdead : ¬ w.Honours t) : ¬ w'.Honours t := by
  induction h with
  | refl => exact hdead
  | tail hchanges hchange ih => exact hchange.dead (Changes.ok hchanges hok) (Changes.tickets hchanges ht) ih

theorem Changes.next_le (h : Changes w w') (k : K) : w.next k ≤ w'.next k := by
  induction h with
  | refl => exact Nat.le_refl _
  | tail _ hchange ih =>
    cases hchange with
    | create l j generation rights subject =>
      exact Nat.le_trans ih (next_le_create _ l j generation rights subject k)
    | issue | weaken | clear | advance => exact ih

/-- **Numbers are not given twice**: an object that is in no slot stays so. -/
theorem Changes.gone (h : Changes w w') {id : Nat} (hid : id < w.next k)
    (hgone : ∀ i g, w.slots k i = some g → g.id ≠ id) : ∀ i g, w'.slots k i = some g → g.id ≠ id := by
  induction h with
  | refl => exact hgone
  | tail hchanges hchange ih =>
    intro i g hg
    cases hchange with
    | create l j generation rights subject =>
      rcases setSlot_cases hg with ⟨rfl, rfl, heq⟩ | hg
      · cases heq
        exact Nat.ne_of_gt (Nat.lt_of_lt_of_le hid (Changes.next_le hchanges k))
      · exact ih i g hg
    | weaken generation rights hslot hrights hlater =>
      rcases setSlot_cases hg with ⟨rfl, rfl, heq⟩ | hg
      · cases heq
        have hold := ih _ _ hslot
        exact hold
      · exact ih i g hg
    | clear l j =>
      rcases setSlot_cases hg with ⟨-, -, heq⟩ | hg
      · cases heq
      · exact ih i g hg
    | issue | advance => exact ih i g hg

/-- A ticket is dead if a grant of its object is of a later generation. -/
theorem Registry.Ok.dead_of_later (hok : w.Ok) (hslot : w.slots t.kind i = some g)
    (hid : g.id = t.id) (hlater : t.generation < g.generation) : ¬ w.Honours t := by
  rintro ⟨-, j, h, hh, hhid, hgeneration, -⟩
  have hij := hok.unique t.kind j i h g hh hslot (hhid.trans hid.symm)
  have hgrant : h = g := Option.some.inj ((hij ▸ hh).symm.trans hslot)
  rw [hgrant] at hgeneration
  omega

theorem Registry.dead_of_epoch (h : t.epoch ≠ w.epoch) : ¬ w.Honours t := fun hhonours => h hhonours.1

end Changes

end Llam.Lib
