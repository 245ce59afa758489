import Mathlib

/-!
# Heaps that know the places of their entries

An array of entries with the place of each entry written down. The array is a heap of some arity if no entry is later
than its children; what "later" means is left to a key. The functions here move entries by comparing them with a test
`less` that may tell more than the keys do, but never contradicts them.

An entry that is too early for its place is moved up (`siftUp_ordered`) and one that is too late is moved down
(`siftDown_ordered`). Moving down the first `k` places, the last one first, makes a heap of any array whose places from
`k` on are in order (`rebuild_ordered`).
-/

namespace Llam.Lib

open Function

/-- The first `len` entries of `item` are the array; `pos` has the place of an entry. -/
structure Slots (α : Type) where
  item : Nat → α
  len : Nat
  pos : α → Nat

namespace Slots

variable {α : Type}

/-- The array as a list. -/
def toList (s : Slots α) : List α := (List.range s.len).map s.item

/-- The entries know their places. -/
def Indexed (s : Slots α) : Prop := ∀ i, i < s.len → s.pos (s.item i) = i

section operations

variable [DecidableEq α] (less : α → α → Bool) (arity : Nat)

/-- An entry is put to a place, which it is told. -/
def put (s : Slots α) (i : Nat) (x : α) : Slots α :=
  { s with item := update s.item i x, pos := update s.pos x i }

def swap (s : Slots α) (i j : Nat) : Slots α :=
  { s with
    item := update (update s.item i (s.item j)) j (s.item i)
    pos := update (update s.pos (s.item j) i) (s.item i) j }

def parent (i : Nat) : Nat := (i - 1) / arity

/-- The entry at `i` is moved up; a round brings it to a smaller place. -/
def siftUpLoop : Nat → Slots α → Nat → Slots α
  | 0, s, _ => s
  | rounds + 1, s, i =>
    if 0 < i ∧ less (s.item i) (s.item (parent arity i)) then
      siftUpLoop rounds (s.swap i (parent arity i)) (parent arity i)
    else s

def siftUp (s : Slots α) (i : Nat) : Slots α := siftUpLoop less arity i s i

/-- The children of a place. -/
def children (s : Slots α) (i : Nat) : List Nat := List.range' (arity * i + 1) (min arity (s.len - (arity * i + 1)))

/-- The place of the earliest among the entry at `i` and its children. -/
def best (s : Slots α) (i : Nat) : Nat :=
  (s.children arity i).foldl (fun best child => if less (s.item child) (s.item best) then child else best) i

/-- The entry at `i` is moved down; a round brings it to a larger place. -/
def siftDownLoop : Nat → Slots α → Nat → Slots α
  | 0, s, _ => s
  | rounds + 1, s, i =>
    if s.best less arity i = i then s
    else siftDownLoop rounds (s.swap i (s.best less arity i)) (s.best less arity i)

def siftDown (s : Slots α) (i : Nat) : Slots α := siftDownLoop less arity s.len s i

/-- The entries of the places below `k` are moved down, the last one first. -/
def rebuild : Nat → Slots α → Slots α
  | 0, s => s
  | k + 1, s => rebuild k (s.siftDown less arity k)

/-- A new entry at the end. -/
def push (s : Slots α) (x : α) : Slots α := siftUp less arity { s.put s.len x with len := s.len + 1 } s.len

/-- The last entry takes the place `i`, and is moved up or down from there. -/
def fill (s : Slots α) (i : Nat) : Slots α :=
  let s := { s with len := s.len - 1 }
  if i ≠ s.len then
    let last := s.item s.len
    let s := s.put i last
    if 0 < i ∧ less last (s.item (parent arity i)) then s.siftUp less arity i else s.siftDown less arity i
  else s

end operations

/-! ## Places -/

section places

variable {arity i j : Nat}

theorem parent_lt (arity : Nat) (h : 0 < i) : parent arity i < i := by
  have hle := Nat.div_le_self (i - 1) arity
  unfold parent
  omega

theorem parent_eq_iff (harity : 0 < arity) (hj : 0 < j) :
    parent arity j = i ↔ arity * i + 1 ≤ j ∧ j < arity * i + 1 + arity := by
  unfold parent
  rw [Nat.div_eq_iff harity, Nat.mul_comm]
  omega

theorem mem_children {s : Slots α} (harity : 0 < arity) :
    j ∈ s.children arity i ↔ 0 < j ∧ parent arity j = i ∧ j < s.len := by
  rw [children, List.mem_range'_1]
  constructor
  · intro h
    have hj : 0 < j := by omega
    rw [parent_eq_iff harity hj]
    omega
  · rintro ⟨hj, hparent, hlen⟩
    rw [parent_eq_iff harity hj] at hparent
    omega

end places

/-! ## Exchanging entries -/

section exchange

variable [DecidableEq α] {s : Slots α} {i j k : Nat}

@[simp] theorem swap_len : (s.swap i j).len = s.len := rfl

theorem swap_item_left : (s.swap i j).item i = s.item j := by
  by_cases h : i = j
  · subst h
    simp [swap]
  · simp [swap, h]

theorem swap_item_right : (s.swap i j).item j = s.item i := by
  simp [swap]

theorem swap_item_other (hi : k ≠ i) (hj : k ≠ j) : (s.swap i j).item k = s.item k := by
  simp [swap, hi, hj]

theorem map_range_update {n : Nat} (f : Nat → α) (x : α) :
    (List.range n).map (update f i x) = ((List.range n).map f).set i x := by
  apply List.ext_getElem
  · simp
  · intro k hk _
    simp only [List.getElem_map, List.getElem_range, List.getElem_set, update_apply, eq_comm]

theorem swap_perm (hi : i < s.len) (hj : j < s.len) : (s.swap i j).toList.Perm s.toList := by
  have hi' : i < ((List.range s.len).map s.item).length := by simpa using hi
  have hj' : j < ((List.range s.len).map s.item).length := by simpa using hj
  have hperm := List.set_set_perm hi' hj'
  simp only [List.getElem_map, List.getElem_range] at hperm
  simp only [toList, swap, map_range_update]
  exact hperm

theorem Indexed.ne (h : s.Indexed) (hi : i < s.len) (hj : j < s.len) (hne : i ≠ j) : s.item i ≠ s.item j := by
  intro heq
  apply hne
  rw [← h i hi, heq, h j hj]

theorem Indexed.swap (h : s.Indexed) (hi : i < s.len) (hj : j < s.len) : (s.swap i j).Indexed := by
  intro k hk
  by_cases hki : k = i
  · subst hki
    rw [swap_item_left]
    by_cases hkj : k = j
    · subst hkj
      simp [Slots.swap]
    · simp [Slots.swap, update_of_ne (h.ne hj hi (Ne.symm hkj))]
  · by_cases hkj : k = j
    · subst hkj
      simp [Slots.swap]
    rw [swap_item_other hki hkj]
    have hxi := h.ne hk hi hki
    have hxj := h.ne hk hj hkj
    simp only [Slots.swap, update_of_ne hxi, update_of_ne hxj]
    exact h k hk

end exchange

/-! ## Order -/

section order

variable [DecidableEq α] {less : α → α → Bool} {arity : Nat} {κ : Type} [LE κ] [Std.IsPreorder κ] {key : α → κ}
  {s : Slots α} {i low rounds : Nat}

/-- The entries from the place `low` on are no later than their children. -/
def OrderedFrom (arity : Nat) (key : α → κ) (low : Nat) (s : Slots α) : Prop :=
  ∀ j, 0 < j → j < s.len → low ≤ parent arity j → key (s.item (parent arity j)) ≤ key (s.item j)

/-- No entry is later than its children. -/
def Ordered (arity : Nat) (key : α → κ) (s : Slots α) : Prop := OrderedFrom arity key 0 s

/-- The test does not contradict the keys. -/
structure Compares (less : α → α → Bool) (key : α → κ) : Prop where
  le_of_less : ∀ x y, less x y = true → key x ≤ key y
  le_of_not_less : ∀ x y, less x y = false → key y ≤ key x

/-- Only the entry at `i` may be too early; its children may take its parent for theirs. -/
structure UpReady (arity : Nat) (key : α → κ) (s : Slots α) (i : Nat) : Prop where
  inside : i < s.len
  others : ∀ j, 0 < j → j < s.len → j ≠ i → key (s.item (parent arity j)) ≤ key (s.item j)
  below : ∀ j, 0 < j → j < s.len → parent arity j = i → 0 < i → key (s.item (parent arity i)) ≤ key (s.item j)

/-- Only the entry at `i` may be too late; its children may take its parent for theirs. -/
structure DownReady (arity : Nat) (key : α → κ) (low : Nat) (s : Slots α) (i : Nat) : Prop where
  inside : i < s.len
  others : ∀ j, 0 < j → j < s.len → low ≤ parent arity j → parent arity j ≠ i →
    key (s.item (parent arity j)) ≤ key (s.item j)
  below : ∀ j, 0 < j → j < s.len → parent arity j = i → 0 < i → low ≤ parent arity i →
    key (s.item (parent arity i)) ≤ key (s.item j)

/-- **The root of a heap is an earliest entry.** -/
theorem Ordered.root_le (h : Ordered arity key s) : ∀ j, j < s.len → key (s.item 0) ≤ key (s.item j) := by
  intro j
  induction j using Nat.strong_induction_on with
  | _ j ih =>
    intro hj
    rcases Nat.eq_zero_or_pos j with rfl | hpos
    · exact Std.le_refl _
    have hlt := parent_lt arity hpos
    have hroot := ih (parent arity j) hlt (by omega)
    exact Std.le_trans hroot (h j hpos hj (Nat.zero_le _))

/-! ### Up -/

variable (hless : Compares less key)

include hless

/-- A round moves the entry to the place of its parent, where it may still be too early. -/
theorem UpReady.swap (h : UpReady arity key s i) (hi : 0 < i) (hlt : less (s.item i) (s.item (parent arity i)) = true) :
    UpReady arity key (s.swap i (parent arity i)) (parent arity i) := by
  have hp := parent_lt arity hi
  have hedge : key (s.item i) ≤ key (s.item (parent arity i)) := hless.le_of_less _ _ hlt
  refine ⟨by rw [swap_len]; exact Nat.lt_trans hp h.inside, ?_, ?_⟩
  · intro j hj hjl hjp
    by_cases hji : j = i
    · subst hji
      rw [swap_item_left, swap_item_right]
      exact hedge
    rw [swap_item_other hji hjp]
    by_cases hpi : parent arity j = i
    · rw [hpi, swap_item_left]
      exact h.below j hj hjl hpi hi
    by_cases hpp : parent arity j = parent arity i
    · -- a sibling is no earlier than the old parent, which is no earlier than the entry
      rw [hpp, swap_item_right]
      have hold := h.others j hj hjl hji
      rw [hpp] at hold
      exact Std.le_trans hedge hold
    · rw [swap_item_other hpi hpp]
      exact h.others j hj hjl hji
  · intro j hj hjl hjp hpos
    have hgrand := parent_lt arity hpos
    rw [swap_item_other (by omega) (by omega)]
    have hup := h.others (parent arity i) hpos (Nat.lt_trans hp h.inside) (by omega)
    by_cases hji : j = i
    · subst hji
      rw [swap_item_left]
      exact hup
    have hne : j ≠ parent arity i := by
      have := parent_lt arity hj
      omega
    rw [swap_item_other hji hne]
    have hold := h.others j hj hjl hji
    rw [hjp] at hold
    exact Std.le_trans hup hold

theorem UpReady.stop (h : UpReady arity key s i)
    (hstop : ¬ (0 < i ∧ less (s.item i) (s.item (parent arity i)) = true)) : Ordered arity key s := by
  intro j hj hjl _
  by_cases hji : j = i
  · subst hji
    apply hless.le_of_not_less
    rw [← Bool.not_eq_true]
    intro hlt
    exact hstop ⟨hj, hlt⟩
  · exact h.others j hj hjl hji

theorem siftUpLoop_ordered : ∀ (rounds : Nat) (s : Slots α) (i : Nat),
    UpReady arity key s i → i ≤ rounds → Ordered arity key (siftUpLoop less arity rounds s i) := by
  intro rounds
  induction rounds with
  | zero =>
    intro s i h hle
    exact h.stop hless (by omega)
  | succ rounds ih =>
    intro s i h hle
    rw [siftUpLoop]
    split
    · rename_i hlt
      have hp := parent_lt arity hlt.1
      exact ih _ _ (h.swap hless hlt.1 hlt.2) (by omega)
    · rename_i hstop
      exact h.stop hless hstop

/-- **Moving an entry up** makes a heap of an array in which only this entry is too early. -/
theorem siftUp_ordered (h : UpReady arity key s i) : Ordered arity key (s.siftUp less arity i) :=
  siftUpLoop_ordered hless i s i h (Nat.le_refl _)

/-! ### Down -/

/-- The choice among some places: one of them or the first choice, and no later than any of them. -/
theorem choose_spec : ∀ (places : List Nat) (first : Nat),
    let b := places.foldl (fun best child => if less (s.item child) (s.item best) then child else best) first
    (b = first ∨ b ∈ places) ∧ key (s.item b) ≤ key (s.item first) ∧ ∀ c ∈ places, key (s.item b) ≤ key (s.item c) := by
  intro places
  induction places with
  | nil =>
    intro first
    exact ⟨.inl rfl, Std.le_refl _, fun _ hc => absurd hc List.not_mem_nil⟩
  | cons c places ih =>
    intro first
    simp only [List.foldl_cons]
    obtain ⟨hmem, hfirst, hall⟩ := ih (if less (s.item c) (s.item first) then c else first)
    have hstep : key (s.item (if less (s.item c) (s.item first) then c else first)) ≤ key (s.item first) ∧
        key (s.item (if less (s.item c) (s.item first) then c else first)) ≤ key (s.item c) := by
      split
      · rename_i hlt
        exact ⟨hless.le_of_less _ _ hlt, Std.le_refl _⟩
      · rename_i hnot
        exact ⟨Std.le_refl _, hless.le_of_not_less _ _ (Bool.eq_false_iff.mpr hnot)⟩
    refine ⟨?_, Std.le_trans hfirst hstep.1, ?_⟩
    · rcases hmem with hb | hb
      · rw [hb]
        split
        · exact .inr List.mem_cons_self
        · exact .inl rfl
      · exact .inr (List.mem_cons_of_mem _ hb)
    · intro d hd
      rcases List.mem_cons.mp hd with rfl | hd
      · exact Std.le_trans hfirst hstep.2
      · exact hall d hd

variable (harity : 0 < arity)

include harity

theorem best_spec (s : Slots α) (i : Nat) : (s.best less arity i = i ∨
      0 < s.best less arity i ∧ parent arity (s.best less arity i) = i ∧ s.best less arity i < s.len) ∧
    key (s.item (s.best less arity i)) ≤ key (s.item i) ∧
    ∀ j, 0 < j → j < s.len → parent arity j = i → key (s.item (s.best less arity i)) ≤ key (s.item j) := by
  obtain ⟨hmem, hfirst, hall⟩ := choose_spec (s := s) hless (s.children arity i) i
  refine ⟨hmem.imp_right fun h => (mem_children harity).mp h, hfirst, ?_⟩
  intro j hj hjl hp
  exact hall j ((mem_children harity).mpr ⟨hj, hp, hjl⟩)

/-- A round moves the entry to the place of its earliest child, where it may still be too late. -/
theorem DownReady.swap (h : DownReady arity key low s i) (hne : s.best less arity i ≠ i) :
    DownReady arity key low (s.swap i (s.best less arity i)) (s.best less arity i) ∧ i < s.best less arity i := by
  obtain ⟨hplace, hle, hmin⟩ := best_spec hless harity s i
  obtain ⟨hpos, hparent, hlen⟩ := hplace.resolve_left hne
  generalize s.best less arity i = b at *
  have hib : i < b := by
    rw [← hparent]
    exact parent_lt arity hpos
  refine ⟨⟨hlen, ?_, ?_⟩, hib⟩
  · intro j hj hjl hlow hpj
    have hjlt := parent_lt arity hj
    by_cases hpi : parent arity j = i
    · rw [hpi, swap_item_left]
      by_cases hjb : j = b
      · subst hjb
        rw [swap_item_right]
        exact hle
      · rw [swap_item_other (by omega) hjb]
        exact hmin j hj hjl hpi
    · rw [swap_item_other hpi hpj]
      by_cases hji : j = i
      · subst hji
        rw [swap_item_left]
        exact h.below b hpos hlen hparent hj hlow
      have hjb : j ≠ b := by
        rintro rfl
        exact hpi hparent
      rw [swap_item_other hji hjb]
      exact h.others j hj hjl hlow hpi
  · intro j hj hjl hpj _ hlow
    have hjlt := parent_lt arity hj
    rw [hparent, swap_item_left, swap_item_other (by omega) (by omega)]
    have hold := h.others j hj hjl (by omega) (by omega)
    rwa [hpj] at hold

theorem DownReady.stop (h : DownReady arity key low s i)
    (hstop : s.best less arity i = i) : OrderedFrom arity key low s := by
  obtain ⟨-, -, hmin⟩ := best_spec hless harity s i
  rw [hstop] at hmin
  intro j hj hjl hlow
  by_cases hpi : parent arity j = i
  · rw [hpi]
    exact hmin j hj hjl hpi
  · exact h.others j hj hjl hlow hpi

theorem siftDownLoop_ordered : ∀ (rounds : Nat) (s : Slots α) (i : Nat), DownReady arity key low s i →
    s.len ≤ rounds + i → OrderedFrom arity key low (siftDownLoop less arity rounds s i) := by
  intro rounds
  induction rounds with
  | zero =>
    intro s i h hle
    exact absurd h.inside (by omega)
  | succ rounds ih =>
    intro s i h hle
    rw [siftDownLoop]
    split
    · rename_i hstop
      exact h.stop hless harity hstop
    rename_i hne
    obtain ⟨hready, hlt⟩ := h.swap hless harity hne
    exact ih _ _ hready (by rw [swap_len]; omega)

/-- **Moving an entry down** puts an array in order in which only this entry is too late. -/
theorem siftDown_ordered (h : DownReady arity key low s i) : OrderedFrom arity key low (s.siftDown less arity i) :=
  siftDownLoop_ordered hless harity s.len s i h (Nat.le_add_right _ _)

end order

/-! ## Entries -/

section entries

variable [DecidableEq α] {less : α → α → Bool} {arity : Nat} {s s' s'' : Slots α} {i : Nat} {x : α}

theorem mem_toList : x ∈ s.toList ↔ ∃ i, i < s.len ∧ s.item i = x := by
  simp [toList]

@[simp] theorem length_toList : s.toList.length = s.len := by
  simp [toList]

theorem Indexed.nodup (h : s.Indexed) : s.toList.Nodup := by
  refine List.Nodup.map_on ?_ List.nodup_range
  intro i hi j hj heq
  rw [← h i (List.mem_range.mp hi), heq, h j (List.mem_range.mp hj)]

/-- The same entries, which know their places if they did; other entries are told nothing. -/
structure Rearranges (s s' : Slots α) : Prop where
  len : s'.len = s.len
  perm : s'.toList.Perm s.toList
  indexed : s.Indexed → s'.Indexed
  pos : ∀ x, x ∉ s.toList → s'.pos x = s.pos x

theorem Rearranges.refl (s : Slots α) : Rearranges s s := ⟨rfl, .refl _, id, fun _ _ => rfl⟩

theorem Rearranges.trans (h : Rearranges s s') (h' : Rearranges s' s'') : Rearranges s s'' := by
  refine ⟨h'.len.trans h.len, h'.perm.trans h.perm, fun hs => h'.indexed (h.indexed hs), ?_⟩
  intro x hx
  have hx' : x ∉ s'.toList := fun hmem => hx (h.perm.mem_iff.mp hmem)
  rw [h'.pos x hx', h.pos x hx]

theorem swap_rearranges {j : Nat} (hi : i < s.len) (hj : j < s.len) : Rearranges s (s.swap i j) := by
  refine ⟨rfl, swap_perm hi hj, fun h => h.swap hi hj, ?_⟩
  intro x hx
  have hxi : x ≠ s.item i := fun h => hx (mem_toList.mpr ⟨i, hi, h.symm⟩)
  have hxj : x ≠ s.item j := fun h => hx (mem_toList.mpr ⟨j, hj, h.symm⟩)
  simp only [swap, update_of_ne hxi, update_of_ne hxj]

theorem siftUpLoop_rearranges : ∀ (rounds : Nat) (s : Slots α) (i : Nat), i < s.len →
    Rearranges s (siftUpLoop less arity rounds s i) := by
  intro rounds
  induction rounds with
  | zero => exact fun s _ _ => .refl s
  | succ rounds ih =>
    intro s i hi
    rw [siftUpLoop]
    split
    · rename_i hlt
      have hp : parent arity i < s.len := Nat.lt_trans (parent_lt arity hlt.1) hi
      exact (swap_rearranges hi hp).trans (ih _ _ hp)
    · exact .refl s

theorem siftUp_rearranges (hi : i < s.len) : Rearranges s (s.siftUp less arity i) := siftUpLoop_rearranges i s i hi

theorem best_lt (hi : i < s.len) : s.best less arity i < s.len := by
  unfold best
  have hchildren : ∀ c ∈ s.children arity i, c < s.len := by
    intro c hc
    rw [children, List.mem_range'_1] at hc
    omega
  revert hchildren
  generalize s.children arity i = places
  intro hplaces
  induction places generalizing i with
  | nil => exact hi
  | cons c places ih =>
    rw [List.foldl_cons]
    apply ih
    · split
      · exact hplaces c List.mem_cons_self
      · exact hi
    · exact fun d hd => hplaces d (List.mem_cons_of_mem _ hd)

theorem siftDownLoop_rearranges : ∀ (rounds : Nat) (s : Slots α) (i : Nat), i < s.len →
    Rearranges s (siftDownLoop less arity rounds s i) := by
  intro rounds
  induction rounds with
  | zero => exact fun s _ _ => .refl s
  | succ rounds ih =>
    intro s i hi
    rw [siftDownLoop]
    split
    · exact .refl s
    · have hb : s.best less arity i < s.len := best_lt hi
      exact (swap_rearranges hi hb).trans (ih _ _ hb)

theorem siftDown_rearranges (hi : i < s.len) : Rearranges s (s.siftDown less arity i) :=
  siftDownLoop_rearranges s.len s i hi

theorem rebuild_rearranges : ∀ (k : Nat) (s : Slots α), k ≤ s.len → Rearranges s (s.rebuild less arity k) := by
  intro k
  induction k with
  | zero => exact fun s _ => .refl s
  | succ k ih =>
    intro s hk
    have hdown : Rearranges s (s.siftDown less arity k) := siftDown_rearranges (by omega)
    exact hdown.trans (ih _ (by rw [hdown.len]; omega))

end entries

/-! ## Building, adding and removing -/

section changes

variable [DecidableEq α] {less : α → α → Bool} {arity : Nat} {κ : Type} [LE κ] [Std.IsPreorder κ] {key : α → κ}
  {s : Slots α} {i : Nat} {x : α}

/-- **A heap from the bottom up**: if the places from `k` on are in order, it is enough to move the others down. -/
theorem rebuild_ordered (hless : Compares less key) (harity : 0 < arity) : ∀ (k : Nat) (s : Slots α), k ≤ s.len →
    OrderedFrom arity key k s → Ordered arity key (s.rebuild less arity k) := by
  intro k
  induction k with
  | zero => exact fun _ _ h => h
  | succ k ih =>
    intro s hk h
    have hready : DownReady arity key k s k := by
      refine ⟨by omega, fun j hj hjl hlow hne => h j hj hjl (by omega), ?_⟩
      intro j _ _ _ hpos hlow
      have := parent_lt arity hpos
      omega
    have hdown : Rearranges s (s.siftDown less arity k) := siftDown_rearranges (by omega)
    exact ih _ (by rw [hdown.len]; omega) (siftDown_ordered hless harity hready)

/-- `d` is a child of `a`, a child of a child and so on. -/
def Below (arity : Nat) : Nat → Nat → Prop := Relation.TransGen fun i j => 0 < j ∧ parent arity j = i

theorem Below.lt {a d : Nat} (h : Below arity a d) : a < d := by
  induction h with
  | single h => exact h.2 ▸ parent_lt arity h.1
  | tail _ h ih => exact ih.trans (h.2 ▸ parent_lt arity h.1)

theorem Ordered.le_of_below (h : Ordered arity key s) {a d : Nat} (hbelow : Below arity a d) (hd : d < s.len) :
    key (s.item a) ≤ key (s.item d) := by
  induction hbelow with
  | single hj =>
    obtain ⟨hpos, rfl⟩ := hj
    exact h _ hpos hd (Nat.zero_le _)
  | tail _ hj ih =>
    obtain ⟨hpos, rfl⟩ := hj
    exact Std.le_trans (ih ((parent_lt arity hpos).trans hd)) (h _ hpos hd (Nat.zero_le _))

/-- An entry from the place `low` on is later than one below it; neither is at `i`. -/
def Inverted (arity : Nat) (key : α → κ) (low i : Nat) (s : Slots α) : Prop :=
  ∃ a d, low ≤ a ∧ a ≠ i ∧ d ≠ i ∧ Below arity a d ∧ d < s.len ∧ ¬ key (s.item a) ≤ key (s.item d)

/-- A round that moves another entry down leaves the one above the other: an entry that moves goes up by one place, and
if the lower one moves the upper one has moved or is further up. -/
theorem Inverted.swap {low j : Nat} (h : Inverted arity key low i s) (hlow : low ≤ i) (hj : 0 < j)
    (hparent : parent arity j = i) : Inverted arity key low j (s.swap i j) := by
  obtain ⟨a, d, ha, hai, hdi, hbelow, hd, hlate⟩ := h
  have hij : i < j := hparent ▸ parent_lt arity hj
  have had := hbelow.lt
  by_cases haj : a = j
  · subst haj
    refine ⟨i, d, hlow, by omega, by omega, .head ⟨hj, hparent⟩ hbelow, hd, ?_⟩
    rwa [swap_item_left, swap_item_other hdi (by omega)]
  by_cases hdj : d = j
  · subst hdj
    have hup : Below arity a i := by
      cases hbelow with
      | single hstep => exact absurd (hstep.2.symm.trans hparent) hai
      | tail hbelow hstep => exact hparent ▸ hstep.2 ▸ hbelow
    refine ⟨a, i, ha, haj, by omega, hup, by rw [swap_len]; omega, ?_⟩
    rwa [swap_item_left, swap_item_other hai haj]
  · refine ⟨a, d, ha, haj, hdj, hbelow, hd, ?_⟩
    rwa [swap_item_other hai haj, swap_item_other hdi hdj]

theorem siftDownLoop_inverted (hless : Compares less key) (harity : 0 < arity) {low : Nat} : ∀ (rounds : Nat)
    (s : Slots α) (i : Nat), low ≤ i → Inverted arity key low i s →
    ∃ k, Inverted arity key low k (siftDownLoop less arity rounds s i) := by
  intro rounds
  induction rounds with
  | zero => exact fun s i _ h => ⟨i, h⟩
  | succ rounds ih =>
    intro s i hlow h
    rw [siftDownLoop]
    split
    · exact ⟨i, h⟩
    rename_i hne
    obtain ⟨hpos, hparent, -⟩ := (best_spec hless harity s i).1.resolve_left hne
    have hlt : i < s.best less arity i := by
      conv_lhs => rw [← hparent]
      exact parent_lt arity hpos
    exact ih _ _ (by omega) (h.swap hlow hpos hparent)

theorem rebuild_inverted (hless : Compares less key) (harity : 0 < arity) : ∀ (k : Nat) (s : Slots α) (i : Nat),
    Inverted arity key k i s → ∃ i, Inverted arity key 0 i (s.rebuild less arity k) := by
  intro k
  induction k with
  | zero => exact fun s i h => ⟨i, h⟩
  | succ k ih =>
    rintro s i ⟨a, d, ha, -, -, hbelow, hd, hlate⟩
    have had := hbelow.lt
    obtain ⟨i', h⟩ := siftDownLoop_inverted hless harity s.len s k (Nat.le_refl k)
      ⟨a, d, by omega, by omega, by omega, hbelow, hd, hlate⟩
    exact ih _ i' h

/-- **What the loop does not visit it does not mend**: it makes a heap exactly if the places from `k` on are in order. -/
theorem rebuild_ordered_iff (hless : Compares less key) (harity : 0 < arity) {k : Nat} (hk : k ≤ s.len) :
    Ordered arity key (s.rebuild less arity k) ↔ OrderedFrom arity key k s := by
  refine ⟨fun h => ?_, rebuild_ordered hless harity k s hk⟩
  by_contra hnot
  simp only [OrderedFrom, not_forall] at hnot
  obtain ⟨j, hj, hjl, hlow, hlate⟩ := hnot
  have hinverted : Inverted arity key k s.len s :=
    have hlt := parent_lt arity hj
    ⟨_, j, hlow, by omega, by omega, .single ⟨hj, rfl⟩, hjl, hlate⟩
  obtain ⟨_, a, d, -, -, -, hbelow, hd, hlate'⟩ := rebuild_inverted hless harity k s s.len hinverted
  exact hlate' (h.le_of_below hbelow hd)

/-- The array with a new entry at its end. -/
def append (s : Slots α) (x : α) : Slots α := { s.put s.len x with len := s.len + 1 }

theorem append_item (hi : i < s.len) : (s.append x).item i = s.item i := by
  simp only [append, put, update_of_ne (Nat.ne_of_lt hi)]

theorem append_item_last : (s.append x).item s.len = x := by
  simp only [append, put, update_self]

theorem append_toList : (s.append x).toList = s.toList ++ [x] := by
  have hold : (List.range s.len).map (s.append x).item = s.toList := by
    apply List.map_congr_left
    intro i hi
    exact append_item (List.mem_range.mp hi)
  show (List.range (s.len + 1)).map (s.append x).item = _
  rw [List.range_succ, List.map_append, hold, List.map_singleton, append_item_last]

theorem append_indexed (h : s.Indexed) (hx : x ∉ s.toList) : (s.append x).Indexed := by
  intro i hi
  have hle : i < s.len + 1 := hi
  rcases Nat.lt_or_ge i s.len with hlt | hge
  · have hne : s.item i ≠ x := fun heq => hx (mem_toList.mpr ⟨i, hlt, heq⟩)
    rw [append_item hlt]
    simp only [append, put, update_of_ne hne]
    exact h i hlt
  · have heq : i = s.len := by omega
    subst heq
    simp only [append, put, update_self]

/-- The array with new entries at its end. -/
def appendAll (s : Slots α) (xs : List α) : Slots α := xs.foldl append s

theorem appendAll_toList : ∀ (xs : List α) (s : Slots α), (s.appendAll xs).toList = s.toList ++ xs := by
  intro xs
  induction xs with
  | nil => exact fun s => (List.append_nil _).symm
  | cons x xs ih =>
    intro s
    show ((s.append x).appendAll xs).toList = _
    rw [ih, append_toList, List.append_assoc, List.singleton_append]

theorem appendAll_indexed : ∀ (xs : List α) (s : Slots α), s.Indexed → (s.toList ++ xs).Nodup →
    (s.appendAll xs).Indexed := by
  intro xs
  induction xs with
  | nil => exact fun s h _ => h
  | cons x xs ih =>
    intro s h hnodup
    have hx : x ∉ s.toList := by
      intro hmem
      exact (List.nodup_append.mp hnodup).2.2 x hmem x List.mem_cons_self rfl
    apply ih (s.append x) (append_indexed h hx)
    rw [append_toList, List.append_assoc, List.singleton_append]
    exact hnodup

theorem appendAll_pos : ∀ (xs : List α) (s : Slots α) {x : α}, x ∉ xs → (s.appendAll xs).pos x = s.pos x := by
  intro xs
  induction xs with
  | nil => exact fun _ _ _ => rfl
  | cons y xs ih =>
    intro s x hx
    rw [List.mem_cons, not_or] at hx
    show ((s.append y).appendAll xs).pos x = _
    rw [ih _ hx.2]
    exact update_of_ne hx.1 _ _

theorem push_rearranges : Rearranges (s.append x) (s.push less arity x) := siftUp_rearranges (Nat.lt_succ_self _)

/-- **A new entry** makes a heap of a heap. -/
theorem push_ordered (hless : Compares less key) (h : Ordered arity key s) :
    Ordered arity key (s.push less arity x) := by
  apply siftUp_ordered hless
  refine ⟨Nat.lt_succ_self _, ?_, ?_⟩
  · intro j hj hjl hne
    have hjlt : j < s.len := by
      have : j < s.len + 1 := hjl
      omega
    have hp : parent arity j < s.len := Nat.lt_trans (parent_lt arity hj) hjlt
    show key ((s.append x).item _) ≤ key ((s.append x).item _)
    rw [append_item hjlt, append_item hp]
    exact h j hj hjlt (Nat.zero_le _)
  · intro j hj hjl hp _
    have hlt := parent_lt arity hj
    have : j < s.len + 1 := hjl
    omega

/-- The array without its last entry. -/
def shrink (s : Slots α) : Slots α := { s with len := s.len - 1 }

theorem shrink_toList (h : 0 < s.len) : s.toList = s.shrink.toList ++ [s.item (s.len - 1)] := by
  obtain ⟨n, hn⟩ := Nat.exists_eq_succ_of_ne_zero (Nat.ne_of_gt h)
  simp [toList, shrink, hn, List.range_succ]

theorem fill_last (hi : i + 1 = s.len) : s.fill less arity i = s.shrink := by
  have heq : i = s.len - 1 := by omega
  exact if_neg fun hne => hne heq

/-- The array in which the last entry has taken the place `i`. -/
def filled (s : Slots α) (i : Nat) : Slots α := s.shrink.put i (s.item (s.len - 1))

theorem fill_inner (hi : i + 1 ≠ s.len) (hlt : i < s.len) : s.fill less arity i =
    if 0 < i ∧ less (s.item (s.len - 1)) ((s.filled i).item (parent arity i)) then (s.filled i).siftUp less arity i
    else (s.filled i).siftDown less arity i := by
  have hne : i ≠ s.len - 1 := by omega
  exact if_pos hne

theorem filled_item : (s.filled i).item i = s.item (s.len - 1) := by
  simp only [filled, put, update_self]

theorem filled_item_other {j : Nat} (hne : j ≠ i) : (s.filled i).item j = s.item j := by
  simp only [filled, put, update_of_ne hne, shrink]

theorem filled_perm (hi : i + 1 < s.len) : (s.item i :: (s.filled i).toList).Perm s.toList := by
  have hpos : 0 < s.len := by omega
  have hi' : i < s.shrink.toList.length := by
    rw [length_toList]
    show i < s.len - 1
    omega
  have hset : (s.filled i).toList = s.shrink.toList.set i (s.item (s.len - 1)) := map_range_update _ _
  have hget : s.shrink.toList[i] = s.item i := by simp [toList, shrink]
  have hperm := List.getD_set_perm_cons s.shrink.toList i (s.item (s.len - 1))
  rw [List.getElem?_eq_getElem hi', Option.getD_some, hget] at hperm
  rw [shrink_toList hpos, hset]
  exact hperm.trans (List.perm_append_singleton _ _).symm

theorem filled_indexed (h : s.Indexed) (hi : i + 1 < s.len) : (s.filled i).Indexed := by
  intro j hj
  have hj' : j < s.len - 1 := hj
  by_cases hji : j = i
  · subst hji
    simp only [filled, put, update_self]
  rw [filled_item_other hji]
  have hne : s.item j ≠ s.item (s.len - 1) := h.ne (by omega) (by omega) (by omega)
  simp only [filled, put, update_of_ne hne, shrink]
  exact h j (by omega)

theorem fill_rearranges (hi : i + 1 < s.len) : Rearranges (s.filled i) (s.fill less arity i) := by
  have hlen : i < (s.filled i).len := by
    show i < s.len - 1
    omega
  rw [fill_inner (by omega) (by omega)]
  split
  · exact siftUp_rearranges hlen
  · exact siftDown_rearranges hlen

/-- The entries without the one that was at the place `i`. -/
theorem fill_perm (hi : i < s.len) : (s.item i :: (s.fill less arity i).toList).Perm s.toList := by
  by_cases hlast : i + 1 = s.len
  · have heq : i = s.len - 1 := by omega
    have hpos : 0 < s.len := by omega
    rw [fill_last hlast, shrink_toList hpos, heq]
    exact (List.perm_append_singleton _ _).symm
  · have hrearranges : Rearranges (s.filled i) (s.fill less arity i) := fill_rearranges (by omega)
    exact (hrearranges.perm.cons _).trans (filled_perm (by omega))

theorem fill_len (hi : i < s.len) : (s.fill less arity i).len + 1 = s.len := by
  have hperm : (s.item i :: (s.fill less arity i).toList).Perm s.toList := fill_perm hi
  have hlen := hperm.length_eq
  simpa using hlen

theorem fill_indexed (h : s.Indexed) (hi : i < s.len) : (s.fill less arity i).Indexed := by
  by_cases hlast : i + 1 = s.len
  · rw [fill_last hlast]
    intro j hj
    have hj' : j < s.len - 1 := hj
    exact h j (by omega)
  · exact (fill_rearranges (by omega)).indexed (filled_indexed h (by omega))

/-- **Removing an entry** makes a heap of a heap. -/
theorem fill_ordered (hless : Compares less key) (harity : 0 < arity) (h : Ordered arity key s) (hi : i < s.len) :
    Ordered arity key (s.fill less arity i) := by
  by_cases hlast : i + 1 = s.len
  · rw [fill_last hlast]
    intro j hj hjl hlow
    have hj' : j < s.len - 1 := hjl
    exact h j hj (by omega) hlow
  have hlen : i < s.len - 1 := by omega
  have hedge : ∀ j, 0 < j → j < s.len - 1 → j ≠ i → parent arity j ≠ i →
      key ((s.filled i).item (parent arity j)) ≤ key ((s.filled i).item j) := by
    intro j hj hjl hji hpi
    rw [filled_item_other hji, filled_item_other hpi]
    exact h j hj (by omega) (Nat.zero_le _)
  -- the children of the place are no earlier than its parent
  have hbelow : ∀ j, 0 < j → j < s.len - 1 → parent arity j = i → 0 < i →
      key ((s.filled i).item (parent arity i)) ≤ key ((s.filled i).item j) := by
    intro j hj hjl hp hpos
    have hji := parent_lt arity hj
    have hpi := parent_lt arity hpos
    rw [filled_item_other (by omega), filled_item_other (by omega)]
    have hup := h i hpos hi (Nat.zero_le _)
    have hdown := h j hj (by omega) (Nat.zero_le _)
    rw [hp] at hdown
    exact Std.le_trans hup hdown
  rw [fill_inner hlast hi]
  split
  · rename_i hlt
    apply siftUp_ordered hless
    refine ⟨hlen, ?_, hbelow⟩
    intro j hj hjl hji
    by_cases hpi : parent arity j = i
    · rw [hpi, filled_item]
      exact Std.le_trans (hless.le_of_less _ _ hlt.2) (hbelow j hj hjl hpi hlt.1)
    · exact hedge j hj hjl hji hpi
  · rename_i hnot
    apply siftDown_ordered hless harity
    refine ⟨hlen, ?_, fun j hj hjl hp hpos _ => hbelow j hj hjl hp hpos⟩
    intro j hj hjl _ hpi
    by_cases hji : j = i
    · subst hji
      rw [filled_item]
      apply hless.le_of_not_less
      rw [← Bool.not_eq_true]
      intro hlt
      exact hnot ⟨hj, hlt⟩
    · exact hedge j hj hjl hji hpi

end changes

end Slots

end Llam.Lib
