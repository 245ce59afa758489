import Mathlib

/-!
# Queues that remember whom they served

A first-in first-out queue from which elements may also be withdrawn. Every push draws the next ticket; the queue keeps
the tickets it has served from the head and those that were withdrawn. `complete` says that a ticket is in exactly one of
the three places, `ordered` that served and waiting tickets are in the order of the pushes.
-/

namespace Llam.Lib

open Function

/-- A queue over `α` with its history. -/
structure Fifo (α : Type) where
  waiting : List α
  /-- The ticket of the last push of an element. -/
  ticket : α → Nat
  next : Nat
  served : List Nat
  withdrawn : List Nat
  nodup : waiting.Nodup
  complete : (served ++ withdrawn ++ waiting.map ticket).Perm (List.range next)
  ordered : (served ++ waiting.map ticket).Pairwise (· < ·)

namespace Fifo

variable {α : Type} [DecidableEq α]

/-- No element was ever pushed. -/
def empty : Fifo α where
  waiting := []
  ticket _ := 0
  next := 0
  served := []
  withdrawn := []
  nodup := List.nodup_nil
  complete := List.Perm.refl []
  ordered := List.Pairwise.nil

omit [DecidableEq α] in
theorem ticket_lt (q : Fifo α) {n : Nat} (h : n ∈ q.served ++ q.withdrawn ++ q.waiting.map q.ticket) : n < q.next :=
  List.mem_range.mp (q.complete.mem_iff.mp h)

omit [DecidableEq α] in
theorem not_served_of_withdrawn (q : Fifo α) {n : Nat} (h : n ∈ q.withdrawn) : n ∉ q.served := by
  have hnodup : (q.served ++ q.withdrawn ++ q.waiting.map q.ticket).Nodup := q.complete.nodup_iff.mpr List.nodup_range
  intro hs
  exact List.disjoint_of_nodup_append (List.nodup_append.mp hnodup).1 hs h

variable {a b : α} {q : Fifo α}

theorem map_ticket_update (q : Fifo α) (ha : a ∉ q.waiting) :
    q.waiting.map (update q.ticket a q.next) = q.waiting.map q.ticket := by
  refine List.map_congr_left fun b hb => ?_
  refine update_of_ne ?_ _ _
  rintro rfl
  exact ha hb

/-- Append `a` at the tail with a fresh ticket; an element that already waits keeps its place. -/
def push (q : Fifo α) (a : α) : Fifo α :=
  if ha : a ∈ q.waiting then q
  else
    { waiting := q.waiting ++ [a]
      ticket := update q.ticket a q.next
      next := q.next + 1
      served := q.served
      withdrawn := q.withdrawn
      nodup := by
        rw [List.nodup_append]
        refine ⟨q.nodup, List.nodup_singleton a, fun b hb c hc => ?_⟩
        rw [List.mem_singleton.mp hc]
        exact fun h => ha (h ▸ hb)
      complete := by
        rw [List.map_append, map_ticket_update q ha, List.range_succ, ← List.append_assoc]
        simpa using q.complete.append_right [q.next]
      ordered := by
        rw [List.map_append, map_ticket_update q ha, ← List.append_assoc, List.pairwise_append]
        refine ⟨q.ordered, List.pairwise_singleton _ _, fun n hn m hm => ?_⟩
        have hlt : n < q.next := q.ticket_lt (by
          simp only [List.mem_append] at hn ⊢
          exact hn.elim (fun h => .inl (.inl h)) .inr)
        simpa [List.mem_singleton.mp hm] using hlt }

/-- Serve the head, if there is one. -/
def pop (q : Fifo α) : Option (α × Fifo α) :=
  match hq : q.waiting with
  | [] => none
  | a :: rest => some (a,
    { waiting := rest
      ticket := q.ticket
      next := q.next
      served := q.served ++ [q.ticket a]
      withdrawn := q.withdrawn
      nodup := (List.nodup_cons.mp (hq ▸ q.nodup)).2
      complete := by
        refine List.Perm.trans ?_ q.complete
        rw [hq, List.map_cons, List.append_assoc, List.append_assoc, List.append_assoc, List.singleton_append]
        exact List.Perm.append_left _ List.perm_middle.symm
      ordered := by
        have := q.ordered
        rw [hq, List.map_cons] at this
        simpa using this })

/-- Serve everything that waits, from head to tail. -/
def popAll (q : Fifo α) : Fifo α where
  waiting := []
  ticket := q.ticket
  next := q.next
  served := q.served ++ q.waiting.map q.ticket
  withdrawn := q.withdrawn
  nodup := List.nodup_nil
  complete := by
    refine List.Perm.trans ?_ q.complete
    rw [List.map_nil, List.append_nil, List.append_assoc, List.append_assoc]
    exact List.Perm.append_left _ List.perm_append_comm
  ordered := by simpa using q.ordered

/-- Withdraw `a`, wherever it waits. -/
def remove (q : Fifo α) (a : α) : Fifo α :=
  if ha : a ∈ q.waiting then
    { waiting := q.waiting.erase a
      ticket := q.ticket
      next := q.next
      served := q.served
      withdrawn := q.withdrawn ++ [q.ticket a]
      nodup := q.nodup.erase a
      complete := by
        refine List.Perm.trans ?_ q.complete
        rw [List.append_assoc, List.append_assoc, List.append_assoc]
        refine List.Perm.append_left _ (List.Perm.append_left _ ?_)
        exact ((List.perm_cons_erase ha).map q.ticket).symm
      ordered := by
        refine q.ordered.sublist (List.Sublist.append_left ?_ _)
        exact List.erase_sublist.map _ }
  else q

@[simp] theorem push_served (q : Fifo α) (a : α) : (q.push a).served = q.served := by
  unfold push; split <;> rfl

@[simp] theorem push_withdrawn (q : Fifo α) (a : α) : (q.push a).withdrawn = q.withdrawn := by
  unfold push; split <;> rfl

theorem push_ticket_of_ne (q : Fifo α) (h : b ≠ a) : (q.push a).ticket b = q.ticket b := by
  unfold push; split
  · rfl
  · exact update_of_ne h _ _

theorem mem_push (q : Fifo α) (a b : α) : b ∈ (q.push a).waiting ↔ b ∈ q.waiting ∨ b = a := by
  unfold push; split
  · rename_i ha
    exact ⟨.inl, fun h => h.elim id fun h => h ▸ ha⟩
  · simp

omit [DecidableEq α] in
theorem pop_none (h : q.pop = none) : q.waiting = [] := by
  unfold pop at h; split at h
  · assumption
  · cases h

omit [DecidableEq α] in
theorem pop_some {q' : Fifo α} (h : q.pop = some (a, q')) :
    q.waiting = a :: q'.waiting ∧ q'.ticket = q.ticket ∧ q'.served = q.served ++ [q.ticket a] ∧
      q'.withdrawn = q.withdrawn := by
  unfold pop at h; split at h
  · cases h
  · rename_i b rest hq
    cases h
    exact ⟨hq, rfl, rfl, rfl⟩

@[simp] theorem remove_ticket (q : Fifo α) (a : α) : (q.remove a).ticket = q.ticket := by
  unfold remove; split <;> rfl

@[simp] theorem remove_served (q : Fifo α) (a : α) : (q.remove a).served = q.served := by
  unfold remove; split <;> rfl

theorem remove_withdrawn (h : a ∈ q.waiting) : (q.remove a).withdrawn = q.withdrawn ++ [q.ticket a] := by
  simp [remove, h]

theorem mem_remove (q : Fifo α) (a b : α) : b ∈ (q.remove a).waiting ↔ b ∈ q.waiting ∧ b ≠ a := by
  unfold remove; split
  · rw [q.nodup.mem_erase_iff, and_comm]
  · rename_i ha
    exact ⟨fun hb => ⟨hb, fun h => ha (h ▸ hb)⟩, And.left⟩

theorem remove_sublist (q : Fifo α) (a : α) : (q.remove a).waiting.Sublist q.waiting := by
  unfold remove; split
  · exact List.erase_sublist
  · exact List.Sublist.refl _

/-! ## What an operation does to the others -/

/-- From `q` to `q'` the place of `a` is unchanged and nothing served or withdrawn is forgotten. -/
structure Unmoved (q q' : Fifo α) (a : α) : Prop where
  mem : a ∈ q'.waiting ↔ a ∈ q.waiting
  ticket : q'.ticket a = q.ticket a
  served : ∀ n ∈ q.served, n ∈ q'.served
  withdrawn : ∀ n ∈ q.withdrawn, n ∈ q'.withdrawn

omit [DecidableEq α] in
theorem Unmoved.refl (q : Fifo α) (a : α) : Unmoved q q a := ⟨Iff.rfl, rfl, fun _ h => h, fun _ h => h⟩

omit [DecidableEq α] in
theorem Unmoved.trans {q₁ q₂ q₃ : Fifo α} (h : Unmoved q₁ q₂ a) (h' : Unmoved q₂ q₃ a) : Unmoved q₁ q₃ a where
  mem := h'.mem.trans h.mem
  ticket := h'.ticket.trans h.ticket
  served n hn := h'.served n (h.served n hn)
  withdrawn n hn := h'.withdrawn n (h.withdrawn n hn)

theorem push_unmoved (q : Fifo α) (h : a ≠ b) : Unmoved q (q.push b) a where
  mem := by simp [mem_push, h]
  ticket := push_ticket_of_ne q h
  served := by simp
  withdrawn := by simp

omit [DecidableEq α] in
theorem pop_unmoved {q' : Fifo α} (hpop : q.pop = some (b, q')) (h : a ≠ b) : Unmoved q q' a := by
  obtain ⟨hw, ht, hs, hd⟩ := pop_some hpop
  refine ⟨?_, congrFun ht a, fun n hn => ?_, fun n hn => ?_⟩
  · simp [hw, h]
  · rw [hs]; exact List.mem_append_left _ hn
  · rw [hd]; exact hn

omit [DecidableEq α] in
theorem popAll_unmoved (q : Fifo α) (h : a ∉ q.waiting) : Unmoved q q.popAll a where
  mem := by simp [popAll, h]
  ticket := rfl
  served n hn := List.mem_append_left _ hn
  withdrawn _ hn := hn

theorem remove_unmoved (q : Fifo α) (h : a ≠ b) : Unmoved q (q.remove b) a where
  mem := by simp [mem_remove, h]
  ticket := by simp
  served := by simp
  withdrawn n hn := by
    unfold remove; split
    · exact List.mem_append_left _ hn
    · exact hn

end Fifo

end Llam.Lib
