import Llam.Deque.Model

/-!
# What the deque is for

The deque as a list of entries: a push appends one, a pop takes the last one off the list and returns it later, a steal
takes the first one. `Spec.Ok` says that every push is accounted for, on the list, in the hands of the owner, or returned;
it holds initially (`Spec.Ok.empty`) and along every step (`Spec.Step.ok`).
-/

namespace Llam.Deque

variable {α : Type} {cap : Nat}

/-- The abstract deque; `held` is what a pop has taken and not returned. -/
structure Spec (α : Type) where
  first : Nat
  items : List (Entry α)
  held : Option (Taken α)
  pushed : List (Entry α)
  returned : List (Taken α)

/-- The entry of the next push. -/
def Spec.next (a : Spec α) (task : α) : Entry α := ⟨a.pushed.length, a.first + a.items.length, task⟩

inductive Spec.Step (cap : Nat) : Spec α → Spec α → Prop
  | stay (a : Spec α) : Step cap a a
  | push {a : Spec α} (task : α) (hroom : a.items.length < cap) :
    Step cap a { a with items := a.items ++ [a.next task], pushed := a.pushed ++ [a.next task] }
  | popLast {a : Spec α} {items : List (Entry α)} {e : Entry α} (hitems : a.items = items ++ [e]) (hheld : a.held = none) :
    Step cap a { a with items := items, held := some (a.first + items.length, e) }
  | popOnly {a : Spec α} {e : Entry α} (hitems : a.items = [e]) (hheld : a.held = none) :
    Step cap a { a with first := a.first + 1, items := [], held := some (a.first, e) }
  | giveBack {a : Spec α} {x : Taken α} (hheld : a.held = some x) :
    Step cap a { a with held := none, returned := a.returned ++ [x] }
  | steal {a : Spec α} {items : List (Entry α)} {e : Entry α} (hitems : a.items = e :: items) :
    Step cap a { a with first := a.first + 1, items := items, returned := a.returned ++ [(a.first, e)] }

/-- Every push is accounted for once, where it was pushed to. -/
structure Spec.Ok (cap : Nat) (a : Spec α) : Prop where
  bounded : a.items.length ≤ cap
  numbers : a.pushed.map Entry.number = List.range a.pushed.length
  positions : a.items.map Entry.position = List.range' a.first a.items.length
  taken : ∀ x ∈ a.returned ++ a.held.toList, x.2.position = x.1
  account : a.pushed.Perm ((a.returned ++ a.held.toList).map Prod.snd ++ a.items)

theorem Spec.Ok.empty (first : Nat) : Spec.Ok cap (⟨first, [], none, [], []⟩ : Spec α) where
  bounded := Nat.zero_le _
  numbers := rfl
  positions := rfl
  taken := by simp
  account := .refl _

/-- The position of an item says how far behind the first one it is. -/
theorem Spec.Ok.position_last {a : Spec α} {items : List (Entry α)} {e : Entry α} (h : a.Ok cap)
    (hitems : a.items = items ++ [e]) :
    items.map Entry.position = List.range' a.first items.length ∧ e.position = a.first + items.length := by
  have hp := h.positions
  rw [hitems, List.map_append, List.length_append, List.length_singleton, List.range'_concat] at hp
  obtain ⟨hl, hr⟩ := List.append_inj hp (by simp)
  refine ⟨hl, ?_⟩
  simpa using hr

theorem Spec.Ok.position_first {a : Spec α} {items : List (Entry α)} {e : Entry α} (h : a.Ok cap)
    (hitems : a.items = e :: items) :
    e.position = a.first ∧ items.map Entry.position = List.range' (a.first + 1) items.length := by
  have hp := h.positions
  rw [hitems, List.map_cons, List.length_cons, List.range'_succ] at hp
  exact List.cons.inj hp

/-- **Step lemma**: the account stays balanced. -/
theorem Spec.Step.ok {a a' : Spec α} (hstep : Spec.Step cap a a') (h : a.Ok cap) : a'.Ok cap := by
  cases hstep with
  | stay => exact h
  | push task hroom =>
    refine ⟨?_, ?_, ?_, h.taken, ?_⟩
    · rw [List.length_append, List.length_singleton]
      exact hroom
    · simp [h.numbers, List.range_succ, Spec.next]
    · rw [List.map_append, h.positions, List.length_append, List.length_singleton, List.range'_concat]
      simp [Spec.next]
    · rw [← List.append_assoc]
      exact h.account.append_right _
  | popLast hitems hheld =>
    obtain ⟨hpositions, he⟩ := h.position_last hitems
    have hbounded := h.bounded
    have haccount := h.account
    have htaken := h.taken
    rw [hitems, List.length_append, List.length_singleton] at hbounded
    rw [hheld, Option.toList_none, List.append_nil] at haccount htaken
    rw [hitems] at haccount
    refine ⟨Nat.le_of_succ_le hbounded, h.numbers, hpositions, ?_, ?_⟩
    · intro x hx
      rcases List.mem_append.mp hx with hx | hx
      · exact htaken x hx
      · cases List.mem_singleton.mp hx
        exact he
    · rw [Option.toList_some, List.map_append, List.map_singleton, List.append_assoc]
      refine haccount.trans (List.Perm.append_left _ ?_)
      exact List.perm_append_comm
  | popOnly hitems hheld =>
    obtain ⟨he, -⟩ := h.position_first hitems
    have haccount := h.account
    have htaken := h.taken
    rw [hheld, Option.toList_none, List.append_nil] at haccount htaken
    refine ⟨Nat.zero_le _, h.numbers, rfl, ?_, ?_⟩
    · intro x hx
      rcases List.mem_append.mp hx with hx | hx
      · exact htaken x hx
      · cases List.mem_singleton.mp hx
        exact he
    · rw [Option.toList_some, List.map_append, List.map_singleton, List.append_nil, ← hitems]
      exact haccount
  | giveBack hheld =>
    have haccount := h.account
    have htaken := h.taken
    rw [hheld] at haccount htaken
    refine ⟨h.bounded, h.numbers, h.positions, ?_, ?_⟩
    · simpa using htaken
    · simpa using haccount
  | steal hitems =>
    obtain ⟨he, hpositions⟩ := h.position_first hitems
    have hbounded := h.bounded
    have haccount := h.account
    have htaken := h.taken
    rw [hitems, List.length_cons] at hbounded
    rw [hitems] at haccount
    refine ⟨Nat.le_of_succ_le hbounded, h.numbers, hpositions, ?_, ?_⟩
    · intro x hx
      simp only [List.mem_append, List.mem_singleton] at hx htaken
      rcases hx with (hx | rfl) | hx
      · exact htaken x (.inl hx)
      · exact he
      · exact htaken x (.inr hx)
    · refine haccount.trans ?_
      rw [List.map_append, List.map_append, List.map_append, List.map_singleton, List.append_assoc, List.append_assoc,
        List.append_assoc]
      refine List.Perm.append_left _ ?_
      exact List.perm_middle

end Llam.Deque
