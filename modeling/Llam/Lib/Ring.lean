import Mathlib

/-!
# Ring buffers

`count` elements that start at slot `head` of a buffer of `size` slots, as the list of its contents. Writing the slot after
the last element appends to the list (`contents_write`), moving the head takes its first element (`contents_advance`). The
size of a buffer whose indices are wrapped with a mask is a power of two (`land_mask`).
-/

namespace Llam.Lib.Ring

open Function

variable {α : Type}

/-- The elements of the buffer, the oldest first. -/
def contents (buffer : Nat → α) (size head count : Nat) : List α :=
  (List.range count).map fun i => buffer ((head + i) % size)

@[simp] theorem contents_length (buffer : Nat → α) (size head count : Nat) :
    (contents buffer size head count).length = count := by
  simp [contents]

variable {size head count : Nat}

theorem slot_ne {i : Nat} (hi : i < count) (hc : count < size) : (head + i) % size ≠ (head + count) % size := by
  intro h
  have hmod : i % size = count % size := Nat.ModEq.add_left_cancel' head h
  rw [Nat.mod_eq_of_lt (Nat.lt_trans hi hc), Nat.mod_eq_of_lt hc] at hmod
  exact Nat.ne_of_lt hi hmod

theorem contents_write {buffer : Nat → α} (v : α) (hc : count < size) :
    contents (update buffer ((head + count) % size) v) size head (count + 1) =
      contents buffer size head count ++ [v] := by
  rw [contents, List.range_succ, List.map_append, List.map_singleton, update_self]
  congr 1
  refine List.map_congr_left fun i hi => ?_
  exact update_of_ne (slot_ne (List.mem_range.mp hi) hc) _ _

/-- Write the slot before the first element. -/
theorem contents_behind (buffer : Nat → α) (v : α) (hh : head < size) (hc : count < size) :
    contents (update buffer head v) size ((head + 1) % size) count =
      contents buffer size ((head + 1) % size) count := by
  refine List.map_congr_left fun i hi => update_of_ne ?_ _ _
  have hi := List.mem_range.mp hi
  have hne : (head + 0) % size ≠ (head + (i + 1)) % size :=
    slot_ne (Nat.zero_lt_succ i) (Nat.lt_of_le_of_lt (Nat.succ_le_of_lt hi) hc)
  rw [Nat.add_zero, Nat.mod_eq_of_lt hh] at hne
  rw [Nat.mod_add_mod, Nat.add_assoc, Nat.add_comm 1 i]
  exact hne.symm

theorem contents_advance (buffer : Nat → α) (hh : head < size) :
    contents buffer size head (count + 1) = buffer head :: contents buffer size ((head + 1) % size) count := by
  rw [contents, List.range_succ_eq_map, List.map_cons, Nat.add_zero, Nat.mod_eq_of_lt hh, List.map_map, contents]
  congr 1
  refine List.map_congr_left fun i _ => ?_
  show buffer ((head + (i + 1)) % size) = buffer (((head + 1) % size + i) % size)
  rw [Nat.mod_add_mod, Nat.add_assoc, Nat.add_comm 1 i]

theorem contents_cons (buffer : Nat → α) (size head count : Nat) :
    contents buffer size head (count + 1) = buffer (head % size) :: contents buffer size (head + 1) count := by
  rw [contents, List.range_succ_eq_map, List.map_cons, Nat.add_zero, List.map_map, contents]
  congr 1
  refine List.map_congr_left fun i _ => ?_
  show buffer ((head + (i + 1)) % size) = buffer ((head + 1 + i) % size)
  rw [Nat.add_assoc, Nat.add_comm 1 i]

theorem contents_concat (buffer : Nat → α) (size head count : Nat) :
    contents buffer size head (count + 1) = contents buffer size head count ++ [buffer ((head + count) % size)] := by
  rw [contents, List.range_succ, List.map_append, List.map_singleton, contents]

/-- The masks of powers of two wrap indices. -/
theorem land_mask (h : ∃ k, size = 2 ^ k) (i : Nat) : i &&& (size - 1) = i % size := by
  obtain ⟨k, rfl⟩ := h
  exact Nat.and_two_pow_sub_one_eq_mod i k

end Llam.Lib.Ring
