import Mathlib

/-!
# Walking a cycle by a fixed stride

`walk M a m i` is the position, on a cycle of `M` points, after `i` strides of length `m` from the point `a`. When `m` is
coprime to `M` the first `M` positions are distinct (`walk_inj`), and one stride is one addition with at most one
subtraction (`walk_succ`).
-/

namespace Llam.Lib

/-- The position after `i` strides of length `m` from `a` on a cycle of length `M`. -/
def walk (M a m i : Nat) : Nat := (a + i * m) % M

variable {M a m : Nat}

theorem walk_zero (ha : a < M) : walk M a m 0 = a := by
  simp [walk, Nat.mod_eq_of_lt ha]

theorem walk_lt (hM : 0 < M) (i : Nat) : walk M a m i < M := Nat.mod_lt _ hM

/-- One stride by conditional subtraction. -/
theorem walk_succ (hm : m < M) (i : Nat) :
    walk M a m (i + 1) = if M ≤ walk M a m i + m then walk M a m i + m - M else walk M a m i + m := by
  have hM : 0 < M := by omega
  have hlt := walk_lt (a := a) (m := m) hM i
  have hadd : walk M a m (i + 1) = (walk M a m i + m) % M := by
    unfold walk
    rw [Nat.mod_add_mod, Nat.succ_mul, Nat.add_assoc]
  rw [hadd]
  split
  · rename_i hle
    rw [Nat.mod_eq_sub_mod hle, Nat.mod_eq_of_lt (by omega)]
  · exact Nat.mod_eq_of_lt (by omega)

/-- **A coprime stride visits every point once** in its first `M` positions. -/
theorem walk_inj (hcop : Nat.Coprime M m) {i j : Nat} (hi : i < M) (hj : j < M)
    (h : walk M a m i = walk M a m j) : i = j := by
  have hmod : a + i * m ≡ a + j * m [MOD M] := h
  have hmul : i * m ≡ j * m [MOD M] := Nat.ModEq.add_left_cancel' a hmod
  have hij : i ≡ j [MOD M] := Nat.ModEq.cancel_right_of_coprime hcop hmul
  exact Nat.ModEq.eq_of_lt_of_lt hij hi hj

end Llam.Lib
