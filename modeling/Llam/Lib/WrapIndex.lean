import Llam.Lib.Ring

/-!
# Indices that count modulo the word size

A position that only ever counts up is kept in a machine word, `BitVec.ofNat w p`. Distances below the word size are exact
(`ofNat_add_sub`), two positions less than a whole turn apart are told apart (`ofNat_inj_of_lt`), the top bit of a distance
tells whether it is small and positive (`signBit_zero`), and a mask of the low bits finds the slot of the position
(`ofNat_land_mask`).
-/

namespace Llam.Lib.WrapIndex

variable {w : Nat}

theorem ofNat_succ (p : Nat) : BitVec.ofNat w p + 1 = BitVec.ofNat w (p + 1) := by
  rw [BitVec.ofNat_add]
  congr 1

theorem ofNat_succ_sub_one (p : Nat) : BitVec.ofNat w (p + 1) - 1 = BitVec.ofNat w p := by
  rw [← ofNat_succ, BitVec.add_sub_cancel]

theorem ofNat_add_sub {n : Nat} (p : Nat) (h : n < 2 ^ w) : (BitVec.ofNat w (p + n) - BitVec.ofNat w p).toNat = n := by
  rw [BitVec.ofNat_add, BitVec.add_comm, BitVec.add_sub_cancel, BitVec.toNat_ofNat, Nat.mod_eq_of_lt h]

/-- Positions less than a whole turn apart have different words. -/
theorem ofNat_inj_of_lt {p q : Nat} (hle : p ≤ q) (hlt : q < p + 2 ^ w) (h : BitVec.ofNat w q = BitVec.ofNat w p) :
    q = p := by
  obtain ⟨n, rfl⟩ := Nat.exists_eq_add_of_le hle
  have hn := ofNat_add_sub p (w := w) (n := n) (by omega)
  rw [h, BitVec.sub_self] at hn
  rw [← hn]
  rfl

/-- The top bit of a word is clear exactly when the word is below half the word size. -/
theorem signBit_zero (d : BitVec (w + 1)) : d &&& BitVec.ofNat (w + 1) (2 ^ w) = 0 ↔ d.toNat < 2 ^ w := by
  rw [← BitVec.toNat_inj, BitVec.toNat_and, BitVec.toNat_ofNat]
  have hpow : 2 ^ w % 2 ^ (w + 1) = 2 ^ w := Nat.mod_eq_of_lt (Nat.pow_lt_pow_right (by omega) (by omega))
  have hzero : (0 : BitVec (w + 1)).toNat = 0 := rfl
  rw [hpow, Nat.and_two_pow, hzero]
  have hd : d.toNat.testBit w = decide (2 ^ w ≤ d.toNat) := by
    have hlast : d.getLsbD (w + 1 - 1) = decide (2 ^ (w + 1 - 1) ≤ d.toNat) := by
      rw [← BitVec.msb_eq_getLsbD_last, BitVec.msb_eq_decide]
    exact hlast
  rw [hd]
  by_cases h : 2 ^ w ≤ d.toNat
  · simp [h]
  · simp only [h, decide_false, Bool.toNat_false, Nat.zero_mul, true_iff]
    omega

/-- The low bits of a position find its slot in a ring whose size is a power of two. -/
theorem ofNat_land_mask {size : Nat} (h : ∃ k, k ≤ w ∧ size = 2 ^ k) (p : Nat) :
    (BitVec.ofNat w p).toNat &&& (size - 1) = p % size := by
  obtain ⟨k, hk, rfl⟩ := h
  rw [Ring.land_mask ⟨k, rfl⟩, BitVec.toNat_ofNat]
  exact Nat.mod_mod_of_dvd p (Nat.pow_dvd_pow 2 hk)

end Llam.Lib.WrapIndex
