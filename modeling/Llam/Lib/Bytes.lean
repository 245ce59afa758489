import Mathlib

/-!
# Byte areas

Memory as a function of addresses. Writing a list of bytes changes the bytes of its window only (`write_outside`), and
clearing a window leaves zeros in it (`clear_inside`).
-/

namespace Llam.Lib

abbrev Bytes := Nat → UInt8

namespace Bytes

variable (d : Bytes)

/-- The bytes from `offset` on. -/
def write (offset : Nat) (bytes : List UInt8) : Bytes := fun j => if offset ≤ j then (bytes[j - offset]?).getD (d j) else d j

def read (offset length : Nat) : List UInt8 := (List.range length).map fun i => d (offset + i)

/-- Zeros from `offset` on. -/
def clear (offset length : Nat) : Bytes := d.write offset (List.replicate length 0)

variable {d} {offset length j : Nat} {bytes : List UInt8}

theorem write_outside (h : j < offset ∨ offset + bytes.length ≤ j) : d.write offset bytes j = d j := by
  unfold write
  split
  · rw [List.getElem?_eq_none (by omega), Option.getD_none]
  · rfl

theorem write_inside (hle : offset ≤ j) (hlt : j - offset < bytes.length) : d.write offset bytes j = bytes[j - offset] := by
  unfold write
  rw [if_pos hle, List.getElem?_eq_getElem hlt, Option.getD_some]

theorem clear_outside (h : j < offset ∨ offset + length ≤ j) : d.clear offset length j = d j :=
  write_outside (by rwa [List.length_replicate])

theorem clear_inside (hle : offset ≤ j) (hlt : j < offset + length) : d.clear offset length j = 0 := by
  have hindex : j - offset < (List.replicate length (0 : UInt8)).length := by
    rw [List.length_replicate]
    omega
  rw [clear, write_inside hle hindex, List.getElem_replicate]

end Bytes

end Llam.Lib
