import Mathlib

/-!
# Tallies

A quantity that many parties share is the sum of what each of them contributes. `tally w f` is that sum over a family `f`
of parties, where `w i x` is the contribution of party `i` in the state `x`; only finitely many parties contribute.
Changing one party moves the tally by the difference of its contributions (`tally_update`).
-/

namespace Llam.Lib

variable {ι β : Type} {w : ι → β → Int} {f : ι → β} {i j : ι}

/-- The sum of the contributions of all parties. -/
noncomputable def tally (w : ι → β → Int) (f : ι → β) : Int := ∑ᶠ i, w i (f i)

/-- Only finitely many parties are not blank. -/
def FewBusy (blank : β → Prop) (f : ι → β) : Prop := {i | ¬ blank (f i)}.Finite

variable {blank : β → Prop}

theorem FewBusy.update [DecidableEq ι] (h : FewBusy blank f) (i : ι) (x : β) :
    FewBusy blank (Function.update f i x) := by
  refine (h.insert i).subset fun j hj => ?_
  rcases eq_or_ne j i with rfl | hne
  · exact Set.mem_insert _ _
  have hj' : ¬ blank (Function.update f i x j) := hj
  rw [Function.update_of_ne hne] at hj'
  exact Set.mem_insert_of_mem _ hj'

/-- Blank parties contribute nothing. -/
theorem FewBusy.support (h : FewBusy blank f) (hw : ∀ i x, blank x → w i x = 0) :
    (Function.support fun i => w i (f i)).Finite :=
  h.subset fun i hi hb => hi (hw i (f i) hb)

/-- **One party changes**: the tally moves by the difference of its contributions. -/
theorem tally_update [DecidableEq ι] (h : FewBusy blank f) (hw : ∀ i x, blank x → w i x = 0) (i : ι) (x : β) :
    tally w (Function.update f i x) = tally w f - w i (f i) + w i x := by
  have hfin := h.support hw
  have hfin' := (h.update i x).support hw
  let S := insert i (hfin.toFinset ∪ hfin'.toFinset)
  have hsum : tally w f = ∑ j ∈ S, w j (f j) := by
    refine finsum_eq_sum_of_support_subset _ fun j hj => ?_
    simp only [S, Finset.coe_insert, Finset.coe_union, Set.Finite.coe_toFinset]
    exact Set.mem_insert_of_mem _ (Set.mem_union_left _ hj)
  have hsum' : tally w (Function.update f i x) = ∑ j ∈ S, w j (Function.update f i x j) := by
    refine finsum_eq_sum_of_support_subset _ fun j hj => ?_
    simp only [S, Finset.coe_insert, Finset.coe_union, Set.Finite.coe_toFinset]
    exact Set.mem_insert_of_mem _ (Set.mem_union_right _ hj)
  have hi : i ∈ S := Finset.mem_insert_self _ _
  have hrest : ∑ j ∈ S.erase i, w j (Function.update f i x j) = ∑ j ∈ S.erase i, w j (f j) := by
    refine Finset.sum_congr rfl fun j hj => ?_
    rw [Function.update_of_ne (Finset.ne_of_mem_erase hj)]
  rw [hsum, hsum', ← Finset.add_sum_erase S _ hi, ← Finset.add_sum_erase S (fun j => w j (f j)) hi, hrest,
    Function.update_self]
  omega

theorem tally_eq_zero (h : ∀ i, w i (f i) = 0) : tally w f = 0 := by
  unfold tally
  simp only [h]
  exact finsum_zero

theorem tally_single (i : ι) (h : ∀ j, j ≠ i → w j (f j) = 0) : tally w f = w i (f i) :=
  finsum_eq_single _ i h

theorem tally_congr {w' : ι → β → Int} (h : ∀ i, w i (f i) = w' i (f i)) : tally w f = tally w' f :=
  finsum_congr h

theorem tally_neg : tally (fun i x => -w i x) f = -tally w f := finsum_neg_distrib _

theorem tally_sub {v : ι → β → Int} (h : FewBusy blank f) (hw : ∀ i x, blank x → w i x = 0)
    (hv : ∀ i x, blank x → v i x = 0) : tally (fun i x => w i x - v i x) f = tally w f - tally v f :=
  finsum_sub_distrib (h.support hw) (h.support hv)

theorem tally_nonneg (h : ∀ i, 0 ≤ w i (f i)) : 0 ≤ tally w f := finsum_nonneg h

section Nonneg

variable (h : FewBusy blank f) (hw : ∀ i x, blank x → w i x = 0) (hpos : ∀ i, 0 ≤ w i (f i))
include h hw hpos

theorem le_tally (i : ι) : w i (f i) ≤ tally w f := single_le_finsum i (h.support hw) hpos

theorem add_le_tally [DecidableEq ι] (hij : i ≠ j) {x : β} (hx : blank x) : w i (f i) + w j (f j) ≤ tally w f := by
  have hrest := tally_update h hw i x
  have hle : w j (Function.update f i x j) ≤ tally w (Function.update f i x) := by
    refine le_tally (h.update i x) hw (fun k => ?_) j
    rcases eq_or_ne k i with rfl | hne
    · rw [Function.update_self, hw k x hx]
    · rw [Function.update_of_ne hne]
      exact hpos k
  rw [Function.update_of_ne hij.symm, hrest, hw i x hx] at hle
  omega

end Nonneg

end Llam.Lib
