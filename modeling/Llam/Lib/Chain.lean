import Mathlib

/-!
# Chains of links

`Follows follow l` says that the links `follow` lead through the list `l` and end behind it. Forward links follow a list and
backward links its reverse, so that what is said of one direction holds of the other.
-/

namespace Llam.Lib

open Function

variable {α : Type}

/-- From every element the link leads to the next one, and from the last one nowhere. -/
def Follows (follow : α → Option α) : List α → Prop
  | [] => True
  | a :: l => follow a = l.head? ∧ Follows follow l

variable {follow follow' : α → Option α} {p a : α} {xs ys zs l : List α}

theorem Follows.congr (h : Follows follow l) (heq : ∀ b ∈ l, follow' b = follow b) : Follows follow' l := by
  induction l with
  | nil => trivial
  | cons b l ih =>
    exact ⟨(heq b List.mem_cons_self).trans h.1, ih h.2 fun c hc => heq c (List.mem_cons_of_mem b hc)⟩

theorem Follows.right (h : Follows follow (xs ++ ys)) : Follows follow ys := by
  induction xs with
  | nil => exact h
  | cons x xs ih => exact ih h.2

/-- Walk along the links to the first element with the property; `none` if that takes more than `fuel` links. -/
def search (found : α → Bool) (follow : α → Option α) : Nat → Option α → Option (Option α)
  | _, none => some none
  | 0, some _ => none
  | fuel + 1, some a => if found a then some (some a) else search found follow fuel (follow a)

theorem Follows.search (h : Follows follow l) (found : α → Bool) {fuel : Nat} (hfuel : l.length ≤ fuel) :
    search found follow fuel l.head? = some (l.find? found) := by
  induction l generalizing fuel with
  | nil => cases fuel <;> rfl
  | cons a l ih =>
    obtain ⟨fuel, rfl⟩ := Nat.exists_eq_add_of_le' (Nat.succ_pos _ |>.trans_le hfuel)
    simp only [Lib.search, List.head?_cons, List.find?_cons]
    cases found a with
    | true => rfl
    | false =>
      rw [if_neg Bool.false_ne_true, h.1]
      exact ih h.2 (Nat.le_of_succ_le_succ hfuel)

variable [DecidableEq α]

theorem Follows.update_of_notMem (h : Follows follow l) (hp : p ∉ l) (target : Option α) :
    Follows (update follow p target) l := by
  refine h.congr fun b hb => update_of_ne ?_ ..
  rintro rfl
  exact hp hb

/-- What is behind `p` is replaced when the link of `p` is. -/
theorem Follows.relink (h : Follows follow (xs ++ p :: zs)) (hys : Follows follow ys) (hxs : p ∉ xs) (hp : p ∉ ys) :
    Follows (update follow p ys.head?) (xs ++ p :: ys) := by
  induction xs with
  | nil => exact ⟨update_self .., hys.update_of_notMem hp _⟩
  | cons x xs ih =>
    rw [List.mem_cons, not_or] at hxs
    refine ⟨?_, ih h.2 hxs.2⟩
    rw [update_of_ne (Ne.symm hxs.1), h.1]
    cases xs <;> rfl

/-- Give the element, if there is one, another link. -/
def redirect (follow : α → Option α) : Option α → Option α → α → Option α
  | some p, target => update follow p target
  | none, _ => follow

theorem redirect_of_notMem (ha : a ∉ xs) (target : Option α) : redirect follow xs.getLast? target a = follow a := by
  cases hp : xs.getLast? with
  | none => rfl
  | some p =>
    refine update_of_ne ?_ ..
    rintro rfl
    exact ha (List.mem_of_getLast? hp)

/-- The link of the last element decides how a list goes on. -/
theorem Follows.splice (h : Follows follow (xs ++ zs)) (hys : Follows follow ys) (hnodup : (xs ++ ys).Nodup) :
    Follows (redirect follow xs.getLast? ys.head?) (xs ++ ys) := by
  rcases List.eq_nil_or_concat xs with rfl | ⟨xs, p, rfl⟩
  · exact hys
  · rw [List.concat_eq_append, List.append_assoc, List.singleton_append] at h hnodup
    rw [List.concat_eq_append, List.append_assoc, List.singleton_append, List.getLast?_concat]
    have hnodup' := List.nodup_middle.mp hnodup
    rw [List.nodup_cons, List.mem_append, not_or] at hnodup'
    exact h.relink hys hnodup'.1.1 hnodup'.1.2

end Llam.Lib
