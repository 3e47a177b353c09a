import Mathlib.Algebra.BigOperators.Group.List.Basic
import Mathlib.Data.List.Perm.Basic

/-! Sums over a list of which one element is taken out or replaced. -/
namespace Ogre.Library
variable {α M : Type*} [AddCommMonoid M] (f : α → M) {l : List α} {x y : α} {i : Nat}

theorem sum_eraseIdx (h : l[i]? = some x) : (l.map f).sum = f x + ((l.eraseIdx i).map f).sum := by
  obtain ⟨hi, rfl⟩ := List.getElem?_eq_some_iff.mp h
  have hp := (List.getElem_cons_eraseIdx_perm hi).map f
  rw [← hp.sum_eq, List.map_cons, List.sum_cons]

theorem sum_set (h : l[i]? = some x) (y : α) : ((l.set i y).map f).sum = f y + ((l.eraseIdx i).map f).sum := by
  obtain ⟨hi, -⟩ := List.getElem?_eq_some_iff.mp h
  have hp := (List.set_perm_cons_eraseIdx hi y).map f
  rw [hp.sum_eq, List.map_cons, List.sum_cons]

/-- What the new element has less than the old one is missing from the sum. -/
theorem sum_set_add {d : M} (h : l[i]? = some x) (hf : f y + d = f x) :
    ((l.set i y).map f).sum + d = (l.map f).sum := by
  rw [sum_set f h, sum_eraseIdx f h, ← hf, add_right_comm]

end Ogre.Library
