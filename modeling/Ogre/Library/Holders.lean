import Mathlib.Algebra.BigOperators.Group.Finset.Basic
import Mathlib.Algebra.Order.BigOperators.Group.Finset
import Mathlib.Data.Fintype.BigOperators
import Mathlib.Data.Set.Card

/-! What a table adds up to, after one of its entries was changed. -/
namespace Ogre.Library

section Holders
variable {ι α : Type*} {f : ι → Option α} {i : ι} {v : Option α} {a : α}

/-- How many entries of a table are `a`. -/
noncomputable def holders (f : ι → Option α) (a : α) : Nat := {i | f i = some a}.ncard

/-- The entries of a table that are not empty are finitely many. -/
def Finite (f : ι → Option α) : Prop := {i | f i ≠ none}.Finite

theorem Finite.holders (hf : Finite f) (a : α) : {i | f i = some a}.Finite :=
  Set.Finite.subset hf fun i hi => by
    rw [Set.mem_ofPred_eq] at hi ⊢
    rw [hi]
    exact Option.some_ne_none a

theorem holders_pos (hf : Finite f) (hi : f i = some a) : 0 < holders f a :=
  (Set.ncard_pos (hf.holders a)).mpr ⟨i, hi⟩

theorem holders_eq_zero (hf : Finite f) : holders f a = 0 ↔ ∀ i, f i ≠ some a := by
  rw [holders, Set.ncard_eq_zero (hf.holders a), Set.eq_empty_iff_forall_notMem]
  rfl

/-- The only entry that is `a`. -/
theorem holders_eq_one (hf : Finite f) (hi : f i = some a) (h : holders f a ≤ 1) (j : ι) (hj : f j = some a) :
    j = i :=
  (Set.ncard_le_one (hf.holders a)).mp h j hj i hi

theorem Finite.update [DecidableEq ι] (hf : Finite f) (i : ι) (v : Option α) : Finite (Function.update f i v) := by
  refine (Set.Finite.insert i hf).subset fun j hj => ?_
  by_cases hji : j = i
  · exact .inl hji
  · refine .inr ?_
    rwa [Set.mem_ofPred_eq, Function.update_of_ne hji] at hj

/-- One element more or less makes one in the number of elements. -/
private theorem ncard_split {s : Set ι} (hs : s.Finite) (i : ι) [Decidable (i ∈ s)] :
    s.ncard = (s \ {i}).ncard + if i ∈ s then 1 else 0 := by
  split
  next hi => exact (Set.ncard_sdiff_singleton_add_one hi hs).symm
  next hi => rw [Set.sdiff_singleton_eq_self hi, Nat.add_zero]

theorem holders_update [DecidableEq ι] [DecidableEq α] (hf : Finite f) (i : ι) (v : Option α) (a : α) :
    holders (Function.update f i v) a + (if f i = some a then 1 else 0) =
      holders f a + if v = some a then 1 else 0 := by
  have hold := ncard_split (hf.holders a) i
  have hnew := ncard_split ((hf.update i v).holders a) i
  have hsame : {j | Function.update f i v j = some a} \ {i} = {j | f j = some a} \ {i} := by
    ext j
    by_cases hji : j = i
    · simp [hji]
    · simp [hji]
  rw [hsame] at hnew
  simp only [Set.mem_ofPred_eq, Function.update_self] at hold hnew
  unfold holders
  rw [hold, hnew]
  omega

end Holders

section Totals
variable {τ β : Type*} [Fintype τ]

/-- What the entries of a table weigh together. -/
def total (g : β → Nat) (f : τ → β) : Nat := ∑ t, g (f t)

theorem total_update [DecidableEq τ] (g : β → Nat) (f : τ → β) (t : τ) (x : β) :
    total g (Function.update f t x) + g (f t) = total g f + g x := by
  have hold := Finset.add_sum_erase Finset.univ (fun u => g (f u)) (Finset.mem_univ t)
  have hnew := Finset.add_sum_erase Finset.univ (fun u => g (Function.update f t x u)) (Finset.mem_univ t)
  have hsame : ∑ u ∈ Finset.univ.erase t, g (Function.update f t x u) = ∑ u ∈ Finset.univ.erase t, g (f u) := by
    refine Finset.sum_congr rfl fun u hu => ?_
    rw [Function.update_of_ne (Finset.ne_of_mem_erase hu)]
  rw [hsame, Function.update_self] at hnew
  unfold total
  omega

theorem part_le_total (g : β → Nat) (f : τ → β) (t : τ) : g (f t) ≤ total g f :=
  Finset.single_le_sum_of_canonicallyOrdered (f := fun u => g (f u)) (Finset.mem_univ t)

theorem total_eq_zero (g : β → Nat) (f : τ → β) : total g f = 0 ↔ ∀ t, g (f t) = 0 := by
  simp [total]

end Totals
end Ogre.Library
