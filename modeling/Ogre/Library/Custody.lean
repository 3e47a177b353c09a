import Mathlib.Data.Multiset.Count
import Mathlib.Logic.Function.Basic

/-! Tokens that are handed from holder to holder: each is made once, and is then held by one of them,
in transit, or gone. -/
namespace Ogre.Library

/-- Tokens have the numbers in which they were made. At most one is in transit. -/
@[ext] structure Custody (ι : Type*) where
  held : ι → Option Nat
  inTransit : Option Nat := none
  made : Nat := 0
  gone : Multiset Nat := 0

namespace Custody
variable {ι : Type*}

/-- The tokens that nobody holds. -/
def unheld (c : Custody ι) : Multiset Nat :=
  match c.inTransit with
  | none => c.gone
  | some token => token ::ₘ c.gone

/-- Each token that was made is at one place, and there are no others. -/
structure Sound (c : Custody ι) : Prop where
  unique : ∀ i j token, c.held i = some token → c.held j = some token → i = j
  nodup : c.unheld.Nodup
  apart : ∀ i token, c.held i = some token → token ∉ c.unheld
  made : ∀ token, token < c.made ↔ (∃ i, c.held i = some token) ∨ token ∈ c.unheld

def make (c : Custody ι) : Custody ι := { c with inTransit := some c.made, made := c.made + 1 }

/-- What is in transit goes for good. -/
def dispose (c : Custody ι) : Custody ι := { c with inTransit := none, gone := c.unheld }

section Holders
variable [DecidableEq ι]

def take (c : Custody ι) (i : ι) : Custody ι :=
  { c with held := Function.update c.held i none, inTransit := c.held i }

def put (c : Custody ι) (i : ι) : Custody ι :=
  { c with held := Function.update c.held i c.inTransit, inTransit := none }

end Holders

variable {c : Custody ι} {i j : ι} {token : Nat}

theorem unheld_none (h : c.inTransit = none) : c.unheld = c.gone := by
  rw [unheld, h]

theorem unheld_some (h : c.inTransit = some token) : c.unheld = token ::ₘ c.gone := by
  rw [unheld, h]

/-- While none is in transit, a token has one holder, or went once. -/
theorem Sound.held_or_gone (h : c.Sound) (hnone : c.inTransit = none) (htoken : token < c.made) :
    (∃ i, ∀ j, c.held j = some token ↔ j = i) ∧ c.gone.count token = 0 ∨
      (∀ j, c.held j ≠ some token) ∧ c.gone.count token = 1 := by
  have hunheld := unheld_none hnone
  rcases (h.made token).mp htoken with ⟨i, hi⟩ | hgone
  · refine .inl ⟨⟨i, fun j => ⟨fun hj => h.unique j i token hj hi, ?_⟩⟩, ?_⟩
    · rintro rfl
      exact hi
    · exact Multiset.count_eq_zero.mpr (hunheld ▸ h.apart i token hi)
  · refine .inr ⟨fun j hj => h.apart j token hj hgone, ?_⟩
    exact Multiset.count_eq_one_of_mem (hunheld ▸ h.nodup) (hunheld ▸ hgone)

theorem Sound.make (h : c.Sound) (hnone : c.inTransit = none) : c.make.Sound := by
  have hunheld : c.make.unheld = c.made ::ₘ c.unheld := by
    rw [unheld_none hnone]
    rfl
  have hnew : ¬ ((∃ i, c.held i = some c.made) ∨ c.made ∈ c.unheld) := fun hmem => (h.made _).mpr hmem |>.false
  obtain ⟨hheld, hmem⟩ := not_or.mp hnew
  refine ⟨h.unique, ?_, fun i token hi => ?_, fun token => ?_⟩
  · rw [hunheld, Multiset.nodup_cons]
    exact ⟨hmem, h.nodup⟩
  · rw [hunheld, Multiset.mem_cons]
    rintro (rfl | htoken)
    · exact hheld ⟨i, hi⟩
    · exact h.apart i token hi htoken
  · rw [hunheld, Multiset.mem_cons, or_left_comm]
    exact Nat.lt_succ_iff_lt_or_eq.trans (or_comm.trans (or_congr_right (h.made token)))

theorem Sound.dispose (h : c.Sound) : c.dispose.Sound := ⟨h.unique, h.nodup, h.apart, h.made⟩

theorem mem_unheld : token ∈ c.unheld ↔ c.inTransit = some token ∨ token ∈ c.gone := by
  cases ht : c.inTransit with
  | none => simp [unheld_none ht]
  | some other => simp [unheld_some ht, eq_comm]

variable [DecidableEq ι]

theorem held_take : (c.take i).held j = if j = i then none else c.held j := Function.update_apply _ _ _ _

theorem held_put : (c.put i).held j = if j = i then c.inTransit else c.held j := Function.update_apply _ _ _ _

theorem mem_unheld_take (hnone : c.inTransit = none) :
    token ∈ (c.take i).unheld ↔ c.held i = some token ∨ token ∈ c.unheld := by
  rw [mem_unheld, unheld_none hnone]
  rfl

theorem Sound.take (h : c.Sound) (hnone : c.inTransit = none) (i : ι) : (c.take i).Sound where
  unique j k token hj hk := by
    rw [held_take] at hj hk
    split at hj
    · cases hj
    split at hk
    · cases hk
    · exact h.unique j k token hj hk
  nodup := by
    have hnodup : c.gone.Nodup := unheld_none hnone ▸ h.nodup
    cases hi : c.held i with
    | none => exact (unheld_none (c := c.take i) hi).symm ▸ hnodup
    | some token =>
      have hapart : token ∉ c.gone := unheld_none hnone ▸ h.apart i token hi
      rw [unheld_some (c := c.take i) hi]
      exact Multiset.nodup_cons.mpr ⟨hapart, hnodup⟩
  apart j token hj := by
    rw [held_take] at hj
    split at hj
    · cases hj
    next hne =>
      rw [mem_unheld_take hnone, not_or]
      exact ⟨fun hi => hne (h.unique j i token hj hi), h.apart j token hj⟩
  made token := by
    rw [mem_unheld_take hnone, ← or_assoc]
    refine (h.made token).trans (or_congr_left ⟨?_, ?_⟩)
    · rintro ⟨j, hj⟩
      by_cases hji : j = i
      · exact .inr (hji ▸ hj)
      · exact .inl ⟨j, by rw [held_take, if_neg hji, hj]⟩
    · rintro (⟨j, hj⟩ | hi)
      · rw [held_take] at hj
        split at hj
        · cases hj
        · exact ⟨j, hj⟩
      · exact ⟨i, hi⟩

/-- A holder that has none gets what is in transit. -/
theorem Sound.put (h : c.Sound) (hi : c.held i = none) : (c.put i).Sound where
  unique j k token hj hk := by
    rw [held_put] at hj hk
    split at hj
    next hji =>
      split at hk
      next hki => rw [hji, hki]
      next => exact absurd (mem_unheld.mpr (.inl hj)) (h.apart k token hk)
    next =>
      split at hk
      next => exact absurd (mem_unheld.mpr (.inl hk)) (h.apart j token hj)
      next => exact h.unique j k token hj hk
  nodup := by
    have hgone : c.gone ≤ c.unheld := by
      cases ht : c.inTransit with
      | none => rw [unheld_none ht]
      | some token => exact unheld_some ht ▸ Multiset.le_cons_self _ _
    exact Multiset.nodup_of_le hgone h.nodup
  apart j token hj := by
    change token ∉ c.gone
    rw [held_put] at hj
    split at hj
    · have hnodup := h.nodup
      rw [unheld_some hj] at hnodup
      exact (Multiset.nodup_cons.mp hnodup).1
    · exact fun hgone => h.apart j token hj (mem_unheld.mpr (.inr hgone))
  made token := by
    refine (h.made token).trans ⟨?_, ?_⟩
    · rintro (⟨j, hj⟩ | hunheld)
      · have hne : j ≠ i := by
          rintro rfl
          rw [hi] at hj
          cases hj
        exact .inl ⟨j, by rw [held_put, if_neg hne, hj]⟩
      · rcases mem_unheld.mp hunheld with ht | hgone
        · exact .inl ⟨i, by rw [held_put, if_pos rfl, ht]⟩
        · exact .inr hgone
    · rintro (⟨j, hj⟩ | hgone)
      · rw [held_put] at hj
        split at hj
        · exact .inr (mem_unheld.mpr (.inl hj))
        · exact .inl ⟨j, hj⟩
      · exact .inr (mem_unheld.mpr (.inr hgone))

/-- A holder that has one loses it. -/
theorem Sound.lost_put (h : c.Sound) (hi : c.held i = some token) :
    (∀ j, (c.put i).held j ≠ some token) ∧ token ∉ (c.put i).gone := by
  have hapart := h.apart i token hi
  rw [mem_unheld, not_or] at hapart
  refine ⟨fun j hj => ?_, hapart.2⟩
  rw [held_put] at hj
  split at hj
  · exact hapart.1 hj
  next hne => exact hne (h.unique j i token hj hi)

end Custody
end Ogre.Library
