import Mathlib.Order.RelClasses
import Mathlib.Order.WellFounded
import Ogre.Library.Machine

/-! Runs without an end, and what weak fairness makes sure of in them. -/
namespace Ogre.Library.Machine
variable {σ α β : Type*} {M : Machine σ α}

structure Endless (M : Machine σ α) where
  state : Nat → σ
  label : Nat → α
  step : ∀ n, M.step (state n) (label n) = some (state (n + 1))

namespace Endless
variable (e : Endless M) {P Q I : σ → Prop} {A : α → Prop} {n : Nat}

/-- If one of the labels is enabled from some time on, one of them is taken after it. -/
def WeakFair (A : α → Prop) : Prop :=
  ∀ n, (∀ m, n ≤ m → ∃ a t, A a ∧ M.step (e.state m) a = some t) → ∃ m, n ≤ m ∧ A (e.label m)

variable {e}

theorem invariant (hs : ∀ s a t, I s → M.step s a = some t → I t) (hi : I (e.state 0)) (n : Nat) : I (e.state n) := by
  induction n with
  | zero => exact hi
  | succ n ih => exact hs _ _ _ ih (e.step n)

/-- What no step undoes, stays. -/
theorem stable (hs : ∀ s a t, I s → M.step s a = some t → I t) {m : Nat} (hn : I (e.state n)) (hm : n ≤ m) :
    I (e.state m) := by
  induction m, hm using Nat.le_induction with
  | base => exact hn
  | succ m _ ih => exact hs _ _ _ ih (e.step m)

/-- If one of the labels is enabled as long as `P` is true, each of them lowers the rank there and
none of the others raises it, then fairness leads out of `P`, and that is to `Q`. -/
theorem WeakFair.leads_to_of_rank [Preorder β] [WellFoundedLT β] (hfair : e.WeakFair A) (rank : σ → β)
    (henabled : ∀ s, P s → ∃ a t, A a ∧ M.step s a = some t)
    (htaken : ∀ m, n ≤ m → P (e.state m) → A (e.label m) →
      (P (e.state (m + 1)) ∧ rank (e.state (m + 1)) < rank (e.state m)) ∨ Q (e.state (m + 1)))
    (hkept : ∀ m, n ≤ m → P (e.state m) → ¬ A (e.label m) →
      (P (e.state (m + 1)) ∧ rank (e.state (m + 1)) ≤ rank (e.state m)) ∨ Q (e.state (m + 1)))
    (hp : P (e.state n)) : ∃ m, n < m ∧ Q (e.state m) := by
  induction hr : rank (e.state n) using WellFoundedLT.induction generalizing n with
  | ind r ih =>
    subst hr
    by_cases hdrop : ∃ m, n ≤ m ∧ P (e.state m) ∧ rank (e.state m) < rank (e.state n)
    · obtain ⟨m, hm, hpm, hrank⟩ := hdrop
      obtain ⟨k, hk, hq⟩ := ih _ hrank (fun k hk => htaken k (hm.trans hk)) (fun k hk => hkept k (hm.trans hk)) hpm rfl
      exact ⟨k, hm.trans_lt hk, hq⟩
    by_contra hnever
    have hstep : ∀ m, n ≤ m → P (e.state m) → rank (e.state m) ≤ rank (e.state n) →
        ¬ A (e.label m) ∧ P (e.state (m + 1)) ∧ rank (e.state (m + 1)) ≤ rank (e.state n) := by
      intro m hm hpm hrank
      by_cases ha : A (e.label m)
      · rcases htaken m hm hpm ha with ⟨hnext, hlower⟩ | hq
        · exact absurd ⟨m + 1, hm.trans (Nat.le_succ m), hnext, hlower.trans_le hrank⟩ hdrop
        · exact absurd ⟨m + 1, Nat.lt_succ_of_le hm, hq⟩ hnever
      · rcases hkept m hm hpm ha with ⟨hnext, hsame⟩ | hq
        · exact ⟨ha, hnext, hsame.trans hrank⟩
        · exact absurd ⟨m + 1, Nat.lt_succ_of_le hm, hq⟩ hnever
    have hstays : ∀ m, n ≤ m → P (e.state m) ∧ rank (e.state m) ≤ rank (e.state n) := by
      intro m hm
      induction m, hm using Nat.le_induction with
      | base => exact ⟨hp, le_rfl⟩
      | succ m hm ihm => exact (hstep m hm ihm.1 ihm.2).2
    obtain ⟨m, hm, ha⟩ := hfair n fun m hm => henabled _ (hstays m hm).1
    exact (hstep m hm (hstays m hm).1 (hstays m hm).2).1 ha

/-- If `P` enables one of the labels, each of them leads to `Q`, and no other leaves `P`. -/
theorem WeakFair.leads_to (hfair : e.WeakFair A) (henabled : ∀ s, P s → ∃ a t, A a ∧ M.step s a = some t)
    (htaken : ∀ m, P (e.state m) → A (e.label m) → Q (e.state (m + 1)))
    (hkept : ∀ m, P (e.state m) → ¬ A (e.label m) → P (e.state (m + 1))) (hp : P (e.state n)) :
    ∃ m, n < m ∧ Q (e.state m) :=
  hfair.leads_to_of_rank (fun _ => 0) henabled (fun m _ hpm ha => .inr (htaken m hpm ha))
    (fun m _ hpm ha => .inl ⟨hkept m hpm ha, le_rfl⟩) hp

/-- Labels that are taken again and again are fair. -/
theorem weakFair_of_often (h : ∀ n, ∃ m, n ≤ m ∧ A (e.label m)) : e.WeakFair A := fun n _ => h n

/-- Where the run only stutters in the end, fairness is about what is enabled there. -/
theorem weakFair_of_idle {s : σ} {k : Nat} (hend : ∀ m, k ≤ m → e.state m = s) (hidle : ∀ a, A a → M.step s a = none) :
    e.WeakFair A := by
  intro n henabled
  obtain ⟨a, t, ha, ht⟩ := henabled (max n k) (le_max_left n k)
  rw [hend _ (le_max_right n k), hidle a ha] at ht
  cases ht

end Endless

/-- Longer and longer runs, each of them the beginning of the next, make one without an end. -/
theorem exists_endless_of_prefixes {s : σ} {labels : Nat → List α} (hr : ∀ n, ∃ t, M.runFrom s (labels n) = some t)
    (hgrows : ∀ n, labels n <+: labels (n + 1)) (hlength : ∀ n, n ≤ (labels n).length) :
    ∃ e : Endless M, (∀ n m (hm : m < (labels n).length), e.label m = (labels n)[m]) ∧
      ∀ n m, m ≤ (labels n).length → M.runFrom s ((labels n).take m) = some (e.state m) := by
  have hmono {n k : Nat} (hk : n ≤ k) : labels n <+: labels k := by
    induction k, hk using Nat.le_induction with
    | base => exact List.prefix_rfl
    | succ k _ ih => exact ih.trans (hgrows k)
  have hsame {n k m : Nat} (hm : m < (labels n).length) (hk : m < (labels k).length) : (labels n)[m] = (labels k)[m] := by
    rcases le_total n k with hle | hle
    · exact (hmono hle).getElem hm
    · exact ((hmono hle).getElem hk).symm
  have htake {n k m : Nat} (hm : m ≤ (labels n).length) (hk : m ≤ (labels k).length) :
      (labels n).take m = (labels k).take m := by
    rcases le_total n k with hle | hle
    · obtain ⟨rest, hrest⟩ := hmono hle
      rw [← hrest, List.take_append_of_le_length hm]
    · obtain ⟨rest, hrest⟩ := hmono hle
      rw [← hrest, List.take_append_of_le_length hk]
  have hpart (n m : Nat) : ∃ t, M.runFrom s ((labels n).take m) = some t := by
    obtain ⟨u, hu⟩ := hr n
    rw [← List.take_append_drop m (labels n), runFrom_append] at hu
    exact hu.imp fun _ h => h.1
  choose state hstate using fun m => hpart m m
  refine ⟨⟨state, fun m => (labels (m + 1)).get ⟨m, hlength (m + 1)⟩, fun m => ?_⟩,
    fun n m hm => hsame (hlength (m + 1)) hm, fun n m hm => ?_⟩
  · have hnext := hstate (m + 1)
    rw [← List.take_append_getElem (hlength (m + 1)), runFrom_append] at hnext
    obtain ⟨t, ht, hnext⟩ := hnext
    rw [htake ((Nat.le_succ m).trans (hlength (m + 1))) (hlength m), hstate m] at ht
    obtain rfl := Option.some.inj ht
    obtain ⟨u, hu, hnext⟩ := runFrom_cons_some.mp hnext
    exact hu.trans hnext
  · rw [htake hm (hlength m)]
    exact hstate m

/-- A run that ends where a label leads back to is the beginning of one without an end. -/
theorem exists_endless {s t : σ} {labels : List α} {a : α} (hr : M.runFrom s labels = some t) (ha : M.step t a = some t) :
    ∃ e : Endless M, e.state 0 = s ∧ (∀ n (hn : n < labels.length), e.label n = labels[n]) ∧
      ∀ n, labels.length ≤ n → e.state n = t ∧ e.label n = a := by
  induction labels generalizing s with
  | nil =>
    obtain rfl : s = t := by simpa using hr
    exact ⟨⟨fun _ => s, fun _ => a, fun _ => ha⟩, rfl, by simp, by simp⟩
  | cons b labels ih =>
    obtain ⟨u, hu, hr⟩ := runFrom_cons_some.mp hr
    obtain ⟨e, hstart, hlabels, hend⟩ := ih hr
    refine ⟨⟨fun n => n.casesOn s e.state, fun n => n.casesOn b e.label, fun n => ?_⟩, rfl, fun n hn => ?_, fun n hn => ?_⟩
    · cases n with
      | zero => exact hu.trans (congrArg some hstart.symm)
      | succ n => exact e.step n
    · cases n with
      | zero => rfl
      | succ n => exact hlabels n (Nat.lt_of_succ_lt_succ hn)
    · cases n with
      | zero => simp at hn
      | succ n => exact hend n (Nat.le_of_succ_le_succ hn)

end Ogre.Library.Machine
