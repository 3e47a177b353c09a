import Mathlib.Data.List.Basic

/-! Histories: lists of events in which each event stands to those before it. -/
namespace Ogre.Library
variable {α : Type*} {P : List α → α → Prop} {l : List α} {a : α}

/-- Every event of the list satisfies `P` with the list of the events before it. -/
def EachAfter (P : List α → α → Prop) (l : List α) : Prop :=
  ∀ before a after, l = before ++ a :: after → P before a

theorem eachAfter_nil : EachAfter P [] := by
  intro before a after h
  simp at h

/-- A new event is to satisfy the property with all events so far. -/
theorem eachAfter_concat : EachAfter P (l ++ [a]) ↔ EachAfter P l ∧ P l a := by
  constructor
  · intro h
    refine ⟨fun before b after hl => ?_, h l a [] rfl⟩
    exact h before b (after ++ [a]) (by rw [hl]; simp)
  · rintro ⟨hl, ha⟩ before b after h
    rcases List.eq_nil_or_concat after with rfl | ⟨after, c, rfl⟩
    · obtain ⟨rfl, hab⟩ := List.append_inj' h rfl
      obtain rfl : a = b := by simpa using hab
      exact ha
    · have h : l ++ [a] = (before ++ b :: after) ++ [c] := by simpa using h
      exact hl before b after (List.append_inj' h rfl).1

section Replay
variable {σ : Type*} {exec : σ → α → σ} {enabled : σ → α → Prop} {s t u : σ} {m : List α}

/-- Each event of the list is enabled in its turn, and together they lead from `s` to `t`. -/
def Replays (exec : σ → α → σ) (enabled : σ → α → Prop) (s : σ) : List α → σ → Prop
  | [], t => s = t
  | a :: l, t => enabled s a ∧ Replays exec enabled (exec s a) l t

theorem replays_append :
    Replays exec enabled s (l ++ m) u ↔ ∃ t, Replays exec enabled s l t ∧ Replays exec enabled t m u := by
  induction l generalizing s with
  | nil => simp [Replays]
  | cons a l ih => simp only [List.cons_append, Replays, ih, and_assoc, exists_and_left]

theorem Replays.concat (h : Replays exec enabled s l t) (ha : enabled t a) :
    Replays exec enabled s (l ++ [a]) (exec t a) :=
  replays_append.mpr ⟨t, h, ha, rfl⟩

end Replay

end Ogre.Library
