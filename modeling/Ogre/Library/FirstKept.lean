import Mathlib.Logic.Function.Basic
import Ogre.Library.Machine

/-! Caches whose slots keep what was first put in them, filled along the run of a
machine. What a slot holds agrees with every later user of it if and only if all
the users of one slot agree with each other. -/
namespace Ogre.Library.Machine
variable {σ α γ κ ν : Type*} (M : Machine σ α)

/-- The events of a run in their order. -/
def collect (event : σ → α → Option γ) (s : σ) : List α → List γ
  | [] => []
  | a :: as => match M.step s a with
    | none => []
    | some t => (event s a).toList ++ collect event t as

variable {M} {event : σ → α → Option γ} {slot : γ → κ} {content : γ → ν} {cache : σ → κ → Option ν}
  {I : σ → Prop} {P : σ → α → σ → Prop} {s t : σ} {a : α} {as : List α} {e : γ}

theorem collect_cons (h : M.step s a = some t) :
    M.collect event s (a :: as) = (event s a).toList ++ M.collect event t as := by simp [collect, h]

/-- What is true of the events of states that satisfy an invariant. -/
theorem forall_collect {Q : γ → Prop} (hi : ∀ s a t, I s → M.step s a = some t → I t)
    (hq : ∀ s a e, I s → event s a = some e → Q e) (hs : I s) : ∀ e ∈ M.collect event s as, Q e := by
  induction as generalizing s with
  | nil => simp [collect]
  | cons a as ih =>
    intro e he
    cases h : M.step s a with
    | none => simp [collect, h] at he
    | some t =>
      rw [collect_cons h, List.mem_append, Option.mem_toList] at he
      rcases he with he | he
      · exact hq s a e hs he
      · exact ih (hi s a t hs h) e he

/-- What the slot of the event holds, if anything, is the content of the event. -/
def Agrees (slot : γ → κ) (content : γ → ν) (cache : κ → Option ν) (e : γ) : Prop :=
  ∀ v, cache (slot e) = some v → v = content e

variable [DecidableEq κ]

/-- The slot of the event keeps what it holds, or else takes the content of the event. -/
def fill (slot : γ → κ) (content : γ → ν) (cache : κ → Option ν) : Option γ → κ → Option ν
  | none => cache
  | some e => Function.update cache (slot e) (some ((cache (slot e)).getD (content e)))

/-- A later event agrees with a cache that an event has filled, if it agreed before, and
agrees with that event where it has the same slot. -/
private theorem agrees_fill {c : κ → Option ν} {d : γ} (he : Agrees slot content c e) :
    Agrees slot content (fill slot content c (some e)) d ↔
      Agrees slot content c d ∧ (slot e = slot d → content e = content d) := by
  have hkept : (c (slot e)).getD (content e) = content e := by
    cases hc : c (slot e) with
    | none => rfl
    | some v => exact he v hc
  simp only [Agrees, fill, hkept]
  rcases eq_or_ne (slot d) (slot e) with hslot | hslot
  · simp only [hslot, Function.update_self, Option.some.injEq, forall_eq', true_implies]
    exact ⟨fun h => ⟨fun v hv => (he v hv).trans h, h⟩, fun h => h.2⟩
  · simp [Function.update_of_ne hslot, Ne.symm hslot]

theorem along_iff_agrees
    (hi : ∀ s a t, I s → M.step s a = some t → I t)
    (hfill : ∀ s a t, I s → M.step s a = some t → cache t = fill slot content (cache s) (event s a))
    (hp : ∀ s a t, I s → M.step s a = some t → (P s a t ↔ ∀ e ∈ event s a, Agrees slot content (cache s) e))
    (hs : I s) : M.Along P s as ↔ (∀ e ∈ M.collect event s as, Agrees slot content (cache s) e) ∧
      (M.collect event s as).Pairwise fun d e => slot d = slot e → content d = content e := by
  induction as generalizing s with
  | nil => simp [collect]
  | cons a as ih =>
    cases h : M.step s a with
    | none => simp [Along, collect, h]
    | some t =>
      rw [along_cons h, collect_cons h, hp s a t hs h, ih (hi s a t hs h), hfill s a t hs h]
      cases event s a with
      | none => simp [fill]
      | some e =>
        simp only [Option.mem_def, Option.some.injEq, forall_eq', Option.toList_some, List.cons_append,
          List.nil_append, List.mem_cons, forall_eq_or_imp, List.pairwise_cons]
        rw [and_assoc]
        refine and_congr_right fun he => ?_
        simp only [agrees_fill he, forall_and, and_assoc]

/-- In a run that starts with empty slots. -/
theorem along_iff_pairwise
    (hi : ∀ s a t, I s → M.step s a = some t → I t)
    (hfill : ∀ s a t, I s → M.step s a = some t → cache t = fill slot content (cache s) (event s a))
    (hp : ∀ s a t, I s → M.step s a = some t → (P s a t ↔ ∀ e ∈ event s a, Agrees slot content (cache s) e))
    (hs : I s) (hempty : ∀ k, cache s k = none) : M.Along P s as ↔
      (M.collect event s as).Pairwise fun d e => slot d = slot e → content d = content e := by
  rw [along_iff_agrees hi hfill hp hs]
  exact and_iff_right fun e _ v hv => by simp [hempty] at hv

end Ogre.Library.Machine
