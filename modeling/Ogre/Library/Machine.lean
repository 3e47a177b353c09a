import Mathlib.Data.List.Basic

/-! Machines with a partial step function. Every choice of the environment is
part of a label, so one list of labels is one run, and a label that is not
enabled has no successor. -/
namespace Ogre.Library

structure Machine (σ α : Type*) where
  init : σ
  step : σ → α → Option σ

namespace Machine
variable {σ α : Type*} (M : Machine σ α)

/-- The state after a list of labels, if each of them is enabled in its turn. -/
def runFrom (s : σ) : List α → Option σ
  | [] => some s
  | a :: as => (M.step s a).bind fun t => runFrom t as

def run (as : List α) : Option σ := M.runFrom M.init as

/-- Every step that is taken from `s` along the labels satisfies `P`. -/
def Along (P : σ → α → σ → Prop) (s : σ) : List α → Prop
  | [] => True
  | a :: as => match M.step s a with
    | none => True
    | some t => P s a t ∧ Along P t as

/-- Every label is taken in a state that satisfies `P` with it and with the labels after it. -/
def AlongWith (P : σ → α → List α → Prop) (s : σ) : List α → Prop
  | [] => True
  | a :: as => match M.step s a with
    | none => True
    | some t => P s a as ∧ AlongWith P t as

def alongDecidable (P : σ → α → σ → Prop) [∀ s a t, Decidable (P s a t)] (s : σ) :
    (as : List α) → Decidable (M.Along P s as)
  | [] => .isTrue trivial
  | a :: as => match h : M.step s a with
    | none => .isTrue (by simp [Along, h])
    | some t =>
      have := alongDecidable P t as
      decidable_of_iff (P s a t ∧ M.Along P t as) (by simp [Along, h])

instance (P : σ → α → σ → Prop) [∀ s a t, Decidable (P s a t)] (s : σ) (as : List α) :
    Decidable (M.Along P s as) := M.alongDecidable P s as

def alongWithDecidable (P : σ → α → List α → Prop) [∀ s a as, Decidable (P s a as)] (s : σ) :
    (as : List α) → Decidable (M.AlongWith P s as)
  | [] => .isTrue trivial
  | a :: as => match h : M.step s a with
    | none => .isTrue (by simp [AlongWith, h])
    | some t =>
      have := alongWithDecidable P t as
      decidable_of_iff (P s a as ∧ M.AlongWith P t as) (by simp [AlongWith, h])

instance (P : σ → α → List α → Prop) [∀ s a as, Decidable (P s a as)] (s : σ) (as : List α) :
    Decidable (M.AlongWith P s as) := M.alongWithDecidable P s as

variable {M} {s t u : σ} {a : α} {as bs : List α} {P Q C : σ → α → σ → Prop} {I : σ → Prop}

@[simp] theorem runFrom_nil : M.runFrom s [] = some s := rfl

theorem runFrom_cons_some :
    M.runFrom s (a :: as) = some u ↔ ∃ t, M.step s a = some t ∧ M.runFrom t as = some u :=
  Option.bind_eq_some_iff

theorem runFrom_append :
    M.runFrom s (as ++ bs) = some u ↔ ∃ t, M.runFrom s as = some t ∧ M.runFrom t bs = some u := by
  induction as generalizing s with
  | nil => simp
  | cons a as ih => simp only [List.cons_append, runFrom_cons_some, ih]; grind

@[simp] theorem along_nil : M.Along P s [] := trivial

theorem along_cons (h : M.step s a = some t) :
    M.Along P s (a :: as) ↔ P s a t ∧ M.Along P t as := by simp [Along, h]

theorem alongWith_cons {P : σ → α → List α → Prop} (h : M.step s a = some t) :
    M.AlongWith P s (a :: as) ↔ P s a as ∧ M.AlongWith P t as := by simp [AlongWith, h]

theorem Along.head (h : M.Along P s (a :: as)) (hs : M.step s a = some t) : P s a t :=
  ((along_cons hs).mp h).1

theorem Along.tail (h : M.Along P s (a :: as)) (hs : M.step s a = some t) : M.Along P t as :=
  ((along_cons hs).mp h).2

theorem along_append (h : M.runFrom s as = some t) :
    M.Along P s (as ++ bs) ↔ M.Along P s as ∧ M.Along P t bs := by
  induction as generalizing s with
  | nil =>
    obtain rfl : s = t := by simpa using h
    simp
  | cons a as ih =>
    obtain ⟨u, hu, hr⟩ := runFrom_cons_some.mp h
    rw [List.cons_append, along_cons hu, along_cons hu, ih hr, and_assoc]

/-- The step that a run takes after some others. -/
theorem Along.after (as : List α) (h : M.Along P s (as ++ a :: bs)) (hr : M.runFrom s as = some t)
    (hs : M.step t a = some u) : P t a u :=
  ((along_append hr).mp h).2.head hs

/-- What every step that meets `C` preserves, a run whose steps meet `C` preserves. -/
theorem invariant_along (hs : ∀ s a t, I s → C s a t → M.step s a = some t → I t)
    (hi : I s) (hc : M.Along C s as) (hr : M.runFrom s as = some u) : I u := by
  induction as generalizing s with
  | nil =>
    obtain rfl : s = u := by simpa using hr
    exact hi
  | cons a as ih =>
    obtain ⟨t, ht, hr⟩ := runFrom_cons_some.mp hr
    exact ih (hs s a t hi (hc.head ht) ht) (hc.tail ht) hr

/-- Where every label is enabled while an invariant holds, a run that keeps it does not stop. -/
theorem exists_runFrom (hd : ∀ s a, I s → ∃ t, M.step s a = some t)
    (hs : ∀ s a t, I s → C s a t → M.step s a = some t → I t) (hi : I s) (hc : M.Along C s as) :
    ∃ u, M.runFrom s as = some u := by
  induction as generalizing s with
  | nil => exact ⟨s, rfl⟩
  | cons a as ih =>
    obtain ⟨t, ht⟩ := hd s a hi
    obtain ⟨u, hu⟩ := ih (hs s a t hi (hc.head ht) ht) (hc.tail ht)
    exact ⟨u, runFrom_cons_some.mpr ⟨t, ht, hu⟩⟩

/-- What is true of every step with one of the labels. -/
theorem along_of_forall (h : ∀ a ∈ as, ∀ s t, P s a t) : M.Along P s as := by
  induction as generalizing s with
  | nil => trivial
  | cons a as ih =>
    cases hs : M.step s a with
    | none => simp [Along, hs]
    | some t =>
      rw [along_cons hs]
      exact ⟨h a (by simp) s t, ih fun b hb => h b (by simp [hb])⟩

theorem Along.and (hp : M.Along P s as) (hq : M.Along Q s as) :
    M.Along (fun s a t => P s a t ∧ Q s a t) s as := by
  induction as generalizing s with
  | nil => trivial
  | cons a as ih =>
    cases hs : M.step s a with
    | none => simp [Along, hs]
    | some t => exact (along_cons hs).mpr ⟨⟨hp.head hs, hq.head hs⟩, ih (hp.tail hs) (hq.tail hs)⟩

theorem invariant (hs : ∀ s a t, I s → M.step s a = some t → I t)
    (hi : I s) (hr : M.runFrom s as = some u) : I u :=
  invariant_along (C := fun _ _ _ => True) (fun s a t h _ => hs s a t h) hi
    (along_of_forall fun _ _ _ _ => trivial) hr

/-- A step property that follows from an invariant and a condition holds along
every run whose steps all meet the condition. -/
theorem along_of_invariant (hs : ∀ s a t, I s → C s a t → M.step s a = some t → P s a t ∧ I t)
    (hi : I s) (hc : M.Along C s as) : M.Along P s as := by
  induction as generalizing s with
  | nil => trivial
  | cons a as ih =>
    cases h : M.step s a with
    | none => simp [Along, h]
    | some t =>
      obtain ⟨hp, ht⟩ := hs s a t hi (hc.head h) h
      exact (along_cons h).mpr ⟨hp, ih ht (hc.tail h)⟩

/-- Where a step property and a condition agree in every state that satisfies
the invariant, the runs that satisfy the one are those that satisfy the other. -/
theorem along_iff (hs : ∀ s a t, I s → M.step s a = some t → (P s a t ↔ C s a t))
    (hn : ∀ s a t, I s → C s a t → M.step s a = some t → I t) (hi : I s) :
    M.Along P s as ↔ M.Along C s as := by
  induction as generalizing s with
  | nil => simp
  | cons a as ih =>
    cases h : M.step s a with
    | none => simp [Along, h]
    | some t =>
      rw [along_cons h, along_cons h, hs s a t hi h]
      exact and_congr_right fun hc => ih (hn s a t hi hc h)

/-- Where a property is never regained, and the steps that keep it are those that
meet a condition, a run ends with it if and only if all its steps meet the condition. -/
theorem kept_iff_along {G : σ → Prop} (hi : ∀ s a t, I s → M.step s a = some t → I t)
    (hg : ∀ s a t, I s → M.step s a = some t → (G t ↔ G s ∧ C s a t))
    (hs : I s) (hr : M.runFrom s as = some u) : G u ↔ G s ∧ M.Along C s as := by
  induction as generalizing s with
  | nil =>
    obtain rfl : s = u := by simpa using hr
    simp
  | cons a as ih =>
    obtain ⟨t, ht, hr⟩ := runFrom_cons_some.mp hr
    rw [ih (hi s a t hs ht) hr, hg s a t hs ht, along_cons ht, and_assoc]

/-- A map of the states that the steps of two machines respect is respected by their runs. -/
theorem runFrom_map {τ : Type*} {N : Machine τ α} {f : σ → τ} (hf : ∀ s a, N.step (f s) a = (M.step s a).map f) :
    N.runFrom (f s) as = (M.runFrom s as).map f := by
  induction as generalizing s with
  | nil => rfl
  | cons a as ih =>
    rw [runFrom, runFrom, hf]
    cases M.step s a with
    | none => rfl
    | some t => exact ih

/-- The machine with a history of the run beside its state. -/
def withHistory {γ : Type*} (M : Machine σ α) (start : γ) (update : σ → α → σ → γ → γ) : Machine (σ × γ) α where
  init := (M.init, start)
  step s a := (M.step s.1 a).map fun t => (t, update s.1 a t s.2)

theorem withHistory_step {γ : Type*} {start g : γ} {update : σ → α → σ → γ → γ} {r : σ × γ}
    (h : (M.withHistory start update).step (s, g) a = some r) :
    M.step s a = some r.1 ∧ r.2 = update s a r.1 g := by
  obtain ⟨t, ht, rfl⟩ := Option.map_eq_some_iff.mp h
  exact ⟨ht, rfl⟩

/-- The machine without the labels that are not allowed in its state. -/
def restrict (M : Machine σ α) (allowed : σ → α → Bool) : Machine σ α where
  init := M.init
  step s a := if allowed s a then M.step s a else none

theorem restrict_step {allowed : σ → α → Bool} :
    (M.restrict allowed).step s a = some t ↔ allowed s a ∧ M.step s a = some t :=
  Option.ite_none_right_eq_some

/-- What `kept_iff_along` says of the allowed steps of a machine with a history. -/
theorem kept_iff_along_withHistory {γ : Type*} {start : γ} {update : σ → α → σ → γ → γ} {allowed : σ × γ → α → Bool}
    {I G : σ × γ → Prop} {C : σ × γ → α → σ × γ → Prop}
    (hstep : ∀ s g a t, I (s, g) → allowed (s, g) a → M.step s a = some t →
      I (t, update s a t g) ∧ (G (t, update s a t g) ↔ G (s, g) ∧ C (s, g) a (t, update s a t g)))
    {r u : σ × γ} (hi : I r) (hr : ((M.withHistory start update).restrict allowed).runFrom r as = some u) :
    G u ↔ G r ∧ ((M.withHistory start update).restrict allowed).Along C r as := by
  have hstep (r : σ × γ) (a : α) (u : σ × γ) (hI : I r)
      (h : ((M.withHistory start update).restrict allowed).step r a = some u) : I u ∧ (G u ↔ G r ∧ C r a u) := by
    obtain ⟨ha, hs⟩ := restrict_step.mp h
    obtain ⟨t, ht, rfl⟩ := Option.map_eq_some_iff.mp hs
    exact hstep r.1 r.2 a t hI ha ht
  exact kept_iff_along (fun r a u hI h => (hstep r a u hI h).1) (fun r a u hI h => (hstep r a u hI h).2) hi hr

/-- A property of the steps of a machine does not depend on the history. -/
theorem along_withHistory {γ : Type*} {start g : γ} {update : σ → α → σ → γ → γ} :
    (M.withHistory start update).Along (fun s a t => P s.1 a t.1) (s, g) as ↔ M.Along P s as := by
  induction as generalizing s g with
  | nil => simp
  | cons a as ih =>
    cases h : M.step s a with
    | none => simp [Along, withHistory, h]
    | some t =>
      have hs : (M.withHistory start update).step (s, g) a = some (t, update s a t g) := by simp [withHistory, h]
      rw [along_cons h, along_cons hs, ih]

end Machine
end Ogre.Library
