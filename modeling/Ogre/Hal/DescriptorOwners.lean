import Ogre.Hal.DescriptorAllocation

/-! What one call does to the descriptor pools, and who owns what in every run,
whatever the device answers. -/
namespace Ogre.Hal
open Ogre.Fml Ogre.Library

namespace DescriptorPools
variable {L : Type*} {s t u : DescriptorPools L}

/-- Every pool of the device has one owner, and every recycled object exists. -/
structure Separate (s : DescriptorPools L) : Prop where
  recycledExists : ∀ o ∈ s.recycled, (s.objects o).isSome
  recycledNodup : s.recycled.Nodup
  recycledLength : s.recycled.length ≤ kMaxRecycledPools
  numbered : ∀ o P, s.objects o = some P → o < s.created
  poolsBelow : ∀ o P, s.objects o = some P → ∀ p ∈ P.pools, p < s.device.pools
  poolsApart : ∀ o o' P P' p, s.objects o = some P → s.objects o' = some P' →
    p ∈ P.pools → p ∈ P'.pools → o = o'
  rawBelow : ∀ p ∈ s.raw, p < s.device.pools
  rawApart : ∀ o P p, s.objects o = some P → p ∈ P.pools → p ∉ s.raw
  null : s.device.sets 0 = none

/-- Objects go away with their pools, of those that callers hold only `x`, and
the rest is as it was. -/
structure Shrinks (x : Option Nat) (s t : DescriptorPools L) : Prop where
  objects : ∀ o P, t.objects o = some P → s.objects o = some P
  sets : ∀ o P, t.objects o = some P → ∀ set p l, s.device.sets set = some (p, l) → p ∈ P.pools →
    t.device.sets set = some (p, l)
  gone : ∀ set, s.device.sets set = none → t.device.sets set = none
  pools : t.device.pools = s.device.pools
  created : t.created = s.created
  raw : ∀ p ∈ t.raw, p ∈ s.raw
  recycled : t.recycled.Sublist s.recycled
  kept : ∀ o ∈ t.recycled, t.objects o = s.objects o
  held : ∀ o, o ∉ s.recycled → some o ≠ x → t.objects o = s.objects o

theorem Shrinks.of_objects_eq {x : Option Nat} (ho : t.objects = s.objects) (hd : t.device = s.device)
    (hc : t.created = s.created) (hr : ∀ p ∈ t.raw, p ∈ s.raw) (hs : t.recycled.Sublist s.recycled) :
    Shrinks x s t where
  objects _ _ h := ho ▸ h
  sets _ _ _ _ _ _ h _ := hd ▸ h
  gone _ h := hd ▸ h
  pools := by rw [hd]
  created := hc
  raw := hr
  recycled := hs
  kept _ _ := by rw [ho]
  held _ _ _ := by rw [ho]

theorem Shrinks.refl (x : Option Nat) (s : DescriptorPools L) : Shrinks x s s :=
  .of_objects_eq rfl rfl rfl (fun _ h => h) (.refl _)

theorem Shrinks.trans {x : Option Nat} (h : Shrinks none s t) (h' : Shrinks x t u) : Shrinks x s u where
  objects o P ho := h.objects o P (h'.objects o P ho)
  sets o P ho set p l hs hp := h'.sets o P ho set p l (h.sets o P (h'.objects o P ho) set p l hs hp) hp
  gone set hs := h'.gone set (h.gone set hs)
  pools := h'.pools.trans h.pools
  created := h'.created.trans h.created
  raw p hp := h.raw p (h'.raw p hp)
  recycled := h'.recycled.trans h.recycled
  kept o ho := by rw [h'.kept o ho, h.kept o (h'.recycled.subset ho)]
  held o ho hx := by
    rw [h'.held o (fun hm => ho (h.recycled.subset hm)) hx, h.held o ho (by simp)]

theorem Separate.shrinks {x : Option Nat} (w : Separate s) (h : Shrinks x s t) : Separate t where
  recycledExists o ho := by
    rw [h.kept o ho]
    exact w.recycledExists o (h.recycled.subset ho)
  recycledNodup := w.recycledNodup.sublist h.recycled
  recycledLength := Nat.le_trans h.recycled.length_le w.recycledLength
  numbered o P ho := h.created ▸ w.numbered o P (h.objects o P ho)
  poolsBelow o P ho p hp := h.pools ▸ w.poolsBelow o P (h.objects o P ho) p hp
  poolsApart o o' P P' p ho ho' := w.poolsApart o o' P P' p (h.objects o P ho) (h.objects o' P' ho')
  rawBelow p hp := h.pools ▸ w.rawBelow p (h.raw p hp)
  rawApart o P p ho hp hm := w.rawApart o P p (h.objects o P ho) hp (h.raw p hm)
  null := h.gone 0 w.null

/-- A new object appears, at the end of the recycled list or with a caller, which
is empty or takes over the cache and the pools of an old one. -/
structure Enters (x : Option Nat) (R : DescriptorPool) (s t : DescriptorPools L) : Prop where
  new : t.objects s.created = some R
  old : ∀ o P, o ≠ s.created → t.objects o = some P → s.objects o = some P ∧ ∀ p ∈ P.pools, p ∉ R.pools
  held : ∀ o, o ≠ s.created → some o ≠ x → t.objects o = s.objects o
  kept : ∀ o ∈ s.recycled, some o ≠ x
  below : ∀ p ∈ R.pools, p < s.device.pools
  raw : ∀ p ∈ t.raw, p ∈ s.raw ∧ p ∉ R.pools
  recycled : t.recycled = s.recycled ∨
    t.recycled = s.recycled ++ [s.created] ∧ s.recycled.length < kMaxRecycledPools
  device : t.device = s.device
  created : t.created = s.created + 1
  source : (∃ pools, R = ⟨fun _ => none, pools⟩) ∨ ∃ o P, s.objects o = some P ∧ R = P.recycle

theorem Separate.enters {x : Option Nat} {R : DescriptorPool} (w : Separate s) (h : Enters x R s t) :
    Separate t where
  recycledExists o ho := by
    have : o ∈ s.recycled ∨ o = s.created := by
      rcases h.recycled with hr | ⟨hr, -⟩ <;> rw [hr] at ho
      · exact .inl ho
      · simpa using ho
    rcases this with ho | rfl
    · obtain ⟨P, hP⟩ := Option.isSome_iff_exists.mp (w.recycledExists o ho)
      rw [h.held o (Nat.ne_of_lt (w.numbered o P hP)) (h.kept o ho), hP]
      rfl
    · rw [h.new]
      rfl
  recycledNodup := by
    rcases h.recycled with hr | ⟨hr, -⟩ <;> rw [hr]
    · exact w.recycledNodup
    · refine List.nodup_append.mpr ⟨w.recycledNodup, List.nodup_singleton _, fun o ho o' ho' => ?_⟩
      obtain ⟨P, hP⟩ := Option.isSome_iff_exists.mp (w.recycledExists o ho)
      have := w.numbered o P hP
      simp only [List.mem_singleton] at ho'
      omega
  recycledLength := by
    rcases h.recycled with hr | ⟨hr, hroom⟩ <;> rw [hr]
    · exact w.recycledLength
    · simp only [List.length_append, List.length_singleton]
      exact hroom
  numbered o P ho := by
    rw [h.created]
    by_cases hn : o = s.created
    · exact hn ▸ Nat.lt_succ_self _
    · exact Nat.lt_succ_of_lt (w.numbered o P (h.old o P hn ho).1)
  poolsBelow o P ho p hp := by
    rw [h.device]
    by_cases hn : o = s.created
    · subst hn
      obtain rfl : R = P := Option.some.inj (h.new.symm.trans ho)
      exact h.below p hp
    · exact w.poolsBelow o P (h.old o P hn ho).1 p hp
  poolsApart o o' P P' p ho ho' hp hp' := by
    by_cases hn : o = s.created <;> by_cases hn' : o' = s.created
    · exact hn.trans hn'.symm
    · subst hn
      obtain rfl : R = P := Option.some.inj (h.new.symm.trans ho)
      exact ((h.old o' P' hn' ho').2 p hp' hp).elim
    · subst hn'
      obtain rfl : R = P' := Option.some.inj (h.new.symm.trans ho')
      exact ((h.old o P hn ho).2 p hp hp').elim
    · exact w.poolsApart o o' P P' p (h.old o P hn ho).1 (h.old o' P' hn' ho').1 hp hp'
  rawBelow p hp := h.device ▸ w.rawBelow p (h.raw p hp).1
  rawApart o P p ho hp hm := by
    by_cases hn : o = s.created
    · subst hn
      obtain rfl : R = P := Option.some.inj (h.new.symm.trans ho)
      exact (h.raw p hm).2 hp
    · exact w.rawApart o P p (h.old o P hn ho).1 hp (h.raw p hm).1
  null := h.device ▸ w.null

/-- What is said of an object and the device, and stays true while the sets of the
object's own pools stay, and while its cache goes through the recycler. -/
structure Stable (Φ : DescriptorDevice L → DescriptorPool → Prop) : Prop where
  empty : ∀ device pools, Φ device ⟨fun _ => none, pools⟩
  frame : ∀ device device' P, Φ device P →
    (∀ set p l, device.sets set = some (p, l) → p ∈ P.pools → device'.sets set = some (p, l)) →
    Φ device' P
  recycle : ∀ device P, Φ device P → Φ device P.recycle

def Everywhere (Φ : DescriptorDevice L → DescriptorPool → Prop) (s : DescriptorPools L) : Prop :=
  ∀ o P, s.objects o = some P → Φ s.device P

variable {Φ : DescriptorDevice L → DescriptorPool → Prop}

theorem Everywhere.shrinks {x : Option Nat} (hΦ : Stable Φ) (he : Everywhere Φ s) (h : Shrinks x s t) :
    Everywhere Φ t :=
  fun o P ho => hΦ.frame _ _ P (he o P (h.objects o P ho)) (h.sets o P ho)

theorem Everywhere.enters {x : Option Nat} {R : DescriptorPool} (hΦ : Stable Φ) (he : Everywhere Φ s)
    (h : Enters x R s t) : Everywhere Φ t := by
  intro o P ho
  rw [h.device]
  by_cases hn : o = s.created
  · subst hn
    obtain rfl : R = P := Option.some.inj (h.new.symm.trans ho)
    rcases h.source with ⟨pools, rfl⟩ | ⟨o, P, hP, rfl⟩
    · exact hΦ.empty _ _
    · exact hΦ.recycle _ P (he o P hP)
  · exact he o P (h.old o P hn ho).1

/-- Removing an object with its pools. -/
private theorem shrinks_remove (w : Separate s) {x : Option Nat} {o : Nat} {P : DescriptorPool}
    (ho : s.objects o = some P) {recycled : List Nat} (hr : recycled.Sublist s.recycled)
    (hm : o ∉ recycled) (hk : o ∈ s.recycled ∨ some o = x) :
    Shrinks x s { s with
      device := s.device.destroyPools P.pools
      objects := Function.update s.objects o none
      recycled := recycled } where
  objects o' P' ho' := by
    by_cases h : o' = o
    · subst h; simp at ho'
    · simpa [h] using ho'
  sets o' P' ho' set p l hs hp := by
    have hne : o' ≠ o := by rintro rfl; simp at ho'
    have hp' : p ∉ P.pools := fun hp' =>
      hne (w.poolsApart o' o P' P p (by simpa [hne] using ho') ho hp hp')
    simp [DescriptorDevice.destroyPools, hs, hp']
  gone set hs := by simp [DescriptorDevice.destroyPools, hs]
  pools := rfl
  created := rfl
  raw _ h := h
  recycled := hr
  kept o' ho' := by
    have hne : o' ≠ o := by rintro rfl; exact hm ho'
    simp [hne]
  held o' ho' hx := by
    have hne : o' ≠ o := by
      rintro rfl
      exact hk.elim ho' hx
    simp [hne]

private theorem destroyPools_nil (d : DescriptorDevice L) : d.destroyPools [] = d := by
  have : (fun set => (d.sets set).filter fun x => decide (x.1 ∉ ([] : List Nat))) = d.sets := by
    funext set
    cases d.sets set <;> simp
  rw [DescriptorDevice.destroyPools, this]

theorem popRecycled_shrinks (w : Separate s) : Shrinks none s s.popRecycled := by
  unfold popRecycled
  cases hl : s.recycled.getLast? with
  | none => exact .refl none s
  | some o =>
    have hsplit := List.dropLast_append_getLast? o hl
    have hmem : o ∈ s.recycled := List.mem_of_getLast? hl
    obtain ⟨P, hP⟩ := Option.isSome_iff_exists.mp (w.recycledExists o hmem)
    have hnot : o ∉ s.recycled.dropLast := by
      have := w.recycledNodup
      rw [← hsplit, List.nodup_append] at this
      intro hm
      exact this.2.2 o hm o (by simp) rfl
    simp only [hP, Option.elim_some]
    exact shrinks_remove w hP (List.dropLast_sublist _) hnot (.inl hmem)

/-- The loop of `Reclaim` leaves room for one entry. -/
theorem trimRecycled_spec (n : Nat) (w : Separate s) (hn : s.recycled.length ≤ n) :
    Shrinks none s (trimRecycled n s) ∧ (trimRecycled n s).recycled.length < kMaxRecycledPools := by
  induction n generalizing s with
  | zero => exact ⟨.refl none s, by simp only [trimRecycled, kMaxRecycledPools]; omega⟩
  | succ n ih =>
    unfold trimRecycled
    split
    case isTrue hfull =>
      have hp := popRecycled_shrinks w
      have hlen : s.popRecycled.recycled.length ≤ n := by
        unfold popRecycled
        cases hl : s.recycled.getLast? with
        | none =>
          rw [List.getLast?_eq_none_iff.mp hl] at hfull
          simp [kMaxRecycledPools] at hfull
        | some o => simp only [List.length_dropLast]; omega
      obtain ⟨ht, hlt⟩ := ih (w.shrinks hp) hlen
      exact ⟨hp.trans ht, hlt⟩
    case isFalse hroom => exact ⟨.refl none s, Nat.lt_of_not_le hroom⟩

theorem trimRecycled_raw (n : Nat) (s : DescriptorPools L) : (trimRecycled n s).raw = s.raw := by
  induction n generalizing s with
  | zero => rfl
  | succ n ih =>
    unfold trimRecycled
    split
    case isTrue =>
      rw [ih, popRecycled]
      split <;> rfl
    case isFalse => rfl

theorem held_eq_some {o : Nat} {P : DescriptorPool} :
    s.held o = some P ↔ s.objects o = some P ∧ o ∉ s.recycled := by
  unfold held
  split <;> simp_all

/-- The destructor moves the cache and the pools of an object into a recycled one. -/
theorem destroy_cases (w : Separate s) {o : Nat} {P : DescriptorPool} (h : s.held o = some P) :
    Shrinks (some o) s (s.destroy o P) ∨
      ∃ u R, Shrinks none s u ∧ Enters (some o) R u (s.destroy o P) := by
  obtain ⟨ho, hm⟩ := held_eq_some.mp h
  unfold destroy
  split
  case isTrue hp =>
    have := shrinks_remove w ho (x := some o) (List.Sublist.refl _) hm (.inr rfl)
    rw [hp, destroyPools_nil] at this
    exact .inl this
  case isFalse =>
    by_cases hc : s.context = true
    · obtain ⟨hs, hroom⟩ := trimRecycled_spec _ w (Nat.le_refl _)
      have wu := w.shrinks hs
      have hou : (trimRecycled s.recycled.length s).objects o = some P := by
        rw [hs.held o hm (by simp), ho]
      have hmu : o ∉ (trimRecycled s.recycled.length s).recycled := fun hm' => hm (hs.recycled.subset hm')
      have hne := (Nat.ne_of_lt (wu.numbered o P hou)).symm
      refine .inr ⟨_, P.recycle, hs, ?_⟩
      simp only [hc, if_true, reclaim]
      refine ⟨by simp [hne]; rfl, fun o' P' hn ho' => ?_, fun o' hn hx => ?_, fun o' ho' => ?_,
        wu.poolsBelow o P hou, fun p hp => ⟨hp, fun hp' => wu.rawApart o P p hou hp' hp⟩,
        .inr ⟨rfl, hroom⟩, rfl, rfl, .inr ⟨o, P, hou, rfl⟩⟩
      · have hno : o' ≠ o := by rintro rfl; simp at ho'
        have ho' : (trimRecycled s.recycled.length s).objects o' = some P' := by simpa [hno, hn] using ho'
        exact ⟨ho', fun p hp hp' => hno (wu.poolsApart o' o P' P p ho' hou hp hp')⟩
      · have hno : o' ≠ o := by rintro rfl; exact hx rfl
        simp [hno, hn]
      · rintro ⟨rfl⟩
        exact hmu ho'
    · have := shrinks_remove w ho (x := some o) (List.Sublist.refl _) hm (.inr rfl)
      simp only [if_neg hc]
      exact .inl this

/-- Pools that a caller has from `Get` become a recycled object without a cache. -/
theorem reclaim_cases (w : Separate s) {pools : List Nat} (hp : ∀ p ∈ pools, p ∈ s.raw) :
    Shrinks none s { s.reclaim (fun _ => none) pools with raw := s.raw.filter (· ∉ pools) } ∨
      ∃ u R, Shrinks none s u ∧ Enters none R u
        { s.reclaim (fun _ => none) pools with raw := s.raw.filter (· ∉ pools) } := by
  by_cases hc : s.context = true
  · obtain ⟨hs, hroom⟩ := trimRecycled_spec _ w (Nat.le_refl _)
    have hraw := trimRecycled_raw s.recycled.length s
    have wu := w.shrinks hs
    have hpu : ∀ p ∈ pools, p ∈ (trimRecycled s.recycled.length s).raw := hraw ▸ hp
    refine .inr ⟨_, ⟨fun _ => none, pools⟩, hs, ?_⟩
    simp only [reclaim, hc, if_true]
    refine ⟨by simp, fun o P hn ho => ?_, fun o hn _ => by simp [hn], fun _ _ => by simp,
      fun p hm => wu.rawBelow p (hpu p hm), fun p hm => ?_, .inr ⟨rfl, hroom⟩, rfl, rfl, .inl ⟨pools, rfl⟩⟩
    · have ho : (trimRecycled s.recycled.length s).objects o = some P := by simpa [hn] using ho
      exact ⟨ho, fun p hP hm => wu.rawApart o P p ho hP (hpu p hm)⟩
    · simp only [List.mem_filter, decide_eq_true_eq] at hm
      exact ⟨hraw ▸ hm.1, hm.2⟩
  · left
    simp only [reclaim, if_neg hc]
    refine ⟨fun _ _ h => h, fun o P ho set p l hset hP => ?_, fun set hset => ?_, rfl, rfl,
      fun p hm => (List.mem_filter.mp hm).1, .refl _, fun _ _ => rfl, fun _ _ _ => rfl⟩
    · have hm : p ∉ pools := fun hm => w.rawApart o P p ho hP (hp p hm)
      simp [DescriptorDevice.destroyPools, hset, hm]
    · simp [DescriptorDevice.destroyPools, hset]

theorem getDescriptorPool_cases (s : DescriptorPools L) :
    Shrinks none s s.getDescriptorPool.2 ∨ Enters none {} s s.getDescriptorPool.2 := by
  unfold getDescriptorPool
  cases hl : s.recycled.getLast? with
  | some o =>
    exact .inl (.of_objects_eq rfl rfl rfl (fun _ h => h) (List.dropLast_sublist _))
  | none =>
    refine .inr ⟨by simp, fun o P hn ho => ?_, fun o hn _ => by simp [hn], fun _ _ => by simp, by simp,
      fun p hm => ⟨hm, by simp⟩, .inl rfl, rfl, rfl, .inl ⟨[], rfl⟩⟩
    exact ⟨by simpa [hn] using ho, by simp⟩

/-- The object that a call destroys. -/
def Call.destroyed : Call L → Option Nat
  | .destroy o => some o
  | _ => none

/-- A set is allocated through an object that a caller holds. -/
structure Allocates (s t : DescriptorPools L) (o : Nat) (layout : L) (key : Int)
    (answers : Answers) (P : DescriptorPool) (result : StatusOr DescriptorSet) (Q : DescriptorPool)
    (device : DescriptorDevice L) : Prop where
  held : s.held o = some P
  provides : s.device.Provides answers = true
  allocated : P.allocateDescriptorSets s.device layout key answers = some (result, Q, device)
  eq : t = { s with device, objects := Function.update s.objects o (some Q) }

theorem allocate_step {o : Nat} {layout : L} {key : Int} {answers : Answers}
    (h : s.step (.allocate o layout key answers) = some t) :
    s.device.Provides answers = true ∧
      ∃ P, s.held o = some P ∧ t = (s.allocate o P layout key answers).2 := by
  unfold step at h
  split at h
  · cases h
  simp only at h
  split at h
  case isFalse => cases h
  case isTrue hp =>
    obtain ⟨P, hP, rfl⟩ := Option.map_eq_some_iff.mp h
    simp only [Bool.and_eq_true] at hp
    exact ⟨hp.2, P, hP, rfl⟩

/-- What a call can do: objects go away, one appears, a pool is created, or a
set is allocated. -/
theorem step_cases (w : Separate s) {c : Call L} (h : s.step c = some t) :
    Shrinks c.destroyed s t ∨
    (∃ u R, Shrinks none s u ∧ Enters c.destroyed R u t) ∨
    t = { s with device := { s.device with pools := s.device.pools + 1 }, raw := s.raw ++ [s.device.pools] } ∨
    ∃ o layout key answers P r Q device, c = .allocate o layout key answers ∧
      Allocates s t o layout key answers P r Q device := by
  cases c with
  | allocate o layout key answers =>
    obtain ⟨hp, P, hP, rfl⟩ := allocate_step h
    unfold allocate
    cases ha : P.allocateDescriptorSets s.device layout key answers with
    | none => exact .inl (.of_objects_eq rfl rfl rfl (fun _ h => h) (.refl _))
    | some x =>
      obtain ⟨r, Q, device⟩ := x
      exact .inr (.inr (.inr ⟨o, layout, key, answers, P, r, Q, device, rfl, hP, hp, ha, rfl⟩))
  | getDescriptorPool =>
    unfold step at h
    split at h
    · cases h
    obtain rfl : s.getDescriptorPool.2 = t := by simpa using h
    rcases getDescriptorPool_cases s with hs | he
    · exact .inl hs
    · exact .inr (.inl ⟨s, {}, .refl none s, he⟩)
  | get created =>
    unfold step at h
    split at h
    · cases h
    obtain rfl : (s.get created).2 = t := by simpa using h
    unfold get
    split
    · cases created with
      | true => exact .inr (.inr (.inl rfl))
      | false => exact .inl (.refl none s)
    · exact .inl (.refl none s)
  | destroy o =>
    unfold step at h
    split at h
    · cases h
    obtain ⟨P, hP, rfl⟩ := Option.map_eq_some_iff.mp h
    rcases destroy_cases w hP with hs | he
    · exact .inl hs
    · exact .inr (.inl he)
  | reclaim pools =>
    unfold step at h
    split at h
    · cases h
    simp only at h
    split at h
    case isFalse => cases h
    case isTrue hp =>
      obtain rfl := Option.some.inj h
      rcases reclaim_cases w hp.2 with hs | he
      · exact .inl hs
      · exact .inr (.inl he)
  | expireContext =>
    unfold step at h
    split at h
    · cases h
    obtain rfl := Option.some.inj h
    exact .inl (.of_objects_eq rfl rfl rfl (fun _ h => h) (.refl _))

theorem Separate.allocates {o : Nat} {layout : L} {key : Int} {answers : Answers}
    {P Q : DescriptorPool} {r : StatusOr DescriptorSet} {device : DescriptorDevice L} (w : Separate s)
    (h : Allocates s t o layout key answers P r Q device) : Separate t := by
  obtain ⟨ho, hm⟩ := held_eq_some.mp h.held
  obtain ⟨n, hpools, hcount⟩ : ∃ n, Q.pools = P.pools ++ List.range' s.device.pools n ∧
      device.pools = s.device.pools + n := by
    rcases DescriptorPool.allocateDescriptorSets_cases h.allocated with ⟨set, -, ht, rfl⟩ | ⟨-, ha⟩
    · obtain ⟨rest, used, -, rfl⟩ := DescriptorPool.takeUnused_spec ht
      exact ⟨0, by simp, rfl⟩
    · exact ha.pools
  have hnull : device.sets 0 = none := by
    rcases DescriptorPool.allocateDescriptorSets_cases h.allocated with ⟨set, -, -, rfl⟩ | ⟨-, ha⟩
    · exact w.null
    · rcases ha.outcome with ⟨set, pool, hl, -, -, -, hs⟩ | ⟨-, -, -, hs⟩
      · have hne := (Answers.last_new h.provides hl).1
        rw [hs, Function.update_of_ne hne.symm, w.null]
      · rw [hs, w.null]
  -- an old pool of another owner is not one of the new pools
  have hQ (p : Nat) (hp : p ∈ Q.pools) : p ∈ P.pools ∨ s.device.pools ≤ p := by
    rw [hpools, List.mem_append, List.mem_range'_1] at hp
    exact hp.imp_right And.left
  rw [h.eq]
  refine ⟨fun o' ho' => ?_, w.recycledNodup, w.recycledLength, fun o' P' ho' => ?_, fun o' P' ho' p hp => ?_,
    fun o₁ o₂ P₁ P₂ p h₁ h₂ hp₁ hp₂ => ?_, fun p hp => ?_, fun o' P' p ho' hp hr => ?_, hnull⟩
  · have hne : o' ≠ o := by rintro rfl; exact hm ho'
    simpa [hne] using w.recycledExists o' ho'
  · by_cases hn : o' = o
    · exact hn ▸ w.numbered o P ho
    · exact w.numbered o' P' (by simpa [hn] using ho')
  · simp only [hcount]
    by_cases hn : o' = o
    · subst hn
      obtain rfl : Q = P' := by simpa using ho'
      rw [hpools, List.mem_append, List.mem_range'_1] at hp
      rcases hp with hp | hp
      · exact Nat.lt_add_right n (w.poolsBelow o' P ho p hp)
      · exact hp.2
    · have := w.poolsBelow o' P' (by simpa [hn] using ho') p hp
      omega
  · by_cases hn₁ : o₁ = o <;> by_cases hn₂ : o₂ = o
    · exact hn₁.trans hn₂.symm
    · subst hn₁
      obtain rfl : Q = P₁ := by simpa using h₁
      have h₂ : s.objects o₂ = some P₂ := by simpa [hn₂] using h₂
      have := w.poolsBelow o₂ P₂ h₂ p hp₂
      exact (hQ p hp₁).elim (w.poolsApart o₁ o₂ P P₂ p ho h₂ · hp₂) (by omega)
    · subst hn₂
      obtain rfl : Q = P₂ := by simpa using h₂
      have h₁ : s.objects o₁ = some P₁ := by simpa [hn₁] using h₁
      have := w.poolsBelow o₁ P₁ h₁ p hp₁
      exact (hQ p hp₂).elim (w.poolsApart o₁ o₂ P₁ P p h₁ ho hp₁) (by omega)
    · exact w.poolsApart o₁ o₂ P₁ P₂ p (by simpa [hn₁] using h₁) (by simpa [hn₂] using h₂) hp₁ hp₂
  · have := w.rawBelow p hp
    simp only [hcount]
    omega
  · have hlt := w.rawBelow p hr
    by_cases hn : o' = o
    · subst hn
      obtain rfl : Q = P' := by simpa using ho'
      exact (hQ p hp).elim (w.rawApart o' P p ho · hr) (by omega)
    · exact w.rawApart o' P' p (by simpa [hn] using ho') hp hr

theorem step_separate (w : Separate s) {c : Call L} (h : s.step c = some t) : Separate t := by
  rcases step_cases w h with hs | ⟨u, R, hs, he⟩ | rfl | ⟨o, layout, key, answers, P, r, Q, device, -, ha⟩
  · exact w.shrinks hs
  · exact (w.shrinks hs).enters he
  · refine ⟨w.recycledExists, w.recycledNodup, w.recycledLength, w.numbered, fun o P ho p hp => ?_,
      w.poolsApart, fun p hp => ?_, fun o P p ho hp hr => ?_, w.null⟩
    · exact Nat.lt_succ_of_lt (w.poolsBelow o P ho p hp)
    · simp only [List.mem_append, List.mem_singleton] at hp
      rcases hp with hp | rfl
      · exact Nat.lt_succ_of_lt (w.rawBelow p hp)
      · exact Nat.lt_succ_self _
    · have hlt := w.poolsBelow o P ho p hp
      simp only [List.mem_append, List.mem_singleton] at hr
      rcases hr with hr | rfl
      · exact w.rawApart o P p ho hp hr
      · exact Nat.lt_irrefl _ hlt
  · exact w.allocates ha

theorem separate_init : Separate ({} : DescriptorPools L) where
  recycledExists := by simp
  recycledNodup := List.nodup_nil
  recycledLength := Nat.zero_le _
  numbered := by simp
  poolsBelow := by simp
  poolsApart := by simp
  rawBelow := by simp
  rawApart := by simp
  null := rfl

/-- What is stable and true of the object that a set is allocated through is true of all. -/
theorem step_everywhere (w : Separate s) (hΦ : Stable Φ) (he : Everywhere Φ s) {c : Call L}
    (h : s.step c = some t)
    (ha : ∀ o layout key answers P r Q device, c = .allocate o layout key answers →
      Allocates s t o layout key answers P r Q device → Φ s.device P → Φ device Q) :
    Everywhere Φ t := by
  rcases step_cases w h with hs | ⟨u, R, hs, hn⟩ | rfl | ⟨o, layout, key, answers, P, r, Q, device, hc, hal⟩
  · exact he.shrinks hΦ hs
  · exact (he.shrinks hΦ hs).enters hΦ hn
  · exact fun o P ho => hΦ.frame _ _ P (he o P ho) fun _ _ _ hs _ => hs
  · have hP := (held_eq_some.mp hal.held).1
    have hQ := ha o layout key answers P r Q device hc hal (he o P hP)
    have hsets (set : DescriptorSet) (x : Nat × L) (hs : s.device.sets set = some x) :
        device.sets set = some x := by
      rcases DescriptorPool.allocateDescriptorSets_cases hal.allocated with ⟨set, -, -, rfl⟩ | ⟨-, hk⟩
      · exact hs
      · rcases hk.outcome with ⟨new, pool, hl, -, -, -, hd⟩ | ⟨-, -, -, hd⟩
        · have hne : set ≠ new := by
            rintro rfl
            rw [(Answers.last_new hal.provides hl).2] at hs
            cases hs
          rw [hd, Function.update_of_ne hne, hs]
        · rw [hd, hs]
    rw [hal.eq]
    intro o' P' ho'
    by_cases hn : o' = o
    · subst hn
      obtain rfl : Q = P' := by simpa using ho'
      exact hQ
    · exact hΦ.frame _ _ P' (he o' P' (by simpa [hn] using ho')) fun set p l hs _ => hsets set _ hs

end DescriptorPools
end Ogre.Hal
