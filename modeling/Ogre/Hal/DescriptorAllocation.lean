import Mathlib.Data.List.Nodup
import Ogre.Hal.DescriptorPool

/-! What one allocation does to a descriptor pool and to the device. -/
namespace Ogre.Hal
open Ogre.Fml Ogre.Library

theorem AllocateResult.isSuccess_iff {r : AllocateResult} : r.isSuccess = true ↔ ∃ set, r = .success set := by
  cases r <;> simp [isSuccess]

/-- The set that the device hands out last is not null and not in use. -/
theorem Answers.last_new {L : Type*} {device : DescriptorDevice L} {answers : Answers} {set : DescriptorSet}
    (hp : device.Provides answers = true) (hl : answers.last = .success set) :
    set ≠ 0 ∧ device.sets set = none := by
  simp only [DescriptorDevice.Provides, Bool.and_eq_true] at hp
  unfold Answers.last at hl
  split at hl
  case isTrue => simpa [hl] using hp.2
  case isFalse => simpa [hl] using hp.1

namespace DescriptorPool
variable {L : Type*}

/-- The sets in the cache of a key. -/
def cached (P : DescriptorPool) (key : Int) : List DescriptorSet :=
  (P.descriptorSets key).elim [] fun cache => cache.unused ++ cache.used

def recycle (P : DescriptorPool) : DescriptorPool :=
  { P with descriptorSets := fun key => (P.descriptorSets key).map DescriptorCache.recycle }

@[simp] theorem cached_recycle (P : DescriptorPool) (key : Int) :
    P.recycle.cached key = P.cached key := by
  cases h : P.descriptorSets key <;> simp [cached, recycle, h, DescriptorCache.recycle]

@[simp] theorem cached_put (P : DescriptorPool) (key : Int) (cache : DescriptorCache) :
    (P.put key cache).cached = Function.update P.cached key (cache.unused ++ cache.used) := by
  funext k
  by_cases hk : k = key
  · subst hk; simp [cached, put]
  · simp [cached, put, hk]

@[simp] theorem pools_put (P : DescriptorPool) (key : Int) (cache : DescriptorCache) :
    (P.put key cache).pools = P.pools := rfl

@[simp] theorem cached_pushUsed (P : DescriptorPool) (key : Int) (set : DescriptorSet) :
    (P.pushUsed key set).cached = Function.update P.cached key (P.cached key ++ [set]) := by
  rw [pushUsed, cached_put]
  cases h : P.descriptorSets key <;> simp [cached, h]

@[simp] theorem pools_pushUsed (P : DescriptorPool) (key : Int) (set : DescriptorSet) :
    (P.pushUsed key set).pools = P.pools := rfl

theorem takeUnused_spec {P Q : DescriptorPool} {key : Int} {set : DescriptorSet}
    (h : P.takeUnused key = some (set, Q)) : ∃ rest used,
      P.descriptorSets key = some ⟨rest ++ [set], used⟩ ∧ Q = P.put key ⟨rest, used ++ [set]⟩ := by
  obtain ⟨cache, hc, h⟩ := Option.bind_eq_some_iff.mp h
  obtain ⟨last, hl, h⟩ := Option.map_eq_some_iff.mp h
  obtain ⟨rfl, rfl⟩ := Prod.mk.inj h
  refine ⟨cache.unused.dropLast, cache.used, ?_, rfl⟩
  rw [List.dropLast_append_getLast? last hl, hc]

/-- What a call that reaches the device leaves: up to two pools more, and the set
of the last answer, or a null one, in the used list. -/
structure Asked (P : DescriptorPool) (device : DescriptorDevice L) (layout : L) (key : Int)
    (last : AllocateResult) (result : StatusOr DescriptorSet) (Q : DescriptorPool)
    (device' : DescriptorDevice L) : Prop where
  pools : ∃ n, Q.pools = P.pools ++ List.range' device.pools n ∧ device'.pools = device.pools + n
  outcome : (∃ set pool, last = .success set ∧ pool ∈ Q.pools ∧ result = .ok set ∧
      Q.descriptorSets = (P.pushUsed key set).descriptorSets ∧
      device'.sets = Function.update device.sets set (some (pool, layout))) ∨
    ((∀ set, last ≠ .success set) ∧ result = .error ⟨.kUnknown, ""⟩ ∧
      Q.descriptorSets = (P.pushUsed key 0).descriptorSets ∧ device'.sets = device.sets)

theorem createNewPool_spec (P : DescriptorPool) (device : DescriptorDevice L) (created : Bool) :
    ∃ status, P.createNewPool device created =
      (status, { P with pools := P.pools ++ List.range' device.pools created.toNat },
        { device with pools := device.pools + created.toNat }) := by
  cases created <;> simp [createNewPool, DescriptorDevice.createPool]

/-- The set is allocated from a pool, and recorded whatever the device answers. -/
private theorem asked_of_allocate {P R : DescriptorPool} {device device₁ : DescriptorDevice L}
    {pool : Nat} (layout : L) (key : Int) (last : AllocateResult) {n : Nat}
    (hR : R = { P with pools := P.pools ++ List.range' device.pools n })
    (hd : device₁ = { device with pools := device.pools + n }) (hp : pool ∈ R.pools) :
    P.Asked device layout key last
      (allocateDescriptorSets.result last (device₁.allocate pool layout last).1)
      (R.pushUsed key (device₁.allocate pool layout last).1) (device₁.allocate pool layout last).2 := by
  subst hR hd
  cases last with
  | success set => exact ⟨⟨n, rfl, rfl⟩, .inl ⟨set, pool, rfl, hp, rfl, rfl, rfl⟩⟩
  | errorOutOfPoolMemory => exact ⟨⟨n, rfl, rfl⟩, .inr ⟨by simp, rfl, rfl, rfl⟩⟩
  | error => exact ⟨⟨n, rfl, rfl⟩, .inr ⟨by simp, rfl, rfl, rfl⟩⟩

/-- The pools there are once one was created where there was none. -/
private theorem firstPool_spec (P : DescriptorPool) (device : DescriptorDevice L) (created : Bool) :
    ∃ n, (if P.pools = [] then (P.createNewPool device created).2 else (P, device)) =
        ({ P with pools := P.pools ++ List.range' device.pools n },
          { device with pools := device.pools + n }) ∧
      (P.pools ++ List.range' device.pools n = [] ↔ P.pools = [] ∧ created = false) := by
  by_cases hp : P.pools = []
  · obtain ⟨status, hs⟩ := createNewPool_spec P device created
    exact ⟨created.toNat, by rw [if_pos hp, hs], by cases created <;> simp [hp]⟩
  · exact ⟨0, by simp [hp], by simp [hp]⟩

/-- An allocation is served from the cache, or it asks the device. -/
theorem allocateDescriptorSets_cases {P Q : DescriptorPool} {device device' : DescriptorDevice L}
    {layout : L} {key : Int} {answers : Answers} {result : StatusOr DescriptorSet}
    (h : P.allocateDescriptorSets device layout key answers = some (result, Q, device')) :
    (∃ set, result = .ok set ∧ P.takeUnused key = some (set, Q) ∧ device' = device) ∨
      (P.takeUnused key = none ∧ P.Asked device layout key answers.last result Q device') := by
  unfold allocateDescriptorSets at h
  cases hc : P.takeUnused key with
  | some x =>
    obtain ⟨set, R⟩ := x
    simp only [hc, Option.some.injEq, Prod.mk.injEq] at h
    obtain ⟨rfl, rfl, rfl⟩ := h
    exact .inl ⟨set, rfl, rfl, rfl⟩
  | none =>
    refine .inr ⟨rfl, ?_⟩
    obtain ⟨n, hn, -⟩ := firstPool_spec P device answers.createFirst
    simp only [hc, hn] at h
    obtain ⟨pool, hp, h⟩ := Option.bind_eq_some_iff.mp h
    by_cases hfull : answers.first = .errorOutOfPoolMemory
    · obtain ⟨status, hs⟩ := createNewPool_spec
        { P with pools := P.pools ++ List.range' device.pools n }
        { device with pools := device.pools + n } answers.createSecond
      simp only [hfull, DescriptorDevice.allocate, if_true, hs] at h
      obtain ⟨pool', hp', h⟩ := Option.map_eq_some_iff.mp h
      simp only [Prod.mk.injEq] at h
      obtain ⟨rfl, rfl, rfl⟩ := h
      rw [Answers.last, if_pos hfull]
      have hmem := List.mem_of_getLast? hp'
      exact asked_of_allocate (n := n + answers.createSecond.toNat) (R := ⟨P.descriptorSets, _⟩)
        layout key answers.second (by rw [← List.range'_append_1, ← List.append_assoc])
        (by rw [← Nat.add_assoc]) hmem
    · simp only [if_neg hfull, Option.some.injEq, Prod.mk.injEq] at h
      obtain ⟨rfl, rfl, rfl⟩ := h
      rw [Answers.last, if_neg hfull]
      exact asked_of_allocate layout key answers.first rfl rfl (List.mem_of_getLast? hp)

/-- Only an object without pools, for which none is created, has no last pool. -/
theorem allocateDescriptorSets_eq_none {P : DescriptorPool} {device : DescriptorDevice L}
    {layout : L} {key : Int} {answers : Answers} :
    P.allocateDescriptorSets device layout key answers = none ↔
      P.takeUnused key = none ∧ P.pools = [] ∧ answers.createFirst = false := by
  unfold allocateDescriptorSets
  cases hc : P.takeUnused key with
  | some x => simp
  | none =>
    obtain ⟨n, hn, hempty⟩ := firstPool_spec P device answers.createFirst
    simp only [hn, true_and]
    rw [← hempty]
    cases hl : (P.pools ++ List.range' device.pools n).getLast? with
    | none => simp [List.getLast?_eq_none_iff.mp hl]
    | some pool =>
      have hne : P.pools ++ List.range' device.pools n ≠ [] := by
        intro h
        rw [h] at hl
        cases hl
      obtain ⟨status, hs⟩ := createNewPool_spec
        { P with pools := P.pools ++ List.range' device.pools n }
        { device with pools := device.pools + n } answers.createSecond
      by_cases hfull : answers.first = .errorOutOfPoolMemory
      · simp only [hfull, DescriptorDevice.allocate, hs, if_true, Option.bind_some, Option.map_eq_none_iff,
          List.getLast?_eq_none_iff, List.append_eq_nil_iff, hne, false_and]
      · simp [hfull, hne]

end DescriptorPool
end Ogre.Hal
