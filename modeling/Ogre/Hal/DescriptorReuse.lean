import Ogre.Hal.DescriptorOwners

/-! While the device allocates what it is asked for, no descriptor set has two
users: neither in one cache, nor in two, nor by way of the recycler. -/
namespace Ogre.Hal
open Ogre.Fml Ogre.Library

namespace DescriptorPool
variable {L : Type*} {device device' : DescriptorDevice L} {P Q : DescriptorPool}

/-- The sets in the cache are allocated, from pools of the object itself. -/
def Live (device : DescriptorDevice L) (P : DescriptorPool) : Prop :=
  ∀ key, ∀ set ∈ P.cached key, set ≠ 0 → ∃ p l, device.sets set = some (p, l) ∧ p ∈ P.pools

def NoNull (_ : DescriptorDevice L) (P : DescriptorPool) : Prop := ∀ key, 0 ∉ P.cached key

/-- No set is in the cache twice. -/
def Distinct (_ : DescriptorDevice L) (P : DescriptorPool) : Prop :=
  (∀ key, (P.cached key).Nodup) ∧
    ∀ key key' set, set ∈ P.cached key → set ∈ P.cached key' → key = key'

theorem stable_live : DescriptorPools.Stable (L := L) Live where
  empty _ _ key set hs := by simp [cached] at hs
  frame device device' P h hf key set hs h0 := by
    obtain ⟨p, l, hd, hp⟩ := h key set hs h0
    exact ⟨p, l, hf set p l hd hp, hp⟩
  recycle device P h key set hs := h key set (by simpa using hs)

theorem stable_noNull : DescriptorPools.Stable (L := L) NoNull where
  empty _ _ key := by simp [cached]
  frame _ _ _ h _ := h
  recycle _ P h key := by simpa using h key

theorem stable_distinct : DescriptorPools.Stable (L := L) Distinct where
  empty _ _ := ⟨fun key => by simp [cached], fun key key' set hs => by simp [cached] at hs⟩
  frame _ _ _ h _ := h
  recycle _ P h := ⟨fun key => by simpa using h.1 key, fun key key' set => by simpa using h.2 key key' set⟩

/-- A set that is taken from the unused list stays in the cache of its key. -/
theorem mem_cached_takeUnused {key k : Int} {set x : DescriptorSet}
    (h : P.takeUnused key = some (set, Q)) : x ∈ Q.cached k ↔ x ∈ P.cached k := by
  obtain ⟨rest, used, hc, rfl⟩ := takeUnused_spec h
  by_cases hk : k = key
  · subst hk
    simp [cached, put, hc]
    tauto
  · simp [cached, put, hk]

/-- What a call that reaches the device adds to the cache, to the key it is made for. -/
theorem Asked.mem_cached {layout : L} {key k : Int} {last : AllocateResult}
    {r : StatusOr DescriptorSet} {x : DescriptorSet} (h : P.Asked device layout key last r Q device')
    (hx : x ∈ Q.cached k) : x ∈ P.cached k ∨ (k = key ∧ (last = .success x ∨ x = 0)) := by
  have add (set : DescriptorSet) (hq : Q.descriptorSets = (P.pushUsed key set).descriptorSets) :
      x ∈ P.cached k ∨ k = key ∧ x = set := by
    have hx : x ∈ (P.pushUsed key set).cached k := by simpa only [cached, hq] using hx
    rw [cached_pushUsed] at hx
    by_cases hk : k = key
    · subst hk
      simpa using hx
    · exact .inl (by simpa [hk] using hx)
  rcases h.outcome with ⟨set, pool, hl, -, -, hq, -⟩ | ⟨-, -, hq, -⟩
  · exact (add set hq).imp_right fun h => ⟨h.1, .inl (by rw [hl, h.2])⟩
  · exact (add 0 hq).imp_right fun h => ⟨h.1, .inr h.2⟩

theorem live_allocate {layout : L} {key : Int} {answers : Answers} {r : StatusOr DescriptorSet}
    (hp : device.Provides answers = true)
    (ha : P.allocateDescriptorSets device layout key answers = some (r, Q, device')) (h : P.Live device) :
    Q.Live device' := by
  intro k x hx h0
  rcases allocateDescriptorSets_cases ha with ⟨set, -, ht, rfl⟩ | ⟨-, hk⟩
  · obtain ⟨p, l, hd, hp⟩ := h k x ((mem_cached_takeUnused ht).mp hx) h0
    obtain ⟨rest, used, -, rfl⟩ := takeUnused_spec ht
    exact ⟨p, l, hd, hp⟩
  · obtain ⟨n, hpools, -⟩ := hk.pools
    rcases hk.mem_cached hx with hx | ⟨-, hl | hx⟩
    · obtain ⟨p, l, hd, hmem⟩ := h k x hx h0
      refine ⟨p, l, ?_, by rw [hpools]; exact List.mem_append_left _ hmem⟩
      rcases hk.outcome with ⟨new, pool, hl, -, -, -, hs⟩ | ⟨-, -, -, hs⟩
      · have hne : x ≠ new := by
          rintro rfl
          rw [(Answers.last_new hp hl).2] at hd
          cases hd
        rw [hs, Function.update_of_ne hne, hd]
      · rw [hs, hd]
    · rcases hk.outcome with ⟨new, pool, hl', hpool, -, -, hs⟩ | ⟨hf, -⟩
      · obtain rfl : x = new := AllocateResult.success.inj (hl.symm.trans hl')
        exact ⟨pool, layout, by rw [hs, Function.update_self], hpool⟩
      · exact (hf x hl).elim
    · exact (h0 hx).elim

theorem noNull_allocate {layout : L} {key : Int} {answers : Answers} {r : StatusOr DescriptorSet}
    (hp : device.Provides answers = true)
    (ha : P.allocateDescriptorSets device layout key answers = some (r, Q, device'))
    (hs : P.takeUnused key = none → answers.last.isSuccess = true) (h : P.NoNull device) :
    Q.NoNull device' := by
  intro k hx
  rcases allocateDescriptorSets_cases ha with ⟨set, -, ht, -⟩ | ⟨hnone, hk⟩
  · exact h k ((mem_cached_takeUnused ht).mp hx)
  · rcases hk.mem_cached hx with hx | ⟨rfl, hl | -⟩
    · exact h k hx
    · exact (Answers.last_new hp hl).1 rfl
    · obtain ⟨new, hnew⟩ := AllocateResult.isSuccess_iff.mp (hs hnone)
      rcases hk.outcome with ⟨set, pool, hl, -, -, hq, -⟩ | ⟨hf, -⟩
      · have hx : (0 : DescriptorSet) ∈ (P.pushUsed k set).cached k := by simpa only [cached, hq] using hx
        rw [cached_pushUsed, Function.update_self, List.mem_append, List.mem_singleton] at hx
        exact hx.elim (h k) fun he => (Answers.last_new hp hl).1 he.symm
      · exact hf new hnew

theorem distinct_allocate {layout : L} {key : Int} {answers : Answers} {r : StatusOr DescriptorSet}
    (hp : device.Provides answers = true)
    (ha : P.allocateDescriptorSets device layout key answers = some (r, Q, device'))
    (hs : P.takeUnused key = none → answers.last.isSuccess = true) (hl : P.Live device)
    (h : P.Distinct device) : Q.Distinct device' := by
  rcases allocateDescriptorSets_cases ha with ⟨set, -, ht, -⟩ | ⟨hnone, hk⟩
  · refine ⟨fun k => ?_, fun k k' x hx hx' =>
      h.2 k k' x ((mem_cached_takeUnused ht).mp hx) ((mem_cached_takeUnused ht).mp hx')⟩
    obtain ⟨rest, used, hc, rfl⟩ := takeUnused_spec ht
    by_cases hkey : k = key
    · subst hkey
      have hn := h.1 k
      simp only [cached, hc, Option.elim_some, List.append_assoc] at hn
      rw [cached_put, Function.update_self]
      exact ((@List.perm_append_comm _ [set] used).append_left rest).nodup_iff.mp hn
    · simpa [hkey] using h.1 k
  · obtain ⟨new, hnew⟩ := AllocateResult.isSuccess_iff.mp (hs hnone)
    obtain ⟨h0, hfree⟩ := Answers.last_new hp hnew
    have hout (k : Int) : new ∉ P.cached k := by
      intro hm
      obtain ⟨p, l, hd, -⟩ := hl k new hm h0
      rw [hfree] at hd
      cases hd
    have hq : Q.cached = Function.update P.cached key (P.cached key ++ [new]) := by
      rcases hk.outcome with ⟨set, pool, hset, -, -, hq, -⟩ | ⟨hf, -⟩
      · obtain rfl : new = set := AllocateResult.success.inj (hnew.symm.trans hset)
        rw [← cached_pushUsed]
        funext k
        simp only [cached, hq]
      · exact (hf new hnew).elim
    have hmem (k : Int) (x : DescriptorSet) (hx : x ∈ Q.cached k) :
        x ∈ P.cached k ∨ k = key ∧ x = new := by
      rw [hq] at hx
      by_cases hkey : k = key
      · subst hkey
        simpa using hx
      · exact .inl (by simpa [hkey] using hx)
    refine ⟨fun k => ?_, fun k k' x hx hx' => ?_⟩
    · rw [hq]
      by_cases hkey : k = key
      · subst hkey
        rw [Function.update_self, List.nodup_append]
        exact ⟨h.1 k, List.nodup_singleton _, fun x hx y hy => by
          rw [List.mem_singleton] at hy
          rintro rfl
          exact hout k (hy ▸ hx)⟩
      · simpa [hkey] using h.1 k
    · rcases hmem k x hx with hx | ⟨hk₁, he⟩ <;> rcases hmem k' x hx' with hx' | ⟨hk₂, he'⟩
      · exact h.2 k k' x hx hx'
      · exact (hout k (he' ▸ hx)).elim
      · exact (hout k' (he ▸ hx')).elim
      · exact hk₁.trans hk₂.symm

/-- A used set stays a used one. -/
theorem used_allocate {layout : L} {key k : Int} {answers : Answers} {r : StatusOr DescriptorSet}
    {set : DescriptorSet} {cache : DescriptorCache}
    (ha : P.allocateDescriptorSets device layout key answers = some (r, Q, device'))
    (hc : P.descriptorSets k = some cache) (hs : set ∈ cache.used) :
    ∃ cache', Q.descriptorSets k = some cache' ∧ set ∈ cache'.used := by
  have push (new : DescriptorSet) (hq : Q.descriptorSets = (P.pushUsed key new).descriptorSets) :
      ∃ cache', Q.descriptorSets k = some cache' ∧ set ∈ cache'.used := by
    by_cases hk : k = key
    · subst hk
      exact ⟨_, by rw [hq]; exact Function.update_self .., by simp [hc, hs]⟩
    · exact ⟨cache, by rw [hq, pushUsed, put]; simpa [hk] using hc, hs⟩
  rcases allocateDescriptorSets_cases ha with ⟨new, -, ht, -⟩ | ⟨-, hk⟩
  · obtain ⟨rest, used, hold, rfl⟩ := takeUnused_spec ht
    by_cases hk : k = key
    · subst hk
      obtain rfl : ⟨rest ++ [new], used⟩ = cache := Option.some.inj (hold.symm.trans hc)
      exact ⟨⟨rest, used ++ [new]⟩, by simp [put], List.mem_append_left _ hs⟩
    · exact ⟨cache, by simpa [put, hk] using hc, hs⟩
  · rcases hk.outcome with ⟨new, pool, -, -, -, hq, -⟩ | ⟨-, -, hq, -⟩ <;> exact push _ hq

/-- A set that is returned is a used one. -/
theorem ok_used {layout : L} {key : Int} {answers : Answers} {set : DescriptorSet}
    (ha : P.allocateDescriptorSets device layout key answers = some (.ok set, Q, device')) :
    ∃ cache, Q.descriptorSets key = some cache ∧ set ∈ cache.used := by
  rcases allocateDescriptorSets_cases ha with ⟨new, hr, ht, -⟩ | ⟨-, hk⟩
  · obtain rfl : set = new := Except.ok.inj hr
    obtain ⟨rest, used, -, rfl⟩ := takeUnused_spec ht
    exact ⟨⟨rest, used ++ [set]⟩, by simp [put], by simp⟩
  · rcases hk.outcome with ⟨new, pool, -, -, hr, hq, -⟩ | ⟨-, hr, -⟩
    · obtain rfl : set = new := Except.ok.inj hr
      exact ⟨_, by rw [hq]; exact Function.update_self .., by simp⟩
    · cases hr

end DescriptorPool

namespace DescriptorPools
variable {L : Type*} {s t u v : DescriptorPools L}

/-- The device creates the first pool that is asked for, and allocates a set. -/
def Succeeds (_ : DescriptorPools L) (c : Call L) (_ : DescriptorPools L) : Prop :=
  match c with
  | .allocate _ _ _ answers => answers.createFirst = true ∧ answers.last.isSuccess = true
  | _ => True

instance (s : DescriptorPools L) (c : Call L) (t : DescriptorPools L) : Decidable (Succeeds s c t) := by
  unfold Succeeds
  cases c <;> infer_instance

/-- What a call of `AllocateDescriptorSets` on an object that a caller holds returns. -/
def returns (s : DescriptorPools L) : Call L → Option (StatusOr DescriptorSet)
  | .allocate o layout key answers =>
    (s.held o).bind fun P => (P.allocateDescriptorSets s.device layout key answers).map Prod.fst
  | _ => none

/-- Every object keeps sets that are its own, once each. -/
structure Sound (s : DescriptorPools L) : Prop where
  separate : Separate s
  live : Everywhere DescriptorPool.Live s
  noNull : Everywhere DescriptorPool.NoNull s
  distinct : Everywhere DescriptorPool.Distinct s

theorem sound_init : Sound ({} : DescriptorPools L) where
  separate := separate_init
  live o P ho := by cases ho
  noNull o P ho := by cases ho
  distinct o P ho := by cases ho

theorem Sound.step {c : Call L} (hw : Sound s) (hc : Succeeds s c t) (h : s.step c = some t) : Sound t where
  separate := step_separate hw.separate h
  live := step_everywhere hw.separate DescriptorPool.stable_live hw.live h
    fun _ _ _ _ _ _ _ _ _ ha => DescriptorPool.live_allocate ha.provides ha.allocated
  noNull := step_everywhere hw.separate DescriptorPool.stable_noNull hw.noNull h
    fun _ _ _ _ _ _ _ _ he ha => by
      subst he
      exact DescriptorPool.noNull_allocate ha.provides ha.allocated fun _ => hc.2
  distinct := step_everywhere hw.separate DescriptorPool.stable_distinct hw.distinct h
    fun o _ _ _ P _ _ _ he ha => by
      subst he
      exact DescriptorPool.distinct_allocate ha.provides ha.allocated (fun _ => hc.2)
        (hw.live o P (held_eq_some.mp ha.held).1)

theorem run_sound {calls : List (Call L)} (hc : machine.Along Succeeds {} calls)
    (hr : machine.run calls = some s) : Sound s :=
  Machine.invariant_along (M := machine) (fun _ _ _ hw hc hs => hw.step hc hs) sound_init hc hr

/-- The object `o` is held by a caller and has `set` in a list of used sets. -/
def Handed (o : Nat) (set : DescriptorSet) (s : DescriptorPools L) : Prop :=
  ∃ P key cache, s.held o = some P ∧ P.descriptorSets key = some cache ∧ set ∈ cache.used

/-- Only the destruction of an object takes it from its caller, and only an
allocation through it changes it. -/
theorem held_step {c : Call L} {o : Nat} {P : DescriptorPool} (w : Separate s) (h : s.step c = some t)
    (ho : s.held o = some P) (hd : some o ≠ c.destroyed) :
    t.held o = some P ∨ ∃ layout key answers r Q device, t.held o = some Q ∧
      P.allocateDescriptorSets s.device layout key answers = some (r, Q, device) := by
  obtain ⟨hP, hm⟩ := held_eq_some.mp ho
  simp only [held_eq_some]
  rcases step_cases w h with hs | ⟨u, R, hs, hn⟩ | rfl | ⟨o', layout, key, answers, P', r, Q, device, -, hal⟩
  · exact .inl ⟨by rw [hs.held o hm hd, hP], fun hm' => hm (hs.recycled.subset hm')⟩
  · have hu : u.objects o = some P := by rw [hs.held o hm (by simp), hP]
    have hne : o ≠ u.created := Nat.ne_of_lt ((w.shrinks hs).numbered o P hu)
    refine .inl ⟨by rw [hn.held o hne hd, hu], fun hm' => ?_⟩
    have hmu : o ∉ u.recycled := fun hm' => hm (hs.recycled.subset hm')
    rcases hn.recycled with hr | ⟨hr, -⟩ <;> rw [hr] at hm'
    · exact hmu hm'
    · simp [hmu, hne] at hm'
  · exact .inl ⟨hP, hm⟩
  · rw [hal.eq]
    by_cases hne : o = o'
    · subst hne
      obtain rfl : P = P' := Option.some.inj (ho.symm.trans hal.held)
      exact .inr ⟨layout, key, answers, r, Q, device, ⟨by simp, hm⟩, hal.allocated⟩
    · exact .inl ⟨by simpa [hne] using hP, hm⟩

theorem Handed.step {c : Call L} {o : Nat} {set : DescriptorSet} (w : Separate s) (h : s.step c = some t)
    (hd : c ≠ .destroy o) (hh : Handed o set s) : Handed o set t := by
  obtain ⟨P, key, cache, hP, hc, hm⟩ := hh
  have hd' : some o ≠ c.destroyed := by
    cases c <;> simp_all [Call.destroyed, eq_comm]
  rcases held_step w h hP hd' with ht | ⟨layout, key', answers, r, Q, device, ht, ha⟩
  · exact ⟨P, key, cache, ht, hc, hm⟩
  · obtain ⟨cache', hc', hm'⟩ := DescriptorPool.used_allocate ha hc hm
    exact ⟨Q, key, cache', ht, hc', hm'⟩

/-- A set that is handed out is not what an allocation returns. -/
theorem Handed.not_returned {o : Nat} {set : DescriptorSet} {c : Call L} (hw : Sound u)
    (hh : Handed o set u) (h : u.step c = some v) : u.returns c ≠ some (.ok set) := by
  intro hr
  obtain ⟨P, key, cache, hP, hcache, hm⟩ := hh
  have ho := (held_eq_some.mp hP).1
  have hcached : set ∈ P.cached key := by simp [DescriptorPool.cached, hcache, hm]
  have hnull : set ≠ 0 := by
    rintro rfl
    exact hw.noNull o P ho key hcached
  obtain ⟨p, l, hset, hp⟩ := hw.live o P ho key set hcached hnull
  cases c with
  | allocate o' layout key' answers =>
    obtain ⟨P', hP', hr⟩ := Option.bind_eq_some_iff.mp hr
    obtain ⟨⟨r, Q, device⟩, ha, rfl⟩ := Option.map_eq_some_iff.mp hr
    have ho' := (held_eq_some.mp hP').1
    rcases DescriptorPool.allocateDescriptorSets_cases ha with ⟨new, hn, ht, -⟩ | ⟨-, hk⟩
    · obtain rfl : set = new := Except.ok.inj hn
      obtain ⟨rest, used, hold, -⟩ := DescriptorPool.takeUnused_spec ht
      have hmem : set ∈ P'.cached key' := by simp [DescriptorPool.cached, hold]
      obtain ⟨p', l', hset', hp'⟩ := hw.live o' P' ho' key' set hmem hnull
      obtain ⟨rfl, rfl⟩ := Prod.mk.inj (Option.some.inj (hset.symm.trans hset'))
      obtain rfl := hw.separate.poolsApart o o' P P' p ho ho' hp hp'
      obtain rfl : P = P' := Option.some.inj (ho.symm.trans ho')
      obtain rfl := (hw.distinct o P ho).2 key key' set hcached hmem
      obtain rfl : ⟨rest ++ [set], used⟩ = cache := Option.some.inj (hold.symm.trans hcache)
      have hnodup := (hw.distinct o P ho).1 key
      simp only [DescriptorPool.cached, hcache, Option.elim_some, List.nodup_append] at hnodup
      exact hnodup.2.2 set (by simp) set hm rfl
    · rcases hk.outcome with ⟨new, pool, hl, -, hn, -⟩ | ⟨-, hn, -⟩
      · obtain rfl : set = new := Except.ok.inj hn
        rw [(Answers.last_new (allocate_step h).1 hl).2] at hset
        cases hset
      · cases hn
  | _ => cases hr

/-- A descriptor set is not returned again before the object that returned it is
destroyed, and the recycler never holds more than its maximum. -/
theorem descriptorSet_not_returned_again :
    (∀ calls (s : DescriptorPools L), machine.run calls = some s →
      s.recycled.length ≤ kMaxRecycledPools) ∧
    ∀ before later o layout key answers c' (s t u v : DescriptorPools L) set,
      machine.run before = some s → s.step (.allocate o layout key answers) = some t →
      machine.runFrom t later = some u → u.step c' = some v →
      machine.Along Succeeds {} (before ++ .allocate o layout key answers :: later) →
      s.returns (.allocate o layout key answers) = some (.ok set) → .destroy o ∉ later →
      u.returns c' ≠ some (.ok set) := by
  constructor
  · intro calls s hr
    exact (Machine.invariant (M := machine) (fun _ _ _ w h => step_separate w h) separate_init hr).recycledLength
  · intro before later o layout key answers c' s t u v set hb ht hl hv hok hret hd
    obtain ⟨hokb, hokc⟩ := (Machine.along_append hb).mp hok
    have hs := run_sound hokb hb
    -- the set is a used one of the object after the call that returns it
    have hhanded : Handed o set t := by
      obtain ⟨P, hP, hret⟩ := Option.bind_eq_some_iff.mp hret
      obtain ⟨⟨r, Q, device⟩, ha, rfl⟩ := Option.map_eq_some_iff.mp hret
      obtain ⟨cache, hcache, hm⟩ := DescriptorPool.ok_used ha
      obtain ⟨-, P', hP', rfl⟩ := allocate_step ht
      obtain rfl : P = P' := Option.some.inj (hP.symm.trans hP')
      refine ⟨Q, key, cache, held_eq_some.mpr ⟨?_, ?_⟩, hcache, hm⟩ <;> simp only [allocate, ha]
      · exact Function.update_self ..
      · exact (held_eq_some.mp hP).2
    have hu : Sound u ∧ Handed o set u := by
      refine Machine.invariant_along (M := machine) (I := fun s => Sound s ∧ Handed o set s)
        (C := fun s c t => Succeeds s c t ∧ c ≠ .destroy o) ?_ ⟨hs.step (hokc.head ht) ht, hhanded⟩
        ((hokc.tail ht).and (Machine.along_of_forall fun c hc _ _ => ?_)) hl
      · rintro s c t ⟨hs, hh⟩ ⟨hc, hd⟩ h
        exact ⟨hs.step hc h, hh.step hs.separate h hd⟩
      · rintro rfl
        exact hd hc
    exact hu.2.not_returned hu.1 hv

/-- Object 1 is destroyed and its set 6 comes back through object 2, while object 0 keeps 5. -/
theorem descriptorSet_not_returned_again_recycled : ∃ u v : DescriptorPools Unit,
    machine.run [.getDescriptorPool, .allocate 0 () 1 { first := .success 5 }, .getDescriptorPool,
      .allocate 1 () 1 { first := .success 6 }, .destroy 1, .getDescriptorPool] = some u ∧
    u.step (.allocate 2 () 1 { first := .success 7 }) = some v ∧
    u.returns (.allocate 2 () 1 { first := .success 7 }) ≠ some (.ok 5) := by
  refine ⟨_, _, rfl, rfl, ?_⟩
  exact descriptorSet_not_returned_again.2 [.getDescriptorPool]
    [.getDescriptorPool, .allocate 1 () 1 { first := .success 6 }, .destroy 1, .getDescriptorPool]
    0 () 1 { first := .success 5 } _ _ _ _ _ 5 rfl rfl rfl rfl (by decide) rfl (by simp)

end DescriptorPools
end Ogre.Hal
