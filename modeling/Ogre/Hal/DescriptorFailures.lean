import Ogre.Hal.DescriptorReuse

/-! Allocations that fail: which of them leave the pool as it was. -/
namespace Ogre.Hal
open Ogre.Fml Ogre.Library

namespace DescriptorPools
variable {L : Type*} {s t : DescriptorPools L}

/-- An allocation has a last pool to ask, returns a set only if the device has
allocated it, and leaves the cache alone if it returns none. -/
def Traceless (s : DescriptorPools L) (c : Call L) (_ : DescriptorPools L) : Prop :=
  match c with
  | .allocate o layout key answers => ∀ P, s.held o = some P →
    match P.allocateDescriptorSets s.device layout key answers with
    | none => False
    | some (.ok set, _, device) => set ≠ 0 ∧ (device.sets set).isSome
    | some (.error _, Q, _) => Q.descriptorSets = P.descriptorSets
  | _ => True

/-- The cache has an unused set for the key, or the device creates a pool where
there is none and answers the last request with a set. -/
def Served (s : DescriptorPools L) (c : Call L) (_ : DescriptorPools L) : Prop :=
  match c with
  | .allocate o _ key answers => ∀ P, s.held o = some P →
    P.takeUnused key = none →
      (P.pools = [] → answers.createFirst = true) ∧ answers.last.isSuccess = true
  | _ => True

/-- What is kept while no failed allocation leaves its trace. -/
structure Real (s : DescriptorPools L) : Prop where
  separate : Separate s
  live : Everywhere DescriptorPool.Live s
  noNull : Everywhere DescriptorPool.NoNull s

theorem Real.step {c : Call L} (hw : Real s) (hc : Served s c t) (h : s.step c = some t) : Real t where
  separate := step_separate hw.separate h
  live := step_everywhere hw.separate DescriptorPool.stable_live hw.live h
    fun _ _ _ _ _ _ _ _ _ ha => DescriptorPool.live_allocate ha.provides ha.allocated
  noNull := step_everywhere hw.separate DescriptorPool.stable_noNull hw.noNull h
    fun _ _ _ _ P _ _ _ he ha => by
      subst he
      exact DescriptorPool.noNull_allocate ha.provides ha.allocated fun hn => (hc P ha.held hn).2

/-- The set is pushed before the result is looked at, whatever it is. -/
theorem pushUsed_ne (P : DescriptorPool) (key : Int) (set : DescriptorSet) :
    (P.pushUsed key set).descriptorSets ≠ P.descriptorSets := by
  intro h
  have hk := congrArg List.length (congrFun (P.cached_pushUsed key set) key)
  simp only [DescriptorPool.cached, h, Function.update_self, List.length_append, List.length_singleton] at hk
  omega

theorem traceless_iff_served {c : Call L} (hw : Real s) (h : s.step c = some t) :
    Traceless s c t ↔ Served s c t := by
  cases c with
  | allocate o layout key answers =>
    obtain ⟨hp, P, hP, -⟩ := allocate_step h
    have hlive := hw.live o P (held_eq_some.mp hP).1
    have hnull := hw.noNull o P (held_eq_some.mp hP).1
    simp only [Traceless, Served, hP, Option.some.injEq, forall_eq']
    cases ha : P.allocateDescriptorSets s.device layout key answers with
    | none =>
      obtain ⟨hn, hpools, hf⟩ := DescriptorPool.allocateDescriptorSets_eq_none.mp ha
      simp [hn, hpools, hf]
    | some x =>
      obtain ⟨r, Q, device⟩ := x
      rcases DescriptorPool.allocateDescriptorSets_cases ha with ⟨set, rfl, ht, rfl⟩ | ⟨hn, hk⟩
      · obtain ⟨rest, used, hc, -⟩ := DescriptorPool.takeUnused_spec ht
        have hmem : set ∈ P.cached key := by simp [DescriptorPool.cached, hc]
        have hne : set ≠ 0 := fun h0 => hnull key (h0 ▸ hmem)
        obtain ⟨p, l, hset, -⟩ := hlive key set hmem hne
        simp [ht, hne, hset]
      · have hfirst : P.pools = [] → answers.createFirst = true := by
          intro hpools
          by_contra hf
          rw [DescriptorPool.allocateDescriptorSets_eq_none.mpr ⟨hn, hpools, by simpa using hf⟩] at ha
          cases ha
        rcases hk.outcome with ⟨set, pool, hl, -, rfl, -, hs⟩ | ⟨hl, rfl, hq, -⟩
        · simpa [hn, hl, hs, (Answers.last_new hp hl).1, AllocateResult.isSuccess] using hfirst
        · have hfail : answers.last.isSuccess = false := by
            cases hlast : answers.last with
            | success set => exact (hl set hlast).elim
            | _ => rfl
          simp [hn, hq, hfail, pushUsed_ne]
  | _ => simp [Traceless, Served]

/-- The allocations of a run leave no trace exactly if each is served from the
cache or by the device. -/
theorem allocations_traceless_iff (calls : List (Call L)) :
    machine.Along Traceless {} calls ↔ machine.Along Served {} calls :=
  Machine.along_iff (M := machine) (fun _ _ _ hw h => traceless_iff_served hw h)
    (fun _ _ _ hw hc h => hw.step hc h)
    ⟨separate_init, sound_init.live, sound_init.noNull⟩

/-- The null set of a failed allocation is returned, with success, to the next user. -/
theorem failed_allocation_returns_null : ¬ ∀ calls : List (Call Unit), machine.Along Traceless {} calls := by
  intro h
  have hlast := (((h [.getDescriptorPool, .allocate 0 () 1 { first := .error }, .destroy 0,
    .getDescriptorPool, .allocate 1 () 1 { first := .success 9 }]).tail rfl |>.tail rfl).tail rfl).tail rfl
  exact (hlast.head rfl _ rfl).1 rfl

end DescriptorPools
end Ogre.Hal
