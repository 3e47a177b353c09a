import Ogre.Hal.PipelineKeys

/-! Whether the descriptor set that is allocated for a pipeline has its layout:
the caches outlive the calls, and are looked up by key only. -/
namespace Ogre.Hal
open Ogre.Fml Ogre.Library

/-- What is in the cache of a key was allocated with the layout of the pipelines
that have the key. -/
def DescriptorPool.LaidOut (l : PipelineLibrary) (device : DescriptorDevice VkDescriptorSetLayout)
    (P : DescriptorPool) : Prop :=
  P.Live device ∧ ∀ key, ∀ set ∈ P.cached key, (∃ q ∈ l.made, q.pipelineKey = key) ∧
    (set ≠ 0 → ∀ p layout, device.sets set = some (p, layout) →
      ∀ q ∈ l.made, q.pipelineKey = key → q.descriptorSetLayout = layout)

theorem DescriptorPool.stable_laidOut (l : PipelineLibrary) : DescriptorPools.Stable (LaidOut l) where
  empty device pools := ⟨stable_live.empty device pools, fun key set hs => by simp [cached] at hs⟩
  frame device device' P h hf := by
    refine ⟨stable_live.frame device device' P h.1 hf, fun key set hs => ⟨(h.2 key set hs).1, ?_⟩⟩
    intro h0 p layout hset q hq hk
    obtain ⟨p', layout', hd, hp⟩ := h.1 key set hs h0
    have heq := (hf set p' layout' hd hp).symm.trans hset
    obtain ⟨rfl, rfl⟩ := Prod.mk.inj (Option.some.inj heq)
    exact (h.2 key set hs).2 h0 p' layout' hd q hq hk
  recycle device P h := ⟨stable_live.recycle device P h.1, fun key set hs => h.2 key set (by simpa using hs)⟩

/-- A new pipeline with a key that is in use has the layout of the sets of the key. -/
theorem DescriptorPool.LaidOut.append {l l' : PipelineLibrary} {device : DescriptorDevice VkDescriptorSetLayout}
    {P : DescriptorPool} (h : P.LaidOut l device) (hs : l'.KeysSeparate) {new : List Pipeline}
    (hm : l'.made = l.made ++ new) : P.LaidOut l' device := by
  rw [PipelineLibrary.keysSeparate_iff, hm] at hs
  refine ⟨h.1, fun key set hset => ?_⟩
  obtain ⟨⟨q, hq, hk⟩, hl⟩ := h.2 key set hset
  rw [hm]
  refine ⟨⟨q, List.mem_append_left _ hq, hk⟩, fun h0 p layout hd q' hq' hk' => ?_⟩
  rw [← hs q (List.mem_append_left _ hq) q' hq' (hk.trans hk'.symm)]
  exact hl h0 p layout hd q hq hk

theorem DescriptorPool.LaidOut.allocate {l : PipelineLibrary} {device device' : DescriptorDevice VkDescriptorSetLayout}
    {P Q : DescriptorPool} {q : Pipeline} {answers : Answers} {r : StatusOr DescriptorSet}
    (h : P.LaidOut l device) (hs : l.KeysSeparate) (hq : { q with variants := [] } ∈ l.made)
    (hp : device.Provides answers = true)
    (ha : P.allocateDescriptorSets device q.descriptorSetLayout q.pipelineKey answers = some (r, Q, device')) :
    Q.LaidOut l device' := by
  rw [PipelineLibrary.keysSeparate_iff] at hs
  refine ⟨live_allocate hp ha h.1, fun key set hset => ?_⟩
  rcases allocateDescriptorSets_cases ha with ⟨new, -, ht, rfl⟩ | ⟨-, hk⟩
  · exact h.2 key set ((mem_cached_takeUnused ht).mp hset)
  · rcases hk.mem_cached hset with hset | ⟨rfl, hnew⟩
    · obtain ⟨hex, hl⟩ := h.2 key set hset
      refine ⟨hex, fun h0 p layout hd => hl h0 p layout ?_⟩
      obtain ⟨p', layout', hd', -⟩ := h.1 key set hset h0
      rcases hk.outcome with ⟨new, pool, hlast, -, -, -, hsets⟩ | ⟨-, -, -, hsets⟩
      · have hne : set ≠ new := by
          rintro rfl
          rw [(Answers.last_new hp hlast).2] at hd'
          cases hd'
        rwa [hsets, Function.update_of_ne hne] at hd
      · rwa [hsets] at hd
    · refine ⟨⟨_, hq, rfl⟩, fun h0 p layout hd q' hq' hk' => ?_⟩
      rcases hnew with hlast | h0'
      · rcases hk.outcome with ⟨new, pool, hlast', -, -, -, hsets⟩ | ⟨hf, -⟩
        · obtain rfl : set = new := AllocateResult.success.inj (hlast.symm.trans hlast')
          rw [hsets, Function.update_self] at hd
          obtain ⟨-, rfl⟩ := Prod.mk.inj (Option.some.inj hd)
          exact hs q' hq' { q with variants := [] } hq hk'
        · exact (hf set hlast).elim
      · exact (h0 h0').elim

/-- The set that is returned for a pipeline has the layout of the pipeline. -/
theorem DescriptorPool.LaidOut.returned {l : PipelineLibrary} {device device' : DescriptorDevice VkDescriptorSetLayout}
    {P Q : DescriptorPool} {q : Pipeline} {answers : Answers} {set : DescriptorSet} {p : Nat}
    {layout : VkDescriptorSetLayout} (h : P.LaidOut l device) (hq : { q with variants := [] } ∈ l.made)
    (hnull : device.sets 0 = none)
    (ha : P.allocateDescriptorSets device q.descriptorSetLayout q.pipelineKey answers =
      some (.ok set, Q, device'))
    (hd : device'.sets set = some (p, layout)) : layout = q.descriptorSetLayout := by
  rcases allocateDescriptorSets_cases ha with ⟨new, hr, ht, rfl⟩ | ⟨-, hk⟩
  · obtain rfl : set = new := Except.ok.inj hr
    obtain ⟨rest, used, hc, -⟩ := takeUnused_spec ht
    have h0 : set ≠ 0 := by
      rintro rfl
      rw [hnull] at hd
      cases hd
    exact ((h.2 q.pipelineKey set (by simp [cached, hc])).2 h0 p layout hd _ hq rfl).symm
  · rcases hk.outcome with ⟨new, pool, -, -, hr, -, hsets⟩ | ⟨-, hr, -⟩
    · obtain rfl : set = new := Except.ok.inj hr
      rw [hsets, Function.update_self] at hd
      exact (Prod.mk.inj (Option.some.inj hd)).2.symm
    · cases hr

namespace PipelineContext
variable {s t : PipelineContext}

/-- The pipeline and the immutable sampler of a call that creates a variant if
the pipeline does not have it yet. -/
def Call.newVariant : Call → Option (Nat × Sampler)
  | .createVariant p (some sampler) .created => some (p, sampler)
  | .draw _ p (some sampler) .created _ => some (p, sampler)
  | _ => none

/-- No two pipelines with different layouts have one key, and a set that is
returned for a pipeline was allocated with its layout. -/
def LayoutsAgree (s : PipelineContext) (c : Call) (t : PipelineContext) : Prop :=
  t.library.KeysSeparate ∧ ∀ library q o answers set p layout,
    s.prepare c = some (library, some (q, o, answers)) →
    s.pools.returns (allocateCall (q, o, answers)) = some (.ok set) →
    t.pools.device.sets set = some (p, layout) → layout = q.descriptorSetLayout

/-- A variant is created of a pipeline without sampled images, or the pipelines
that have the negated key already have its immutable sampler. -/
def VariantsAgree (s : PipelineContext) (c : Call) (_ : PipelineContext) : Prop :=
  ∀ p sampler q, c.newVariant = some (p, sampler) → s.pipeline false p = some q →
    (q.variants.find? fun x => x.1 = sampler.key) = none →
    q.desc.hasSampledImage = false ∨
      ∀ q' ∈ s.library.pipelines, q'.pipelineKey = -1 * q.pipelineKey → q'.vkImmutableSampler = sampler.vkSampler

theorem pipeline_eq_some {compute : Bool} {p : Nat} {q : Pipeline} :
    s.pipeline compute p = some q ↔ s.library.pipelines[p]? = some q ∧ q.compute = compute := by
  simp [pipeline, Option.filter_eq_some_iff]

/-- What a call does to the library, apart from the variants it may create. -/
structure Prepared (s : PipelineContext) (c : Call) (library : PipelineLibrary)
    (allocation : Option Allocation) : Prop where
  keyed : library.Keyed
  made : ∃ new, library.made = s.library.made ++ new
  allocation : ∀ a, allocation = some a → { a.1 with variants := [] } ∈ library.made
  separate : s.library.KeysSeparate → (library.KeysSeparate ↔ VariantsAgree s c s)

private theorem Prepared.of_fresh {c : Call} {library : PipelineLibrary} {allocation : Option Allocation}
    (hk : library.Keyed) (hf : s.library.AddsFresh library)
    (ha : ∀ a, allocation = some a → { a.1 with variants := [] } ∈ library.made)
    (hn : VariantsAgree s c s) : Prepared s c library allocation where
  keyed := hk
  made := by
    rcases hf.made with hm | ⟨q, hm, -⟩
    · exact ⟨[], by simp [hm]⟩
    · exact ⟨[q], hm⟩
  allocation := ha
  separate h := iff_of_true (PipelineLibrary.keysSeparate_of_fresh h hf) hn

private theorem variantsAgree_of_none {c : Call} (h : c.newVariant = none) : VariantsAgree s c t := by
  intro p sampler q hn
  rw [h] at hn
  cases hn

/-- The creation of a variant, by itself or for a draw. -/
private theorem prepared_variant (hk : s.library.Keyed) {c : Call} {p : Nat} {q : Pipeline}
    (hq : s.pipeline false p = some q) (sampler : Option Sampler) (creation : Creation)
    (hc : c.newVariant = if creation = .created then sampler.map fun x => (p, x) else none)
    {allocation : Option Allocation}
    (ha : ∀ a, allocation = some a → { a.1 with variants := [] } ∈
      (s.library.createVariantForImmutableSamplers p q sampler creation).2.made) :
    Prepared s c (s.library.createVariantForImmutableSamplers p q sampler creation).2 allocation := by
  obtain ⟨hp, hcompute⟩ := pipeline_eq_some.mp hq
  obtain ⟨hkeyed, hcases⟩ := PipelineLibrary.createVariant_cases hk hp hcompute sampler creation
  rcases hcases with ⟨hm, hfound⟩ | ⟨x, rfl, rfl, hnone, hm⟩
  · refine .of_fresh hkeyed ⟨.inl hm⟩ ha fun p' x q' hn hq' hnone => ?_
    rw [hc] at hn
    split at hn
    case isFalse => cases hn
    case isTrue hcreated =>
      obtain ⟨y, hy, hpair⟩ := Option.map_eq_some_iff.mp hn
      obtain ⟨rfl, rfl⟩ := Prod.mk.inj hpair
      obtain rfl : q = q' := Option.some.inj (hq.symm.trans hq')
      exact (hfound y hy hcreated hnone).elim
  · refine ⟨hkeyed, ⟨_, hm⟩, ha, fun hs => ?_⟩
    rw [PipelineLibrary.keysSeparate_variant_iff hs hk (PipelineLibrary.mem_made hp) hcompute hm]
    simp only [if_true, Option.map_some] at hc
    constructor
    · intro h p' x' q' hn hq' _
      rw [hc] at hn
      obtain ⟨rfl, rfl⟩ := Prod.mk.inj (Option.some.inj hn)
      obtain rfl : q = q' := Option.some.inj (hq.symm.trans hq')
      exact h
    · exact fun h => h p x q hc hq hnone

theorem prepare_spec (hk : s.library.Keyed) {c : Call} {library : PipelineLibrary}
    {allocation : Option Allocation} (h : s.prepare c = some (library, allocation)) :
    Prepared s c library allocation := by
  cases c with
  | getPipeline compute descriptor async created =>
    obtain ⟨rfl, rfl⟩ := Prod.mk.inj (Option.some.inj h)
    obtain ⟨hkeyed, hf⟩ := PipelineLibrary.getPipeline_spec hk compute descriptor async created
    exact .of_fresh hkeyed hf (by simp) (variantsAgree_of_none rfl)
  | runTask i created =>
    obtain ⟨l, hl, hpair⟩ := Option.map_eq_some_iff.mp h
    obtain ⟨rfl, rfl⟩ := Prod.mk.inj hpair
    obtain ⟨hkeyed, hf⟩ := PipelineLibrary.runTask_spec hk hl
    exact .of_fresh hkeyed hf (by simp) (variantsAgree_of_none rfl)
  | removePipelinesWithEntryPoint function =>
    obtain ⟨rfl, rfl⟩ := Prod.mk.inj (Option.some.inj h)
    exact .of_fresh (hk.of_made_eq rfl rfl (.refl _)) ⟨.inl rfl⟩ (by simp) (variantsAgree_of_none rfl)
  | createVariant p sampler creation =>
    obtain ⟨q, hq, hpair⟩ := Option.map_eq_some_iff.mp h
    obtain ⟨rfl, rfl⟩ := Prod.mk.inj hpair
    refine prepared_variant hk hq sampler creation ?_ (by simp)
    cases sampler <;> cases creation <;> rfl
  | draw o p sampler creation answers =>
    obtain ⟨q, hq, hpair⟩ := Option.map_eq_some_iff.mp h
    cases sampler with
    | none =>
      obtain ⟨rfl, rfl⟩ := Prod.mk.inj hpair
      refine .of_fresh hk ⟨.inl rfl⟩ (fun a ha => ?_) (variantsAgree_of_none rfl)
      obtain rfl := Option.some.inj ha
      exact PipelineLibrary.mem_made (pipeline_eq_some.mp hq).1
    | some x =>
      obtain ⟨rfl, rfl⟩ := Prod.mk.inj hpair
      refine prepared_variant hk hq (some x) creation (by cases creation <;> rfl) fun a ha => ?_
      obtain ⟨v, hv, rfl⟩ := Option.map_eq_some_iff.mp ha
      obtain ⟨i, -, hi⟩ := Option.bind_eq_some_iff.mp hv
      exact PipelineLibrary.mem_made hi
  | dispatch o p answers =>
    obtain ⟨q, hq, hpair⟩ := Option.map_eq_some_iff.mp h
    obtain ⟨rfl, rfl⟩ := Prod.mk.inj hpair
    refine .of_fresh hk ⟨.inl rfl⟩ (fun a ha => ?_) (variantsAgree_of_none rfl)
    obtain rfl := Option.some.inj ha
    exact PipelineLibrary.mem_made (pipeline_eq_some.mp hq).1
  | pools call => cases h

/-- What is kept while variants with one key agree. -/
structure Agrees (s : PipelineContext) : Prop where
  keyed : s.library.Keyed
  keys : s.library.KeysSeparate
  separate : DescriptorPools.Separate s.pools
  laidOut : DescriptorPools.Everywhere (DescriptorPool.LaidOut s.library) s.pools

/-- A call is one of the pools', or changes the library and may then allocate. -/
theorem step_cases {c : Call} (h : s.step c = some t) :
    (∃ call pools, c = .pools call ∧ (∀ o layout key answers, call ≠ .allocate o layout key answers) ∧
      s.pools.step call = some pools ∧ t = { s with pools }) ∨
    ∃ library allocation, s.prepare c = some (library, allocation) ∧
      (allocation = none ∧ t = { s with library } ∨
        ∃ a pools, allocation = some a ∧ s.pools.step (allocateCall a) = some pools ∧ t = { library, pools }) := by
  have other (h : (s.prepare c).bind s.complete = some t) :
      ∃ library allocation, s.prepare c = some (library, allocation) ∧
        (allocation = none ∧ t = { s with library } ∨
          ∃ a pools, allocation = some a ∧ s.pools.step (allocateCall a) = some pools ∧
            t = { library, pools }) := by
    obtain ⟨⟨library, allocation⟩, hp, ht⟩ := Option.bind_eq_some_iff.mp h
    refine ⟨library, allocation, hp, ?_⟩
    cases allocation with
    | none => exact .inl ⟨rfl, (Option.some.inj ht).symm⟩
    | some a =>
      obtain ⟨pools, hs, rfl⟩ := Option.map_eq_some_iff.mp ht
      exact .inr ⟨a, pools, rfl, hs, rfl⟩
  cases c with
  | pools call =>
    cases call with
    | allocate o layout key answers => cases h
    | _ =>
      obtain ⟨pools, hs, rfl⟩ := Option.map_eq_some_iff.mp h
      exact .inl ⟨_, pools, rfl, by simp, hs, rfl⟩
  | _ => exact .inr (other h)

theorem agrees_init : Agrees {} where
  keyed := PipelineLibrary.keyed_init
  keys := by simp [PipelineLibrary.KeysSeparate]
  separate := DescriptorPools.separate_init
  laidOut o P ho := by cases ho

theorem layoutsAgree_iff {c : Call} (hw : Agrees s) (h : s.step c = some t) :
    LayoutsAgree s c t ↔ VariantsAgree s c t := by
  rcases step_cases h with ⟨call, pools, rfl, -, -, rfl⟩ | ⟨library, allocation, hp, ht⟩
  · exact iff_of_true ⟨hw.keys, by simp [prepare]⟩ (variantsAgree_of_none rfl)
  · have hprep := prepare_spec hw.keyed hp
    have hlib : t.library = library := by
      rcases ht with ⟨-, rfl⟩ | ⟨a, pools, -, -, rfl⟩ <;> rfl
    have hsep : t.library.KeysSeparate ↔ VariantsAgree s c t := by
      rw [hlib]
      exact hprep.separate hw.keys
    refine ⟨fun hl => hsep.mp hl.1, fun hv => ⟨hsep.mpr hv, ?_⟩⟩
    intro library' q o answers set p layout hp' hret hset
    obtain ⟨rfl, rfl⟩ := Prod.mk.inj (Option.some.inj (hp.symm.trans hp'))
    obtain ⟨pools, hs, rfl⟩ : ∃ pools, s.pools.step (allocateCall (q, o, answers)) = some pools ∧
        t = { library, pools } := by
      rcases ht with ⟨hnone, -⟩ | ⟨a, pools, ha, hs, rfl⟩
      · cases hnone
      · obtain rfl := Option.some.inj ha
        exact ⟨pools, hs, rfl⟩
    obtain ⟨hprovides, P, hP, rfl⟩ := DescriptorPools.allocate_step hs
    obtain ⟨P', hP', hret⟩ := Option.bind_eq_some_iff.mp hret
    obtain rfl : P = P' := Option.some.inj (hP.symm.trans hP')
    obtain ⟨⟨r, Q, device⟩, ha, rfl⟩ := Option.map_eq_some_iff.mp hret
    obtain ⟨new, hmade⟩ := hprep.made
    have hlaid := (hw.laidOut o P (DescriptorPools.held_eq_some.mp hP).1).append (hsep.mpr hv) hmade
    simp only [DescriptorPools.allocate, ha] at hset
    exact hlaid.returned (hprep.allocation _ rfl) hw.separate.null ha hset

theorem Agrees.step {c : Call} (hw : Agrees s) (hc : VariantsAgree s c t) (h : s.step c = some t) :
    Agrees t := by
  rcases step_cases h with ⟨call, pools, rfl, hna, hs, rfl⟩ | ⟨library, allocation, hp, ht⟩
  · exact ⟨hw.keyed, hw.keys, DescriptorPools.step_separate hw.separate hs,
      DescriptorPools.step_everywhere hw.separate (DescriptorPool.stable_laidOut _) hw.laidOut hs
        fun o layout key answers _ _ _ _ he => (hna o layout key answers he).elim⟩
  · have hprep := prepare_spec hw.keyed hp
    have hkeys := (hprep.separate hw.keys).mpr hc
    obtain ⟨new, hmade⟩ := hprep.made
    have hlaid : DescriptorPools.Everywhere (DescriptorPool.LaidOut library) s.pools :=
      fun o P ho => (hw.laidOut o P ho).append hkeys hmade
    rcases ht with ⟨-, rfl⟩ | ⟨⟨q, o, answers⟩, pools, rfl, hs, rfl⟩
    · exact ⟨hprep.keyed, hkeys, hw.separate, hlaid⟩
    · refine ⟨hprep.keyed, hkeys, DescriptorPools.step_separate hw.separate hs,
        DescriptorPools.step_everywhere hw.separate (DescriptorPool.stable_laidOut _) hlaid hs ?_⟩
      rintro o' layout key answers' P r Q device he hal hP
      obtain ⟨rfl, rfl, rfl, rfl⟩ := DescriptorPools.Call.allocate.inj he
      exact hP.allocate hkeys (hprep.allocation _ rfl) hal.provides hal.allocated

/-- The descriptor sets of a run have the layouts of their pipelines, and keys
determine layouts, exactly if the variants with one key agree. -/
theorem layouts_agree_iff (calls : List Call) :
    machine.Along LayoutsAgree {} calls ↔ machine.Along VariantsAgree {} calls :=
  Machine.along_iff (M := machine) (fun _ _ _ hw h => layoutsAgree_iff hw h)
    (fun _ _ _ hw hc h => hw.step hc h) agrees_init

/-- The set that a draw with the immutable sampler 7 leaves in the cache is what a
later draw with the sampler 8 gets: both variants have the key -1. -/
theorem variants_share_sets : ¬ ∀ calls, machine.Along LayoutsAgree {} calls := by
  intro h
  have hrun := h [.getPipeline false ⟨0, [⟨0, .kSampledImage, .kFragment⟩], []⟩ false true,
    .pools .getDescriptorPool, .draw 0 0 (some ⟨1, 7⟩) .created { first := .success 5 },
    .pools (.destroy 0), .pools .getDescriptorPool,
    .draw 1 0 (some ⟨2, 8⟩) .created { first := .success 6 }]
  have hlast := ((((hrun.tail rfl).tail rfl).tail rfl).tail rfl).tail rfl
  have hlayout := (hlast.head rfl).2 _ _ _ _ 5 _ _ rfl rfl rfl
  exact absurd hlayout (by decide)

end PipelineContext
end Ogre.Hal
