import Ogre.Hal.DescriptorReuse
import Ogre.Hal.PipelineLibrary

/-! Which pipelines share a key, and with it the descriptor sets of the caches. -/
namespace Ogre.Hal
open Ogre.Fml Ogre.Library

def Pipeline.vkImmutableSampler (p : Pipeline) : Nat := p.immutableSampler.elim 0 Sampler.vkSampler

def PipelineDescriptor.hasSampledImage (d : PipelineDescriptor) : Bool :=
  d.descriptorSetLayouts.any fun layout => layout.descriptorType = .kSampledImage

/-- Two render pipelines with one descriptor have one layout if the immutable
sampler is not used or is the same. -/
theorem makeDescriptorSetLayout_eq_iff (d : PipelineDescriptor) (x y : Option Sampler) :
    makeDescriptorSetLayout d x = makeDescriptorSetLayout d y ↔
      (d.hasSampledImage = false ∨ x.elim 0 Sampler.vkSampler = y.elim 0 Sampler.vkSampler) := by
  simp only [makeDescriptorSetLayout, List.map_inj_left, PipelineDescriptor.hasSampledImage,
    List.any_eq_false, decide_eq_true_eq]
  constructor
  · intro h
    by_cases hs : ∃ l ∈ d.descriptorSetLayouts, l.descriptorType = .kSampledImage
    · obtain ⟨l, hl, ht⟩ := hs
      have := congrArg VkBinding.immutableSampler (h l hl)
      simp only [ht, and_true] at this
      split at this <;> split at this <;> omega
    · exact .inl fun l hl ht => hs ⟨l, hl, ht⟩
  · rintro (h | h) l hl
    · simp [h l hl]
    · rw [h]

namespace PipelineLibrary
variable {l l' : PipelineLibrary}

/-- The pipelines that were created, less the variants they have by now. -/
def made (l : PipelineLibrary) : List Pipeline := l.pipelines.map fun p => { p with variants := [] }

/-- The keys of pipelines and tasks come from the counter, and pipelines whose
keys agree up to the sign are variants of one pipeline. -/
structure Keyed (l : PipelineLibrary) : Prop where
  counter : 0 < l.pipelineKey
  pipelines : ∀ q ∈ l.made, q.pipelineKey ≠ 0 ∧ -l.pipelineKey < q.pipelineKey ∧ q.pipelineKey < l.pipelineKey
  tasks : ∀ t ∈ l.tasks, 0 < t.nextKey ∧ t.nextKey < l.pipelineKey
  tasksApart : l.tasks.Pairwise fun t t' => t.nextKey ≠ t'.nextKey
  tasksNew : ∀ t ∈ l.tasks, ∀ q ∈ l.made, q.pipelineKey ≠ t.nextKey ∧ q.pipelineKey ≠ -t.nextKey
  same : ∀ q ∈ l.made, ∀ q' ∈ l.made, q.pipelineKey = q'.pipelineKey ∨ q.pipelineKey = -q'.pipelineKey →
    q.desc = q'.desc ∧ q.compute = q'.compute

/-- No two pipelines with different layouts have one key. -/
def KeysSeparate (l : PipelineLibrary) : Prop :=
  ∀ q ∈ l.pipelines, ∀ q' ∈ l.pipelines, q.pipelineKey = q'.pipelineKey →
    q.descriptorSetLayout = q'.descriptorSetLayout

theorem keysSeparate_iff : l.KeysSeparate ↔ ∀ q ∈ l.made, ∀ q' ∈ l.made,
    q.pipelineKey = q'.pipelineKey → q.descriptorSetLayout = q'.descriptorSetLayout := by
  simp [KeysSeparate, made, Pipeline.descriptorSetLayout]

/-- The pipelines are as before, but for one with a key that no other has. -/
structure AddsFresh (l l' : PipelineLibrary) : Prop where
  made : l'.made = l.made ∨ ∃ q, l'.made = l.made ++ [q] ∧ ∀ q' ∈ l.made, q'.pipelineKey ≠ q.pipelineKey

theorem keyed_init : Keyed {} where
  counter := by decide
  pipelines := by simp [made]
  tasks := by simp
  tasksApart := .nil
  tasksNew := by simp
  same := by simp [made]

theorem Keyed.of_made_eq (h : l.Keyed) (hm : l'.made = l.made) (hk : l'.pipelineKey = l.pipelineKey)
    (ht : l'.tasks.Sublist l.tasks) : l'.Keyed where
  counter := hk ▸ h.counter
  pipelines := by rw [hm, hk]; exact h.pipelines
  tasks t hmem := by rw [hk]; exact h.tasks t (ht.subset hmem)
  tasksApart := h.tasksApart.sublist ht
  tasksNew t hmem := by rw [hm]; exact h.tasksNew t (ht.subset hmem)
  same := by rw [hm]; exact h.same

/-- A pipeline with a key that neither a pipeline nor a task has. -/
theorem Keyed.add (h : l.Keyed) {q : Pipeline} (hm : l'.made = l.made ++ [q])
    (hk : l'.pipelineKey = l.pipelineKey) (ht : l'.tasks.Sublist l.tasks) (h0 : 0 < q.pipelineKey)
    (hlt : q.pipelineKey < l.pipelineKey)
    (hnew : ∀ q' ∈ l.made, q'.pipelineKey ≠ q.pipelineKey ∧ q'.pipelineKey ≠ -q.pipelineKey)
    (htask : ∀ t ∈ l'.tasks, t.nextKey ≠ q.pipelineKey) : l'.Keyed ∧ AddsFresh l l' := by
  refine ⟨⟨hk ▸ h.counter, ?_, ?_, h.tasksApart.sublist ht, ?_, ?_⟩, ⟨.inr ⟨q, hm, fun q' hq' => (hnew q' hq').1⟩⟩⟩
  · rw [hm, hk]
    intro x hx
    simp only [List.mem_append, List.mem_singleton] at hx
    rcases hx with hx | rfl
    · exact h.pipelines x hx
    · omega
  · intro t hmem
    rw [hk]
    exact h.tasks t (ht.subset hmem)
  · intro t hmem x hx
    simp only [hm, List.mem_append, List.mem_singleton] at hx
    rcases hx with hx | rfl
    · exact h.tasksNew t (ht.subset hmem) x hx
    · have := (h.tasks t (ht.subset hmem)).1
      have := htask t hmem
      omega
  · rw [hm]
    intro x hx y hy hxy
    simp only [List.mem_append, List.mem_singleton] at hx hy
    rcases hx with hx | rfl <;> rcases hy with hy | rfl
    · exact h.same x hx y hy hxy
    · have := hnew x hx
      omega
    · have := hnew y hy
      omega
    · exact ⟨rfl, rfl⟩

@[simp] theorem made_addPipeline (l : PipelineLibrary) (p : Pipeline) :
    (l.addPipeline p).made = l.made ++ [{ p with variants := [] }] := by simp [made, addPipeline]

/-- Remembering a variant changes nothing that was made. -/
theorem made_set {i : Nat} {p : Pipeline} (h : l.pipelines[i]? = some p) (variants : List (Nat × Option Nat)) :
    made { l with pipelines := l.pipelines.set i { p with variants } } = l.made := by
  obtain ⟨hi, hp⟩ := List.getElem?_eq_some_iff.mp h
  simp only [made, List.map_set]
  refine List.ext_getElem (by simp) fun j hj _ => ?_
  rw [List.getElem_set]
  split
  case isTrue hij =>
    subst hij
    simp [hp]
  case isFalse => rfl

theorem generate_spec (h : l.Keyed) (task : GenerationTask) (h0 : 0 < task.nextKey)
    (hlt : task.nextKey < l.pipelineKey)
    (hnew : ∀ q ∈ l.made, q.pipelineKey ≠ task.nextKey ∧ q.pipelineKey ≠ -task.nextKey)
    (htask : ∀ t ∈ l.tasks, t.nextKey ≠ task.nextKey) (created : Bool) :
    (l.generate task created).Keyed ∧ AddsFresh l (l.generate task created) := by
  unfold generate
  split
  · exact h.add (q := { compute := task.compute, desc := task.descriptor, pipelineKey := task.nextKey })
      (made_addPipeline l _) rfl (.refl _) h0 hlt hnew htask
  · exact ⟨h.of_made_eq rfl rfl (.refl _), ⟨.inl rfl⟩⟩

/-- The next key is that of no pipeline and of no task. -/
private theorem reserve_spec (h : l.Keyed) (compute : Bool) (descriptor : PipelineDescriptor) :
    (l.reserve compute descriptor).2.Keyed ∧
      (∀ q ∈ l.made, q.pipelineKey ≠ l.pipelineKey ∧ q.pipelineKey ≠ -l.pipelineKey) ∧
      ∀ t ∈ l.tasks, t.nextKey ≠ l.pipelineKey := by
  refine ⟨⟨Int.lt_add_one_of_le (Int.le_of_lt h.counter), fun q hq => ?_, fun t ht => ?_, h.tasksApart,
    h.tasksNew, h.same⟩, fun q hq => ?_, fun t ht => ?_⟩
  · have := h.pipelines q hq
    simp only [reserve]
    omega
  · have := h.tasks t ht
    simp only [reserve]
    omega
  · have := h.pipelines q hq
    omega
  · have := h.tasks t ht
    omega

theorem getPipeline_spec (h : l.Keyed) (compute : Bool) (descriptor : PipelineDescriptor)
    (async created : Bool) : (l.getPipeline compute descriptor async created).2.Keyed ∧
      AddsFresh l (l.getPipeline compute descriptor async created).2 := by
  obtain ⟨hr, hnew, htask⟩ := reserve_spec h compute descriptor
  unfold getPipeline
  split
  · exact ⟨h, ⟨.inl rfl⟩⟩
  split
  case isFalse => exact ⟨h.of_made_eq rfl rfl (.refl _), ⟨.inl rfl⟩⟩
  case isTrue =>
    cases async with
    | true =>
      refine ⟨⟨hr.counter, hr.pipelines, fun t ht => ?_, ?_, fun t ht => ?_, hr.same⟩, ⟨.inl rfl⟩⟩
      · rcases List.mem_append.mp ht with ht | ht
        · exact hr.tasks t ht
        · obtain rfl := List.mem_singleton.mp ht
          exact ⟨h.counter, Int.lt_succ _⟩
      · refine List.pairwise_append.mpr ⟨h.tasksApart, List.pairwise_singleton _ _, fun t ht t' ht' => ?_⟩
        obtain rfl := List.mem_singleton.mp ht'
        exact htask t ht
      · rcases List.mem_append.mp ht with ht | ht
        · exact hr.tasksNew t ht
        · obtain rfl := List.mem_singleton.mp ht
          exact hnew
    | false =>
      obtain ⟨hk, hf⟩ := generate_spec hr (l.reserve compute descriptor).1 h.counter
        (Int.lt_succ _) hnew htask created
      exact ⟨hk, ⟨hf.made⟩⟩

theorem runTask_spec (h : l.Keyed) {i : Nat} {created : Bool} (hr : l.runTask i created = some l') :
    l'.Keyed ∧ AddsFresh l l' := by
  obtain ⟨task, ht, rfl⟩ := Option.map_eq_some_iff.mp hr
  have hmem : task ∈ l.tasks := List.mem_of_getElem? ht
  have hother (t : GenerationTask) (ho : t ∈ l.tasks.eraseIdx i) : t.nextKey ≠ task.nextKey := by
    obtain ⟨j, hji, hj⟩ := List.mem_eraseIdx_iff_getElem?.mp ho
    obtain ⟨hjl, rfl⟩ := List.getElem?_eq_some_iff.mp hj
    obtain ⟨hil, rfl⟩ := List.getElem?_eq_some_iff.mp ht
    have hpair := List.pairwise_iff_getElem.mp h.tasksApart
    rcases Nat.lt_or_gt_of_ne hji with hlt | hlt
    · exact hpair j i hjl hil hlt
    · exact (hpair i j hil hjl hlt).symm
  have hk : Keyed { l with tasks := l.tasks.eraseIdx i } := h.of_made_eq rfl rfl (List.eraseIdx_sublist _ _)
  obtain ⟨hk, hf⟩ := generate_spec hk task (h.tasks _ hmem).1 (h.tasks _ hmem).2 (h.tasksNew _ hmem) hother created
  exact ⟨hk, ⟨hf.made⟩⟩

theorem mem_made {i : Nat} {p : Pipeline} (h : l.pipelines[i]? = some p) :
    { p with variants := [] } ∈ l.made :=
  List.mem_map_of_mem (List.mem_of_getElem? h)

/-- A variant has the descriptor of its pipeline, and its key but for the sign. -/
private theorem Keyed.addVariant (h : l.Keyed) {p : Pipeline} (hp : { p with variants := [] } ∈ l.made)
    (hc : p.compute = false) {s : Sampler} (hm : l'.made = l.made ++ [variantOf p s])
    (hk : l'.pipelineKey = l.pipelineKey) (ht : l'.tasks = l.tasks) : l'.Keyed where
  counter := hk ▸ h.counter
  pipelines := by
    rw [hm, hk]
    intro q hq
    simp only [List.mem_append, List.mem_singleton] at hq
    rcases hq with hq | rfl
    · exact h.pipelines q hq
    · have := h.pipelines _ hp
      simp only [variantOf] at this ⊢
      omega
  tasks := by rw [hk, ht]; exact h.tasks
  tasksApart := ht ▸ h.tasksApart
  tasksNew := by
    rw [hm, ht]
    intro t hmem q hq
    simp only [List.mem_append, List.mem_singleton] at hq
    rcases hq with hq | rfl
    · exact h.tasksNew t hmem q hq
    · have := h.tasksNew t hmem _ hp
      simp only [variantOf] at this ⊢
      omega
  same := by
    rw [hm]
    have hv (q : Pipeline) (hq : q ∈ l.made) (he : q.pipelineKey = (variantOf p s).pipelineKey ∨
        q.pipelineKey = -(variantOf p s).pipelineKey) :
        q.desc = (variantOf p s).desc ∧ q.compute = (variantOf p s).compute := by
      have := h.same q hq _ hp (by simp only [variantOf] at he ⊢; omega)
      exact ⟨this.1, this.2.trans hc⟩
    intro q hq q' hq' he
    simp only [List.mem_append, List.mem_singleton] at hq hq'
    rcases hq with hq | rfl <;> rcases hq' with hq' | rfl
    · exact h.same q hq q' hq' he
    · exact hv q hq he
    · have := hv q' hq' (by omega)
      exact ⟨this.1.symm, this.2.symm⟩
    · exact ⟨rfl, rfl⟩

/-- A variant is found, is not created, or is new and has the negated key. -/
theorem createVariant_cases (h : l.Keyed) {i : Nat} {p : Pipeline} (hp : l.pipelines[i]? = some p)
    (hc : p.compute = false) (sampler : Option Sampler) (creation : Creation) :
    (l.createVariantForImmutableSamplers i p sampler creation).2.Keyed ∧
    ((l.createVariantForImmutableSamplers i p sampler creation).2.made = l.made ∧
        (∀ s, sampler = some s → creation = .created → (p.variants.find? fun x => x.1 = s.key) ≠ none) ∨
      ∃ s, sampler = some s ∧ creation = .created ∧ (p.variants.find? fun x => x.1 = s.key) = none ∧
        (l.createVariantForImmutableSamplers i p sampler creation).2.made = l.made ++ [variantOf p s]) := by
  cases sampler with
  | none => exact ⟨h, .inl ⟨rfl, by simp⟩⟩
  | some s =>
    cases hf : p.variants.find? fun x => x.1 = s.key with
    | some found =>
      have he : l.createVariantForImmutableSamplers i p (some s) creation = (found.2, l) := by
        simp only [createVariantForImmutableSamplers, hf]
      rw [he]
      exact ⟨h, .inl ⟨rfl, fun s' hs' _ => by rw [← Option.some.inj hs', hf]; simp⟩⟩
    | none =>
      have hset (v : Option Nat) := made_set hp (p.variants ++ [(s.key, v)])
      obtain ⟨v, hv⟩ : ∃ v, l.createVariantForImmutableSamplers i p (some s) creation = v := ⟨_, rfl⟩
      rw [hv]
      simp only [createVariantForImmutableSamplers, hf] at hv
      cases creation with
      | deviceExpired =>
        subst hv
        exact ⟨h, .inl ⟨rfl, by simp⟩⟩
      | failed =>
        subst hv
        exact ⟨h.of_made_eq (hset none) rfl (.refl _), .inl ⟨hset none, by simp⟩⟩
      | created =>
        have hmade := (made_addPipeline _ (variantOf p s)).trans
          (congrArg (· ++ [variantOf p s]) (hset (some l.pipelines.length)))
        subst hv
        exact ⟨h.addVariant (mem_made hp) hc hmade rfl rfl, .inr ⟨s, rfl, rfl, hf, hmade⟩⟩

/-- Whether keys stay separate when one pipeline is new. -/
theorem keysSeparate_append (h : l.KeysSeparate) {q : Pipeline} (hm : l'.made = l.made ++ [q]) :
    l'.KeysSeparate ↔ ∀ q' ∈ l.made, q'.pipelineKey = q.pipelineKey →
      q'.descriptorSetLayout = q.descriptorSetLayout := by
  rw [keysSeparate_iff, hm]
  rw [keysSeparate_iff] at h
  constructor
  · intro hs q' hq' he
    exact hs q' (List.mem_append_left _ hq') q (by simp) he
  · intro hs x hx y hy he
    simp only [List.mem_append, List.mem_singleton] at hx hy
    rcases hx with hx | rfl <;> rcases hy with hy | rfl
    · exact h x hx y hy he
    · exact hs x hx he
    · exact (hs y hy he.symm).symm
    · rfl

theorem keysSeparate_of_fresh (h : l.KeysSeparate) (hf : AddsFresh l l') : l'.KeysSeparate := by
  rcases hf.made with hm | ⟨q, hm, hne⟩
  · rw [keysSeparate_iff, hm]
    exact keysSeparate_iff.mp h
  · exact (keysSeparate_append h hm).mpr fun q' hq' he => (hne q' hq' he).elim

/-- A variant shares a layout with the pipelines that have its key if it has no
sampled image or the immutable sampler is theirs. -/
theorem keysSeparate_variant_iff (h : l.KeysSeparate) (hk : l.Keyed) {p : Pipeline} {s : Sampler}
    (hp : { p with variants := [] } ∈ l.made) (hc : p.compute = false)
    (hm : l'.made = l.made ++ [variantOf p s]) :
    l'.KeysSeparate ↔ (p.desc.hasSampledImage = false ∨
      ∀ q ∈ l.pipelines, q.pipelineKey = -1 * p.pipelineKey → q.vkImmutableSampler = s.vkSampler) := by
  rw [keysSeparate_append h hm]
  have hlayout (q : Pipeline) (hq : q ∈ l.made) (he : q.pipelineKey = -1 * p.pipelineKey) :
      q.descriptorSetLayout = (variantOf p s).descriptorSetLayout ↔
        (p.desc.hasSampledImage = false ∨ q.vkImmutableSampler = s.vkSampler) := by
    obtain ⟨hd, hqc⟩ := hk.same q hq _ hp (.inr (by simp only; omega))
    simp only [Pipeline.descriptorSetLayout, hqc, hc, hd, variantOf, Bool.false_eq_true, if_false,
      makeDescriptorSetLayout_eq_iff]
    rfl
  have hpipelines : (∀ q ∈ l.pipelines, q.pipelineKey = -1 * p.pipelineKey → q.vkImmutableSampler = s.vkSampler) ↔
      ∀ q ∈ l.made, q.pipelineKey = -1 * p.pipelineKey → q.vkImmutableSampler = s.vkSampler := by
    simp [made, Pipeline.vkImmutableSampler]
  rw [hpipelines]
  constructor
  · intro hs
    by_cases himage : p.desc.hasSampledImage = false
    · exact .inl himage
    · exact .inr fun q hq he => ((hlayout q hq he).mp (hs q hq he)).resolve_left himage
  · rintro (himage | hs) q hq he
    · exact (hlayout q hq he).mpr (.inl himage)
    · exact (hlayout q hq he).mpr (.inr (hs q hq he))

end PipelineLibrary
end Ogre.Hal
