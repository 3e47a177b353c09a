import Mathlib.Data.List.Basic
import Ogre.Hal.DescriptorPool

/-! The pipeline library: pipelines and their variants for immutable samplers,
the keys that they are given, and the descriptor sets that are allocated for them. -/
namespace Ogre.Hal
open Ogre.Fml Ogre.Library

inductive DescriptorType
  | kSampler
  | kSampledImage
  | kImage
  | kUniformBuffer
  | kStorageBuffer
  | kInputAttachment
  deriving DecidableEq, Repr

inductive ShaderStage
  | kUnknown
  | kVertex
  | kFragment
  | kCompute
  deriving DecidableEq, Repr

structure DescriptorSetLayout where
  binding : Nat
  descriptorType : DescriptorType
  shaderStage : ShaderStage
  deriving DecidableEq, Repr

inductive VkDescriptorType
  | eSampler
  | eCombinedImageSampler
  | eSampledImage
  | eUniformBuffer
  | eStorageBuffer
  | eInputAttachment
  deriving DecidableEq, Repr

inductive VkShaderStage
  | eAll
  | eVertex
  | eFragment
  | eCompute
  deriving DecidableEq, Repr

def toVKDescriptorType : DescriptorType → VkDescriptorType
  | .kSampler => .eSampler
  | .kSampledImage => .eCombinedImageSampler
  | .kImage => .eSampledImage
  | .kUniformBuffer => .eUniformBuffer
  | .kStorageBuffer => .eStorageBuffer
  | .kInputAttachment => .eInputAttachment

def toVkShaderStage : ShaderStage → VkShaderStage
  | .kUnknown => .eAll
  | .kVertex => .eVertex
  | .kFragment => .eFragment
  | .kCompute => .eCompute

/-- A `vk::DescriptorSetLayoutBinding`; `immutableSampler` is null, 0, for most. -/
structure VkBinding where
  binding : Nat
  descriptorCount : Nat
  descriptorType : VkDescriptorType
  stageFlags : VkShaderStage
  immutableSampler : Nat
  deriving DecidableEq, Repr

/-- What a `vk::DescriptorSetLayout` is made of. -/
abbrev VkDescriptorSetLayout := List VkBinding

/-- `key` is what `ImmutableSamplerKey` compares, `vkSampler` the handle, which is
null, 0, where the device did not create one. -/
structure Sampler where
  key : Nat
  vkSampler : Nat
  deriving DecidableEq, Repr

/-- A descriptor: what `IsEqual` compares as one value, the descriptor set
layouts, which it does not compare, and the entry points by number. -/
structure PipelineDescriptor where
  identity : Nat
  descriptorSetLayouts : List DescriptorSetLayout
  entrypoints : List Nat := []
  deriving DecidableEq, Repr

def PipelineDescriptor.isEqual (d e : PipelineDescriptor) : Bool := d.identity = e.identity

def toVKDescriptorSetLayoutBinding (layout : DescriptorSetLayout) : VkBinding where
  binding := layout.binding
  descriptorCount := 1
  descriptorType := toVKDescriptorType layout.descriptorType
  stageFlags := toVkShaderStage layout.shaderStage
  immutableSampler := 0

/-- The sampler becomes that of every sampled image. -/
def makeDescriptorSetLayout (desc : PipelineDescriptor) (immutableSampler : Option Sampler) :
    VkDescriptorSetLayout :=
  let vkImmutableSampler := immutableSampler.elim 0 Sampler.vkSampler
  desc.descriptorSetLayouts.map fun layout =>
    { toVKDescriptorSetLayoutBinding layout with
      immutableSampler :=
        if vkImmutableSampler ≠ 0 ∧ layout.descriptorType = .kSampledImage then vkImmutableSampler else 0 }

/-- A pipeline that exists; `variants` holds null for a variant that was not created. -/
structure Pipeline where
  compute : Bool
  desc : PipelineDescriptor
  pipelineKey : Int
  immutableSampler : Option Sampler := none
  variants : List (Nat × Option Nat) := []

def Pipeline.descriptorSetLayout (p : Pipeline) : VkDescriptorSetLayout :=
  if p.compute then p.desc.descriptorSetLayouts.map toVKDescriptorSetLayoutBinding
  else makeDescriptorSetLayout p.desc p.immutableSampler

/-- A generation task, and the future that it realizes. -/
structure GenerationTask where
  compute : Bool
  descriptor : PipelineDescriptor
  nextKey : Int
  future : Nat

/-- Futures and pipelines have numbers; `pipelines` are all that were created. -/
structure PipelineLibrary where
  isValid : Bool := true
  renderPipelines : List (PipelineDescriptor × Nat) := []
  computePipelines : List (PipelineDescriptor × Nat) := []
  futures : List (Option (Option Nat)) := []
  pipelineKey : Int := 1
  tasks : List GenerationTask := []
  pipelines : List Pipeline := []

/-- How the creation of a variant goes. -/
inductive Creation
  | deviceExpired
  | failed
  | created
  deriving DecidableEq, Repr

namespace PipelineLibrary

def cache (l : PipelineLibrary) (compute : Bool) : List (PipelineDescriptor × Nat) :=
  if compute then l.computePipelines else l.renderPipelines

def addPipeline (l : PipelineLibrary) (p : Pipeline) : PipelineLibrary :=
  { l with pipelines := l.pipelines ++ [p] }

/-- The body of a generation task: the promise is set to the pipeline, or to null. -/
def generate (l : PipelineLibrary) (task : GenerationTask) (created : Bool) : PipelineLibrary :=
  if created then
    { l.addPipeline { compute := task.compute, desc := task.descriptor, pipelineKey := task.nextKey } with
      futures := l.futures.set task.future (some (some l.pipelines.length)) }
  else { l with futures := l.futures.set task.future (some none) }

/-- A future goes into the cache, and the task that is to realize it takes the next key. -/
def reserve (l : PipelineLibrary) (compute : Bool) (descriptor : PipelineDescriptor) :
    GenerationTask × PipelineLibrary :=
  let future := l.futures.length
  ({ compute, descriptor, nextKey := l.pipelineKey, future }, { l with
    futures := l.futures ++ [none]
    renderPipelines := if compute then l.renderPipelines else l.renderPipelines ++ [(descriptor, future)]
    computePipelines := if compute then l.computePipelines ++ [(descriptor, future)] else l.computePipelines
    pipelineKey := l.pipelineKey + 1 })

/-- Both overloads of `GetPipeline`; a task that is not posted runs at once. -/
def getPipeline (l : PipelineLibrary) (compute : Bool) (descriptor : PipelineDescriptor) (async : Bool)
    (created : Bool) : Nat × PipelineLibrary :=
  match (l.cache compute).find? fun x => x.1.isEqual descriptor with
  | some found => (found.2, l)
  | none =>
    if l.isValid then
      let (task, l) := l.reserve compute descriptor
      (task.future, if async then { l with tasks := l.tasks ++ [task] } else l.generate task created)
    else (l.futures.length, { l with futures := l.futures ++ [some none] })

/-- A worker takes one of the posted tasks. -/
def runTask (l : PipelineLibrary) (i : Nat) (created : Bool) : Option PipelineLibrary :=
  l.tasks[i]?.map fun task => { l with tasks := l.tasks.eraseIdx i }.generate task created

def removePipelinesWithEntryPoint (l : PipelineLibrary) (function : Nat) : PipelineLibrary :=
  { l with renderPipelines := l.renderPipelines.filter fun x => function ∉ x.1.entrypoints }

/-- The variant of a pipeline has the negated key of the pipeline. -/
def variantOf (p : Pipeline) (immutableSampler : Sampler) : Pipeline where
  compute := false
  desc := p.desc
  pipelineKey := -1 * p.pipelineKey
  immutableSampler := some immutableSampler

def createVariantForImmutableSamplers (l : PipelineLibrary) (i : Nat) (p : Pipeline)
    (immutableSampler : Option Sampler) (creation : Creation) : Option Nat × PipelineLibrary :=
  match immutableSampler with
  | none => (none, l)
  | some sampler =>
    match p.variants.find? fun x => x.1 = sampler.key with
    | some found => (found.2, l)
    | none =>
      let remember (variant : Option Nat) : PipelineLibrary :=
        { l with pipelines := l.pipelines.set i { p with variants := p.variants ++ [(sampler.key, variant)] } }
      match creation with
      | .deviceExpired => (none, l)
      | .failed => (none, remember none)
      | .created =>
        (some l.pipelines.length, (remember (some l.pipelines.length)).addPipeline (variantOf p sampler))

end PipelineLibrary

/-- A context: its pipeline library and its descriptor pools. -/
structure PipelineContext where
  library : PipelineLibrary := {}
  pools : DescriptorPools VkDescriptorSetLayout := {}

namespace PipelineContext

/-- `draw` is `RenderPass::Draw`, `dispatch` is `ComputePass::SetPipeline`; `pools`
are the calls on descriptor pools other than `AllocateDescriptorSets`. -/
inductive Call
  | getPipeline (compute : Bool) (descriptor : PipelineDescriptor) (async created : Bool)
  | runTask (i : Nat) (created : Bool)
  | removePipelinesWithEntryPoint (function : Nat)
  | createVariant (p : Nat) (immutableSampler : Option Sampler) (creation : Creation)
  | draw (o p : Nat) (immutableSampler : Option Sampler) (creation : Creation) (answers : Answers)
  | dispatch (o p : Nat) (answers : Answers)
  | pools (call : DescriptorPools.Call VkDescriptorSetLayout)

/-- The pipeline of a number, if it is of the kind. -/
def pipeline (s : PipelineContext) (compute : Bool) (p : Nat) : Option Pipeline :=
  s.library.pipelines[p]?.filter fun q => q.compute = compute

/-- An allocation: the pipeline it is for, the object it is made through, the answers. -/
abbrev Allocation := Pipeline × Nat × Answers

/-- The library that a call leaves, and the allocation that it goes on to make.
A draw with an immutable sampler is one with the variant of its pipeline. -/
def prepare (s : PipelineContext) : Call → Option (PipelineLibrary × Option Allocation)
  | .getPipeline compute descriptor async created =>
    some ((s.library.getPipeline compute descriptor async created).2, none)
  | .runTask i created => (s.library.runTask i created).map fun library => (library, none)
  | .removePipelinesWithEntryPoint function => some (s.library.removePipelinesWithEntryPoint function, none)
  | .createVariant p immutableSampler creation => (s.pipeline false p).map fun q =>
    ((s.library.createVariantForImmutableSamplers p q immutableSampler creation).2, none)
  | .draw o p immutableSampler creation answers => (s.pipeline false p).map fun q =>
    if immutableSampler.isSome then
      let (variant, library) := s.library.createVariantForImmutableSamplers p q immutableSampler creation
      (library, (variant.bind fun v => library.pipelines[v]?).map fun v => (v, o, answers))
    else (s.library, some (q, o, answers))
  | .dispatch o p answers => (s.pipeline true p).map fun q => (s.library, some (q, o, answers))
  | .pools _ => none

/-- The call of `AllocateDescriptorSets` for a pipeline. -/
def allocateCall : Allocation → DescriptorPools.Call VkDescriptorSetLayout
  | (q, o, answers) => .allocate o q.descriptorSetLayout q.pipelineKey answers

/-- The allocation, if there is one, is made after the library has changed. -/
def complete (s : PipelineContext) : PipelineLibrary × Option Allocation → Option PipelineContext
  | (library, none) => some { s with library }
  | (library, some allocation) =>
    (s.pools.step (allocateCall allocation)).map fun pools => { library, pools }

def step (s : PipelineContext) : Call → Option PipelineContext
  | .pools (.allocate ..) => none
  | .pools call => (s.pools.step call).map fun pools => { s with pools }
  | call => (s.prepare call).bind s.complete

def machine : Machine PipelineContext Call where
  init := {}
  step := step

end PipelineContext
end Ogre.Hal
