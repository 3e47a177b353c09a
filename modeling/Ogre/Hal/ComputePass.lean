import Ogre.Hal.RenderPass

/-! Compute passes: pipelines, bindings and dispatches. -/
namespace Ogre.Hal
open Ogre.Core Ogre.Fml

/-- `maxWorkgroupSize` is the limit of the device in each dimension. -/
structure ComputePass where
  commandBuffer : Nat
  maxWorkgroupSize : Int × Int
  workspace : Workspace := {}
  pipelineLayout : Option Nat := none
  descriptorSet : Option Nat := none
  pipelineValid : Bool := false

namespace ComputePass

/-- Pipeline layouts and descriptor sets have the key of their pipeline. -/
def setPipeline (p : ComputePass) (s : Recorder) (pipeline : Nat) (descriptorSet : Bool) : ComputePass × Recorder :=
  let s := s.record p.commandBuffer (.bindPipeline pipeline)
  let p := { p with pipelineLayout := some pipeline }
  if !descriptorSet then (p, s) else ({ p with descriptorSet := some pipeline, pipelineValid := true }, s)

def bindBuffer (p : ComputePass) (s : Recorder) (binding : Nat) (type : DescriptorType) (view : BufferView) :
    Option (Bool × ComputePass × Recorder) :=
  if kMaxBindings ≤ p.workspace.buffers.length then some (false, p, s)
  else if view.getBuffer.isNone then none
  else
    let workspace := p.workspace.addBuffer binding (toVKDescriptorType type) (bufferInfo view)
    some (true, { p with workspace }, s.trackView p.commandBuffer view)

/-- The texture is dereferenced without a check; one that is given has a source. -/
def bindTexture (p : ComputePass) (s : Recorder) (binding : Nat) (type : DescriptorType) (texture : Option Nat)
    (sampler : Bool) : Option (Bool × ComputePass × Recorder) :=
  if kMaxBindings ≤ p.workspace.images.length then some (false, p, s)
  else match texture, sampler with
    | none, _ => none
    | some _, false => some (false, p, s)
    | some texture, true =>
      some (true, { p with
          workspace := p.workspace.addImage binding (toVKDescriptorType type) texture .eShaderReadOnlyOptimal },
        s.trackTexture p.commandBuffer texture)

/-- `while (size > limit) size = max(1, size / 2)`, which ends for every limit from 1 on. -/
def clampSize (limit : Int) (size : Int) : Int :=
  if h : 1 ≤ limit ∧ limit < size then clampSize limit (max 1 (size / 2)) else size
termination_by size.toNat
decreasing_by omega

def compute (p : ComputePass) (s : Recorder) (gridSize : Geometry.ISize) : Status × ComputePass × Recorder :=
  let fresh := { p with workspace := {}, pipelineValid := false }
  if gridSize.width ≤ 0 ∨ gridSize.height ≤ 0 ∨ p.pipelineValid = false then
    (⟨.kCancelled, "Invalid pipeline or empty grid."⟩, fresh, s)
  else
    let s := s.record p.commandBuffer
      (.bindDescriptorSets p.pipelineLayout p.descriptorSet p.workspace.writeDescriptorSets)
    let dispatch := if gridSize.height = 1 then Command.dispatch gridSize.width 1 1
      else .dispatch (clampSize p.maxWorkgroupSize.1 gridSize.width)
        (clampSize p.maxWorkgroupSize.2 gridSize.height) 1
    ({}, fresh, s.record p.commandBuffer dispatch)

end ComputePass
end Ogre.Hal
