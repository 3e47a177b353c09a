import Mathlib.Logic.Function.Basic
import Ogre.Core.BufferView
import Ogre.Hal.PipelineLibrary
import Ogre.Hal.RenderPassBuilder

/-! What is recorded into command buffers, and what they keep alive: texture sources
with their tracked layouts and cached frame data, tracked objects and commands. -/
namespace Ogre.Hal
open Ogre.Core

structure VkRenderPass where
  handle : Nat
  info : RenderPassInfo
  deriving DecidableEq, Repr

/-- `views` are the texture sources of its image views. -/
structure VkFramebuffer where
  handle : Nat
  views : List Nat
  size : Geometry.ISize
  deriving DecidableEq, Repr

structure FramebufferAndRenderPass where
  framebuffer : Option VkFramebuffer := none
  renderPass : Option VkRenderPass := none
  deriving DecidableEq, Repr

/-- What a texture source is from the beginning. -/
structure TextureInfo where
  desc : TextureDescriptor := {}
  isSwapchainImage : Bool := false
  hasYUVConversion : Bool := false
  deriving DecidableEq, Repr

/-- The array of frame data is indexed by the sample count. -/
structure TextureSource extends TextureInfo where
  layout : ImageLayout := .eUndefined
  frameData : SampleCount → FramebufferAndRenderPass := fun _ => {}

/-- The mip levels that the render target view covers, of all array layers. Only the
sources that are allocated have a view of their own for that. -/
def TextureInfo.renderTargetLevels (t : TextureInfo) : Nat :=
  if t.isSwapchainImage then t.desc.mipCount else 1

inductive SharedObject
  | renderPass (handle : Nat)
  | framebuffer (handle : Nat)
  deriving DecidableEq, Repr

structure TrackedObjects where
  objects : List SharedObject := []
  buffers : List DeviceBuffer := []
  textures : List Nat := []
  deriving DecidableEq, Repr

/-- `Track` drops an object that equals the last one. -/
def track {α : Type*} [DecidableEq α] (list : List α) (object : α) : List α :=
  if list.getLast? = some object then list else list ++ [object]

namespace TrackedObjects

def trackObject (t : TrackedObjects) (object : SharedObject) : TrackedObjects :=
  { t with objects := track t.objects object }

def trackBuffer (t : TrackedObjects) (buffer : DeviceBuffer) : TrackedObjects :=
  { t with buffers := track t.buffers buffer }

def trackTexture (t : TrackedObjects) (texture : Nat) : TrackedObjects :=
  { t with textures := track t.textures texture }

end TrackedObjects

inductive ClearValue
  | color (clear : Nat)
  | depthStencil (depth stencil : Nat)
  deriving DecidableEq, Repr

inductive DescriptorInfo
  | image (texture : Nat) (layout : ImageLayout)
  | buffer (view : BufferView)
  deriving DecidableEq, Repr

/-- A write, with what its info pointer points to. -/
structure WriteDescriptorSet where
  binding : Nat
  descriptorType : VkDescriptorType
  info : Option DescriptorInfo
  deriving DecidableEq, Repr

/-- A barrier on the mip levels from `baseMipLevel` on, and on the array layers from 0 on. -/
structure ImageBarrier where
  texture : Nat
  oldLayout : ImageLayout
  newLayout : ImageLayout
  baseMipLevel : Nat
  levelCount : Nat
  layerCount : Nat
  deriving DecidableEq, Repr

/-- Buffers that are passed as views stand in the commands as those views. A layout and a
descriptor set have the key of their pipeline, none where the handle is null, and stand with
the writes that the set is updated with. Regions and origins are those that are asked for,
before `vk::Offset3D` and `vk::Extent3D` narrow them. -/
inductive Command
  | beginRenderPass (renderPass : VkRenderPass) (framebuffer : VkFramebuffer) (clears : List ClearValue)
  | endRenderPass
  | setViewport
  | setScissor
  | setStencilReference (value : Nat)
  | bindVertexBuffers (views : List BufferView)
  | bindIndexBuffer (view : BufferView) (indexType : IndexType)
  | bindPipeline (pipeline : Nat)
  | bindDescriptorSets (layout descriptorSet : Option Nat) (writes : List WriteDescriptorSet)
  | inputAttachmentBarrier (texture : Nat)
  | draw (vertexCount instanceCount firstVertex : Nat)
  | drawIndexed (indexCount instanceCount vertexOffset : Nat)
  | dispatch (x y z : Int)
  | memoryBarrier
  | imageBarrier (barrier : ImageBarrier)
  | copyImage (source destination : Nat) (region : Geometry.IRect) (origin : Geometry.IPoint)
  | copyImageToBuffer (source : Nat) (destination : DeviceBuffer) (region : Geometry.IRect) (offset : Nat)
  | copyBufferToImage (source : BufferView) (destination : Nat) (region : Geometry.IRect) (mipLevel slice : Nat)
  | blitImage (source destination : Nat) (sourceLevel destinationLevel : Nat)
      (sourceExtent destinationExtent : Geometry.ISize)
  deriving DecidableEq, Repr

/-- A command, the buffer that it is recorded into, and what that tracks at the time. -/
structure Recorded where
  commandBuffer : Nat
  command : Command
  tracked : TrackedObjects
  deriving DecidableEq, Repr

/-- All textures and command buffers, which have numbers. `handles` counts the objects
that the device has made. -/
structure Recorder where
  sources : Nat → TextureSource := fun _ => {}
  handles : Nat := 0
  tracked : Nat → TrackedObjects := fun _ => {}
  recorded : List Recorded := []

namespace Recorder

def desc (s : Recorder) (texture : Nat) : TextureDescriptor := (s.sources texture).desc

def record (s : Recorder) (cmd : Nat) (command : Command) : Recorder :=
  { s with recorded := s.recorded ++ [⟨cmd, command, s.tracked cmd⟩] }

def setTracked (s : Recorder) (cmd : Nat) (tracked : TrackedObjects) : Recorder :=
  { s with tracked := Function.update s.tracked cmd tracked }

def trackObject (s : Recorder) (cmd : Nat) (object : SharedObject) : Recorder :=
  s.setTracked cmd ((s.tracked cmd).trackObject object)

def trackBuffer (s : Recorder) (cmd : Nat) (buffer : DeviceBuffer) : Recorder :=
  s.setTracked cmd ((s.tracked cmd).trackBuffer buffer)

/-- A view is asked for the buffer that it owns. -/
def trackView (s : Recorder) (cmd : Nat) (view : BufferView) : Recorder :=
  match view.takeBuffer.1 with
  | some buffer => s.trackBuffer cmd buffer
  | none => s

def trackTexture (s : Recorder) (cmd : Nat) (texture : Nat) : Recorder :=
  s.setTracked cmd ((s.tracked cmd).trackTexture texture)

def setSource (s : Recorder) (texture : Nat) (source : TextureSource) : Recorder :=
  { s with sources := Function.update s.sources texture source }

def setLayoutWithoutEncoding (s : Recorder) (texture : Nat) (layout : ImageLayout) : Recorder :=
  s.setSource texture { s.sources texture with layout }

/-- `SetLayout`, which does not fail. -/
def setLayout (s : Recorder) (cmd texture : Nat) (newLayout : ImageLayout) (baseMipLevel : Nat) : Recorder :=
  let source := s.sources texture
  (s.setLayoutWithoutEncoding texture newLayout).record cmd (.imageBarrier {
    texture
    oldLayout := source.layout
    newLayout
    baseMipLevel
    levelCount := source.desc.mipCount - baseMipLevel
    layerCount := toArrayLayerCount source.desc.type })

def setCachedFrameData (s : Recorder) (texture : Nat) (data : FramebufferAndRenderPass)
    (sampleCount : SampleCount) : Recorder :=
  let source := s.sources texture
  s.setSource texture { source with frameData := Function.update source.frameData sampleCount data }

end Recorder
end Ogre.Hal
