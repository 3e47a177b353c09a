import Ogre.Hal.RenderTarget

/-! The builder of render passes: what it describes of each attachment, and how the
descriptions are laid out for the device. -/
namespace Ogre.Hal
open Ogre.Core Ogre.Library

structure AttachmentDescription where
  format : VkFormat
  samples : SampleCountFlagBits
  loadOp : AttachmentLoadOp
  storeOp : AttachmentStoreOp
  stencilLoadOp : AttachmentLoadOp
  stencilStoreOp : AttachmentStoreOp
  initialLayout : ImageLayout
  finalLayout : ImageLayout
  deriving DecidableEq, Repr

/-- Without an attachment the reference is unused. -/
structure AttachmentReference where
  attachment : Option Nat
  layout : ImageLayout
  deriving DecidableEq, Repr

def kUnusedAttachmentReference : AttachmentReference := ⟨none, .eUndefined⟩

/-- The subpass reads its color attachments as input attachments too. Its dependencies
are the same for all passes. -/
structure RenderPassInfo where
  attachments : List AttachmentDescription := []
  colorRefs : List AttachmentReference := []
  resolveRefs : List AttachmentReference := []
  depthStencilRef : AttachmentReference := kUnusedAttachmentReference
  deriving DecidableEq, Repr

def computeFinalLayout (isSwapchain : Bool) (count : SampleCount) : ImageLayout :=
  if isSwapchain || count ≠ .kCount1 then .eGeneral else .eShaderReadOnlyOptimal

structure RenderPassBuilder where
  color0 : Option AttachmentDescription := none
  color0Resolve : Option AttachmentDescription := none
  depthStencil : Option AttachmentDescription := none
  colors : OrderedMap AttachmentDescription := {}
  resolves : OrderedMap AttachmentDescription := {}

namespace RenderPassBuilder

/-- What `SetColorAttachment` describes of the attachment itself. -/
def colorDescription (format : PixelFormat) (sampleCount : SampleCount) (loadAction : LoadAction)
    (storeAction : StoreAction) (currentLayout : ImageLayout) (isSwapchain : Bool) : AttachmentDescription where
  format := toVKImageFormat format
  samples := toVKSampleCount sampleCount
  loadOp := toVKAttachmentLoadOp loadAction
  storeOp := toVKAttachmentStoreOp storeAction false
  stencilLoadOp := .eDontCare
  stencilStoreOp := .eDontCare
  initialLayout := if loadAction = .kLoad then currentLayout else .eUndefined
  finalLayout := computeFinalLayout isSwapchain sampleCount

/-- What it makes of that for the resolve attachment, if a resolve is performed. -/
def resolveDescription (desc : AttachmentDescription) (storeAction : StoreAction) (isSwapchain : Bool) :
    Option AttachmentDescription :=
  if storeActionPerformsResolve storeAction then
    some { desc with
      storeOp := toVKAttachmentStoreOp storeAction true
      samples := .e1
      finalLayout := computeFinalLayout isSwapchain .kCount1 }
  else none

def setColorAttachment (b : RenderPassBuilder) (index : Nat) (format : PixelFormat) (sampleCount : SampleCount)
    (loadAction : LoadAction) (storeAction : StoreAction) (currentLayout : ImageLayout) (isSwapchain : Bool) :
    RenderPassBuilder :=
  let desc := colorDescription format sampleCount loadAction storeAction currentLayout isSwapchain
  let resolve := resolveDescription desc storeAction isSwapchain
  if index = 0 then { b with color0 := some desc, color0Resolve := resolve }
  else { b with
    colors := b.colors.insert index desc
    resolves := match resolve with
      | some resolve => b.resolves.insert index resolve
      | none => b.resolves.erase index }

def setDepthStencilAttachment (b : RenderPassBuilder) (format : PixelFormat) (sampleCount : SampleCount)
    (loadAction : LoadAction) (storeAction : StoreAction) : RenderPassBuilder :=
  let loadOp := toVKAttachmentLoadOp loadAction
  let storeOp := toVKAttachmentStoreOp storeAction false
  { b with depthStencil := some {
      format := toVKImageFormat format
      samples := toVKSampleCount sampleCount
      loadOp
      storeOp
      stencilLoadOp := loadOp
      stencilStoreOp := storeOp
      initialLayout := .eUndefined
      finalLayout := .eDepthStencilAttachmentOptimal } }

def setStencilAttachment (b : RenderPassBuilder) (format : PixelFormat) (sampleCount : SampleCount)
    (loadAction : LoadAction) (storeAction : StoreAction) : RenderPassBuilder :=
  { b with depthStencil := some {
      format := toVKImageFormat format
      samples := toVKSampleCount sampleCount
      loadOp := .eDontCare
      storeOp := .eDontCare
      stencilLoadOp := toVKAttachmentLoadOp loadAction
      stencilStoreOp := toVKAttachmentStoreOp storeAction false
      initialLayout := .eUndefined
      finalLayout := .eDepthStencilAttachmentOptimal } }

/-- One color attachment goes into the arrays of `Build`, and its resolve attachment after it. -/
def addColor (info : RenderPassInfo) (color : AttachmentDescription)
    (resolve : Option AttachmentDescription) : RenderPassInfo :=
  { info with
    attachments := info.attachments ++ color :: resolve.toList
    colorRefs := info.colorRefs ++ [⟨some info.attachments.length, .eGeneral⟩]
    resolveRefs := info.resolveRefs ++ [match resolve with
      | some _ => ⟨some (info.attachments.length + 1), .eGeneral⟩
      | none => kUnusedAttachmentReference] }

/-- The color attachments in the order of `Build`, each with its resolve attachment. -/
def colorPairs (b : RenderPassBuilder) : List (AttachmentDescription × Option AttachmentDescription) :=
  (b.color0.map fun color => (color, b.color0Resolve)).toList ++
    b.colors.entries.map fun color => (color.2, b.resolves.find? color.1)

def addDepthStencil (info : RenderPassInfo) : Option AttachmentDescription → RenderPassInfo
  | some desc => { info with
      attachments := info.attachments ++ [desc]
      depthStencilRef := ⟨some info.attachments.length, .eDepthStencilAttachmentOptimal⟩ }
  | none => info

/-- The render pass that `Build` asks the device for. -/
def build (b : RenderPassBuilder) : RenderPassInfo :=
  addDepthStencil (b.colorPairs.foldl (fun info color => addColor info color.1 color.2) {}) b.depthStencil

end RenderPassBuilder
end Ogre.Hal
