import Ogre.Hal.Recording

/-! Render passes: their construction for a target, with the cached objects of its
textures, and the commands that they record. -/
namespace Ogre.Hal
open Ogre.Core Ogre.Fml

def kMaxBindings : Nat := 32
def kMaxVertexBuffers : Nat := 16
def kMagicSubpassInputBinding : Nat := 64

/-- Where a write of the workspace points to. -/
inductive WorkspaceInfo
  | image (index : Nat)
  | buffer (index : Nat)
  deriving DecidableEq, Repr

structure WorkspaceWrite where
  binding : Nat
  descriptorType : VkDescriptorType
  info : WorkspaceInfo
  deriving DecidableEq, Repr

/-- The arrays of a pass up to their offsets, which are the lengths. -/
structure Workspace where
  images : List (Nat × ImageLayout) := []
  buffers : List BufferView := []
  writes : List WorkspaceWrite := []
  deriving DecidableEq, Repr

namespace Workspace

def addImage (w : Workspace) (binding : Nat) (descriptorType : VkDescriptorType) (texture : Nat)
    (layout : ImageLayout) : Workspace where
  images := w.images ++ [(texture, layout)]
  buffers := w.buffers
  writes := w.writes ++ [⟨binding, descriptorType, .image w.images.length⟩]

def addBuffer (w : Workspace) (binding : Nat) (descriptorType : VkDescriptorType) (view : BufferView) :
    Workspace where
  images := w.images
  buffers := w.buffers ++ [view]
  writes := w.writes ++ [⟨binding, descriptorType, .buffer w.buffers.length⟩]

def info (w : Workspace) : WorkspaceInfo → Option DescriptorInfo
  | .image index => w.images[index]?.map fun image => .image image.1 image.2
  | .buffer index => w.buffers[index]?.map .buffer

/-- What `updateDescriptorSets` writes. -/
def writeDescriptorSets (w : Workspace) : List WriteDescriptorSet :=
  w.writes.map fun write => ⟨write.binding, write.descriptorType, w.info write.info⟩

end Workspace

/-- What a buffer binding keeps of its view, whose offset goes through a `uint32_t`. -/
def bufferInfo (view : BufferView) : BufferView :=
  { view with range := { view.range with offset := view.range.offset % 4294967296 } }

/-- `usesInputAttachments` is asked of the vertex descriptor. -/
structure RenderPipeline where
  key : Nat
  usesInputAttachments : Bool
  deriving DecidableEq, Repr

/-- The pass keeps the first color attachment of its target at hand. -/
structure RenderPass where
  commandBuffer : Nat
  renderTarget : RenderTarget
  colorImage : Nat
  currentStencil : Nat := 0
  workspace : Workspace := {}
  instanceCount : Nat := 1
  baseVertex : Nat := 0
  elementCount : Nat := 0
  hasIndexBuffer : Bool := false
  pipeline : Option RenderPipeline := none
  pipelineUsesInputAttachments : Bool := false
  immutableSampler : Bool := false

namespace RenderPass

/-- `GetVKClearValues`. A resolve attachment is cleared like its color attachment. -/
def clearValues (target : RenderTarget) : List ClearValue :=
  (target.allColorAttachments.flatMap fun a =>
    .color a.2.clear :: (a.2.resolveTexture.map fun _ => .color a.2.clear).toList) ++
  match target.depth, target.stencil with
  | some depth, stencil => [.depthStencil depth.clear ((stencil.map (·.clear)).getD 0)]
  | none, some stencil => [.depthStencil 0 stencil.clear]
  | none, none => []

/-- The builder as `CreateVKRenderPass` sets it up. -/
def describe (s : Recorder) (target : RenderTarget) (isSwapchain : Bool) : RenderPassBuilder :=
  let b := target.allColorAttachments.foldl (fun b a =>
    let desc := s.desc a.2.texture
    b.setColorAttachment a.1 desc.format desc.sampleCount a.2.loadAction a.2.storeAction
      (s.sources a.2.texture).layout isSwapchain) {}
  match target.depth, target.stencil with
  | some depth, _ =>
    let desc := s.desc depth.texture
    b.setDepthStencilAttachment desc.format desc.sampleCount depth.loadAction depth.storeAction
  | none, some stencil =>
    let desc := s.desc stencil.texture
    b.setStencilAttachment desc.format desc.sampleCount stencil.loadAction stencil.storeAction
  | none, none => b

/-- `success` tells whether the device makes the object. -/
def createVKRenderPass (s : Recorder) (recycled : Option VkRenderPass) (target : RenderTarget)
    (isSwapchain success : Bool) : Option VkRenderPass × Recorder :=
  match recycled with
  | some renderPass => (some renderPass, s)
  | none =>
    if success then
      (some ⟨s.handles, (describe s target isSwapchain).build⟩, { s with handles := s.handles + 1 })
    else (none, s)

/-- The views of the attachments, in the order of the descriptions of the render pass. -/
def framebufferViews (target : RenderTarget) : List Nat :=
  (target.allColorAttachments.flatMap fun a => a.2.texture :: a.2.resolveTexture.toList) ++
    (target.depthStencil.map (·.texture)).toList

def createVKFramebuffer (s : Recorder) (target : RenderTarget) (success : Bool) :
    Option VkFramebuffer × Recorder :=
  if success then
    (some ⟨s.handles, framebufferViews target, target.size s.desc⟩, { s with handles := s.handles + 1 })
  else (none, s)

/-- The texture whose frame data a pass for the target uses. -/
def cacheTexture (color0 : Attachment) : Nat := color0.resolveTexture.getD color0.texture

/-- The attachments are tracked in the order of `IterateAllAttachments`. -/
def trackAttachments (s : Recorder) (cmd : Nat) (target : RenderTarget) : Recorder :=
  target.allAttachments.foldl (fun s a =>
    let s := s.trackTexture cmd a.texture
    match a.resolveTexture with
    | some resolve => s.trackTexture cmd resolve
    | none => s) s

/-- The constructor from `beginRenderPass` on. -/
def beginPass (s : Recorder) (cmd : Nat) (target : RenderTarget) (color0 : Attachment) (isSwapchain : Bool)
    (renderPass : VkRenderPass) (framebuffer : VkFramebuffer) : Recorder :=
  let s := s.record cmd (.beginRenderPass renderPass framebuffer (clearValues target))
  let s := match color0.resolveTexture with
    | some resolve => s.setLayoutWithoutEncoding resolve (if isSwapchain then .eGeneral else .eShaderReadOnlyOptimal)
    | none => s
  let s := s.setLayoutWithoutEncoding color0.texture .eGeneral
  ((s.record cmd .setViewport).record cmd .setScissor).record cmd (.setStencilReference 0)

/-- The mip levels of a resolve texture besides the base are made ready for mipmap generation. -/
def prepareMipLevels (s : Recorder) (cmd : Nat) (color0 : Attachment) : Recorder :=
  match color0.resolveTexture with
  | some resolve =>
    if (s.desc resolve).mipCount > 1 ∧ (s.sources resolve).layout = .eUndefined then
      s.setLayout cmd resolve .eShaderReadOnlyOptimal 1
    else s
  | none => s

/-- The constructor, with the answers of the device where it has to make an object. A
target without its first color attachment is not valid. -/
def create (s : Recorder) (cmd : Nat) (target : RenderTarget) (color0 : Attachment)
    (createRenderPass createFramebuffer : Bool) : Option RenderPass × Recorder :=
  let s := trackAttachments s cmd target
  let sampleCount := (s.desc color0.texture).sampleCount
  let cached := s.sources (cacheTexture color0)
  let frameData := cached.frameData sampleCount
  let isSwapchain := cached.isSwapchainImage
  let pass := createVKRenderPass s frameData.renderPass target isSwapchain createRenderPass
  match pass.1 with
  | none => (none, pass.2)
  | some renderPass =>
    let made := match frameData.framebuffer with
      | some framebuffer => (some framebuffer, pass.2)
      | none => createVKFramebuffer pass.2 target createFramebuffer
    match made.1 with
    | none => (none, made.2)
    | some framebuffer =>
      let s := (made.2.trackObject cmd (.framebuffer framebuffer.handle)).trackObject cmd
        (.renderPass renderPass.handle)
      let s := s.setCachedFrameData (cacheTexture color0) ⟨some framebuffer, some renderPass⟩ sampleCount
      let s := prepareMipLevels s cmd color0
      (some { commandBuffer := cmd, renderTarget := target, colorImage := color0.texture },
        beginPass s cmd target color0 isSwapchain renderPass framebuffer)

def setPipeline (p : RenderPass) (pipeline : Option RenderPipeline) : RenderPass :=
  match pipeline with
  | none => { p with pipeline := none }
  | some pipeline =>
    let p := { p with
      pipeline := some pipeline
      pipelineUsesInputAttachments := pipeline.usesInputAttachments }
    if pipeline.usesInputAttachments then
      if kMaxBindings ≤ p.workspace.images.length then { p with pipeline := none }
      else { p with
        workspace := p.workspace.addImage kMagicSubpassInputBinding .eInputAttachment p.colorImage .eGeneral }
    else p

def setStencilReference (p : RenderPass) (s : Recorder) (value : Nat) : RenderPass × Recorder :=
  if p.currentStencil = value then (p, s)
  else ({ p with currentStencil := value }, s.record p.commandBuffer (.setStencilReference value))

def validateVertexBuffers (views : List BufferView) : Bool :=
  views.length ≤ kMaxVertexBuffers && views.all (·.isSet)

def setVertexBuffers (p : RenderPass) (s : Recorder) (views : List BufferView) : Bool × Recorder :=
  if !validateVertexBuffers views then (false, s)
  else
    let s := views.foldl (fun s view => s.trackView p.commandBuffer view) s
    (true, s.record p.commandBuffer (.bindVertexBuffers views))

def validateIndexBuffer (view : BufferView) (indexType : IndexType) : Bool :=
  indexType ≠ .kUnknown && (indexType = .kNone || view.isSet)

def setIndexBuffer (p : RenderPass) (s : Recorder) (view : BufferView) (indexType : IndexType) :
    Bool × RenderPass × Recorder :=
  if !validateIndexBuffer view indexType then (false, p, s)
  else if indexType = .kNone then (true, { p with hasIndexBuffer := false }, s)
  else
    let p := { p with hasIndexBuffer := true }
    let s := s.trackView p.commandBuffer view
    (true, p, s.record p.commandBuffer (.bindIndexBuffer view indexType))

/-- `BindResource` of a buffer. The buffer of an empty view is dereferenced. -/
def bindBuffer (p : RenderPass) (s : Recorder) (binding : Nat) (type : DescriptorType) (view : BufferView) :
    Option (Bool × RenderPass × Recorder) :=
  if kMaxBindings ≤ p.workspace.buffers.length then some (false, p, s)
  else if view.getBuffer.isNone then none
  else
    let workspace := p.workspace.addBuffer binding (toVKDescriptorType type) (bufferInfo view)
    some (true, { p with workspace }, s.trackView p.commandBuffer view)

/-- `BindResource` of a texture, if one is given, with a sampler. -/
def bindTexture (p : RenderPass) (s : Recorder) (binding : Nat) (texture : Option Nat) (sampler : Bool) :
    Bool × RenderPass × Recorder :=
  if kMaxBindings ≤ p.workspace.buffers.length then (false, p, s)
  else match texture, sampler with
    | some texture, true =>
      (true, { p with
          immutableSampler := p.immutableSampler || (s.sources texture).hasYUVConversion
          workspace := p.workspace.addImage binding .eCombinedImageSampler texture .eShaderReadOnlyOptimal },
        s.trackTexture p.commandBuffer texture)
    | _, _ => (false, p, s)

/-- What a successful `Draw` records. -/
def recordDraw (p : RenderPass) (s : Recorder) (pipeline : RenderPipeline) : Recorder :=
  let cmd := p.commandBuffer
  let s := (s.record cmd (.bindPipeline pipeline.key)).record cmd
    (.bindDescriptorSets (some pipeline.key) (some pipeline.key) p.workspace.writeDescriptorSets)
  let s := if p.pipelineUsesInputAttachments then s.record cmd (.inputAttachmentBarrier p.colorImage) else s
  s.record cmd (if p.hasIndexBuffer then .drawIndexed p.elementCount p.instanceCount p.baseVertex
    else .draw p.elementCount p.instanceCount p.baseVertex)

/-- `variant` is the key of the pipeline variant for the immutable sampler, if it can be
created, and `descriptorSet` tells whether a descriptor set is allocated. -/
def draw (p : RenderPass) (s : Recorder) (variant : Option Nat) (descriptorSet : Bool) :
    Status × RenderPass × Recorder :=
  match p.pipeline with
  | none => (⟨.kCancelled, "No valid pipeline is bound to the RenderPass."⟩, p, s)
  | some pipeline =>
    match if p.immutableSampler then variant else some pipeline.key with
    | none => (⟨.kAborted, "Could not create pipeline variant with immutable sampler."⟩, p, s)
    | some key =>
      let pipeline := { pipeline with key }
      let p := { p with pipeline := some pipeline }
      if !descriptorSet then (⟨.kAborted, "Could not allocate descriptor sets."⟩, p, s)
      else
        ({}, { p with
            hasIndexBuffer := false
            workspace := {}
            instanceCount := 1
            baseVertex := 0
            elementCount := 0
            pipeline := none
            pipelineUsesInputAttachments := false
            immutableSampler := false },
          p.recordDraw s pipeline)

end RenderPass
end Ogre.Hal
