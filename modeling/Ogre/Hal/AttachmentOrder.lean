import Ogre.Hal.FrameKeys

/-! The order of the attachments of a render target. The render pass, the framebuffer and the
clear values of a pass are each made by a traversal of their own, over the same slots. -/
namespace Ogre.Hal
open Ogre.Core Ogre.Library
variable {s : Recorder} {target : RenderTarget} {isSwapchain : Bool}

def kMaxColorAttachments : Nat := 16

def kMaxAttachments : Nat := kMaxColorAttachments * 2 + 1

/-- A depth attachment shares its slot with the stencil attachment. -/
inductive AttachmentSlot
  | color (attachment : Attachment)
  | resolve (attachment : Attachment) (resolveTexture : Nat)
  | depth (attachment : Attachment) (sharing : Option Attachment)
  | stencil (attachment : Attachment)
  deriving DecidableEq, Repr

namespace AttachmentSlot

def view : AttachmentSlot → Nat
  | .color attachment | .depth attachment _ | .stencil attachment => attachment.texture
  | .resolve _ resolveTexture => resolveTexture

/-- A resolve attachment is cleared like the attachment that it resolves. -/
def clear : AttachmentSlot → ClearValue
  | .color attachment | .resolve attachment _ => .color attachment.clear
  | .depth attachment sharing => .depthStencil attachment.clear ((sharing.map (·.clear)).getD 0)
  | .stencil attachment => .depthStencil 0 attachment.clear

/-- What a render pass is to do with the attachment. -/
def description (s : Recorder) (isSwapchain : Bool) : AttachmentSlot → AttachmentDescription
  | .color a => colorOf s isSwapchain a
  | .resolve a _ => { colorOf s isSwapchain a with
      storeOp := toVKAttachmentStoreOp a.storeAction true
      samples := .e1
      finalLayout := computeFinalLayout isSwapchain .kCount1 }
  | .depth a _ => depthStencilOf s a (toVKAttachmentLoadOp a.loadAction) (toVKAttachmentStoreOp a.storeAction false)
  | .stencil a => depthStencilOf s a .eDontCare .eDontCare
where
  colorOf (s : Recorder) (isSwapchain : Bool) (a : Attachment) : AttachmentDescription :=
    RenderPassBuilder.colorDescription (s.desc a.texture).format (s.desc a.texture).sampleCount a.loadAction
      a.storeAction (s.sources a.texture).layout isSwapchain
  depthStencilOf (s : Recorder) (a : Attachment) (loadOp : AttachmentLoadOp) (storeOp : AttachmentStoreOp) :
      AttachmentDescription := {
    format := toVKImageFormat (s.desc a.texture).format
    samples := toVKSampleCount (s.desc a.texture).sampleCount
    loadOp
    storeOp
    stencilLoadOp := toVKAttachmentLoadOp a.loadAction
    stencilStoreOp := toVKAttachmentStoreOp a.storeAction false
    initialLayout := .eUndefined
    finalLayout := .eDepthStencilAttachmentOptimal }

end AttachmentSlot

namespace RenderPass

def slots (target : RenderTarget) : List AttachmentSlot :=
  (target.allColorAttachments.flatMap fun a =>
    .color a.2 :: (a.2.resolveTexture.map (.resolve a.2)).toList) ++
  match target.depth, target.stencil with
  | some depth, stencil => [.depth depth stencil]
  | none, some stencil => [.stencil stencil]
  | none, none => []

theorem framebufferViews_eq : framebufferViews target = (slots target).map AttachmentSlot.view := by
  unfold framebufferViews slots RenderTarget.depthStencil
  rw [List.map_append, List.map_flatMap]
  congr 1
  · apply List.flatMap_congr
    intro a _
    cases a.2.resolveTexture <;> rfl
  · cases target.depth with
    | some depth => rfl
    | none => cases target.stencil <;> rfl

theorem clearValues_eq : clearValues target = (slots target).map AttachmentSlot.clear := by
  unfold clearValues slots
  rw [List.map_append, List.map_flatMap]
  congr 1
  · apply List.flatMap_congr
    intro a _
    cases a.2.resolveTexture <;> rfl
  · cases target.depth with
    | some depth => rfl
    | none => cases target.stencil <;> rfl

/-- The builder finds a resolve attachment by the store action, and the other two by the texture. -/
theorem attachments_eq (h : ∀ a ∈ target.allColorAttachments,
      a.2.resolveTexture.isSome = storeActionPerformsResolve a.2.storeAction) :
    (describe s target isSwapchain).build.attachments = (slots target).map (AttachmentSlot.description s isSwapchain) := by
  rw [RenderPassBuilder.build_attachments, describe_colorPairs, describe_depthStencil, List.flatMap_map]
  unfold slots
  rw [List.map_append, List.map_flatMap]
  congr 1
  · apply List.flatMap_congr
    intro a ha
    have hperforms := h a ha
    change _ :: (RenderPassBuilder.resolveDescription _ a.2.storeAction isSwapchain).toList = _
    rw [RenderPassBuilder.resolveDescription, ← hperforms]
    cases a.2.resolveTexture <;> rfl
  · unfold depthStencilKey RenderTarget.depthStencil
    cases target.depth with
    | some depth => rfl
    | none => cases target.stencil <;> rfl

private theorem length_slots : (slots target).length ≤ target.allColorAttachments.length * 2 + 1 := by
  unfold slots
  rw [List.length_append]
  apply Nat.add_le_add
  · generalize target.allColorAttachments = colors
    induction colors with
    | nil => exact Nat.zero_le _
    | cons a colors ih =>
      rw [List.flatMap_cons, List.length_append, List.length_cons, List.length_cons]
      have hresolve : (a.2.resolveTexture.map (AttachmentSlot.resolve a.2)).toList.length ≤ 1 := by
        cases a.2.resolveTexture <;> simp
      omega
  · split <;> simp

/-- For each target that the setters make, the descriptions of the render pass, the views of the
framebuffer and the clear values are those of the same slots in the same order. -/
theorem attachments_correspond (s : Recorder) (isSwapchain : Bool) (setters : List RenderTarget.Setter)
    (target : RenderTarget) (ht : target = .ofSetters s.desc setters)
    (hn : target.allColorAttachments.length ≤ kMaxColorAttachments) :
    (describe s target isSwapchain).build.attachments = (slots target).map (AttachmentSlot.description s isSwapchain) ∧
      framebufferViews target = (slots target).map AttachmentSlot.view ∧
      clearValues target = (slots target).map AttachmentSlot.clear ∧ (slots target).length ≤ kMaxAttachments := by
  refine ⟨attachments_eq fun a ha => ?_, framebufferViews_eq, clearValues_eq, ?_⟩
  · rw [ht] at ha
    exact Attachment.performsResolve_of_isValid (RenderTarget.ofSetters_colors setters a ha)
  · exact length_slots.trans (Nat.succ_le_succ (Nat.mul_le_mul_right 2 hn))

/-- Textures that several samples of others are resolved into. -/
def privateTextures : Recorder where
  sources _ := { desc := { storageMode := .kDevicePrivate, format := .kR8G8B8A8UNormInt, size := ⟨4, 4⟩ } }

/-- Two colors, the later one with a resolve texture, and a stencil that shares a texture with the depth. -/
def sharedSetters : List RenderTarget.Setter :=
  [.setStencilAttachment (some { texture := 4, clear := 5 }),
    .setColorAttachment { texture := 2, resolveTexture := some 3, storeAction := .kMultisampleResolve } 7,
    .setColorAttachment { texture := 1, resolveTexture := some 0 } 3, .setColorAttachment { texture := 0 } 0,
    .setDepthAttachment (some { texture := 4, clear := 6 })]

theorem attachments_correspond_sharedSetters :
    let target := RenderTarget.ofSetters privateTextures.desc sharedSetters
    (describe privateTextures target false).build.attachments.length = 4 ∧ framebufferViews target = [0, 2, 3, 4] ∧
      clearValues target = [.color 0, .color 0, .color 0, .depthStencil 6 5] := by
  obtain ⟨hattachments, hviews, hclears, -⟩ :=
    attachments_correspond privateTextures false sharedSetters _ rfl (by decide)
  intro target
  exact ⟨(congrArg List.length hattachments).trans rfl, hviews.trans rfl, hclears.trans rfl⟩

end RenderPass
end Ogre.Hal
