import Ogre.Hal.FrameCache
import Ogre.Hal.LayoutTracking

/-! When a render pass leaves its attachments in the layouts that their textures are told. -/
namespace Ogre.Hal.RenderPass
open Ogre.Core Ogre.Library Recorder

variable {textures : Nat → TextureInfo} {s : Recorder} {cmd texture : Nat} {target : RenderTarget}
  {color0 : Attachment} {renderPass : VkRenderPass} {framebuffer : VkFramebuffer} {isSwapchain : Bool}

/-- The layout that a texture is told: the first color attachment and its resolve texture
get a new one, and all others keep theirs. -/
def toldLayout (s : Recorder) (color0 : Attachment) (isSwapchain : Bool) (texture : Nat) : ImageLayout :=
  if texture = color0.texture then .eGeneral
  else if color0.resolveTexture = some texture then if isSwapchain then .eGeneral else .eShaderReadOnlyOptimal
  else (s.sources texture).layout

/-- The resolve texture has mip levels besides the base that are made ready for mipmap generation. -/
def PreparesMipLevels (s : Recorder) (color0 : Attachment) (texture : Nat) : Prop :=
  color0.resolveTexture = some texture ∧ 1 < (s.desc texture).mipCount ∧ (s.sources texture).layout = .eUndefined

instance (s : Recorder) (color0 : Attachment) (texture : Nat) : Decidable (PreparesMipLevels s color0 texture) :=
  inferInstanceAs (Decidable (_ ∧ _ ∧ _))

/-- Every description of a texture starts in no layout or in its own, and ends in the one
that it is told, which is also that of the levels that the pass does not draw to. -/
def AgreesAt (s : Recorder) (color0 : Attachment) (isSwapchain : Bool)
    (attachments : List (Nat × AttachmentDescription)) (texture : Nat) : Prop :=
  let told := toldLayout s color0 isSwapchain texture
  let source := s.sources texture
  (∀ a ∈ attachments, a.1 = texture →
    (a.2.initialLayout = .eUndefined ∨ a.2.initialLayout = source.layout) ∧ a.2.finalLayout = told) ∧
  (source.layout = told ∨ texture ∈ attachments.map (·.1) ∧
    (source.desc.mipCount ≤ source.renderTargetLevels ∨
      PreparesMipLevels s color0 texture ∧ told = .eShaderReadOnlyOptimal))

instance (s : Recorder) (color0 : Attachment) (isSwapchain : Bool) (attachments : List (Nat × AttachmentDescription))
    (texture : Nat) : Decidable (AgreesAt s color0 isSwapchain attachments texture) :=
  inferInstanceAs (Decidable (_ ∧ _))

theorem AgreesAt.congr {t : Recorder} {attachments : List (Nat × AttachmentDescription)}
    (h : AgreesAt s color0 isSwapchain attachments texture)
    (hs : ∀ x, (t.sources x).toTextureInfo = (s.sources x).toTextureInfo ∧
      (t.sources x).layout = (s.sources x).layout) : AgreesAt t color0 isSwapchain attachments texture := by
  have htold : toldLayout t color0 isSwapchain texture = toldLayout s color0 isSwapchain texture := by
    rw [toldLayout, toldLayout, (hs texture).2]
  unfold AgreesAt PreparesMipLevels Recorder.desc at h ⊢
  dsimp only at h ⊢
  rwa [htold, (hs texture).1, (hs texture).2]

/-- The same of a pass for which nothing is cached, in terms of its target. The first color
attachment is told to be general, which it only is for a swapchain or with several samples. -/
structure FreshAgrees (s : Recorder) (target : RenderTarget) (color0 : Attachment) (isSwapchain : Bool) : Prop where
  first : isSwapchain = true ∨ (s.desc color0.texture).sampleCount ≠ .kCount1
  colors : ∀ a ∈ target.colors.entries, toldLayout s color0 isSwapchain a.2.texture =
    computeFinalLayout isSwapchain (s.desc a.2.texture).sampleCount
  resolves : ∀ a ∈ target.allColorAttachments, ∀ resolve ∈ a.2.resolveTexture,
    toldLayout s color0 isSwapchain resolve = computeFinalLayout isSwapchain .kCount1
  -- a resolve attachment is loaded in the layout of its color attachment
  loads : ∀ a ∈ target.allColorAttachments, a.2.loadAction = .kLoad → ∀ resolve ∈ a.2.resolveTexture,
    (s.sources a.2.texture).layout = .eUndefined ∨ (s.sources a.2.texture).layout = (s.sources resolve).layout
  depthStencil : target.depthStencil = none
  levels : ∀ texture ∈ framebufferViews target,
    (s.sources texture).layout = toldLayout s color0 isSwapchain texture ∨
      (s.desc texture).mipCount ≤ (s.sources texture).renderTargetLevels ∨
        PreparesMipLevels s color0 texture ∧ toldLayout s color0 isSwapchain texture = .eShaderReadOnlyOptimal

instance (s : Recorder) (target : RenderTarget) (color0 : Attachment) (isSwapchain : Bool) :
    Decidable (FreshAgrees s target color0 isSwapchain) :=
  decidable_of_iff (_ ∧ _ ∧ _ ∧ _ ∧ _ ∧ _)
    ⟨fun h => ⟨h.1, h.2.1, h.2.2.1, h.2.2.2.1, h.2.2.2.2.1, h.2.2.2.2.2⟩,
      fun h => ⟨h.first, h.colors, h.resolves, h.loads, h.depthStencil, h.levels⟩⟩

/-- A valid target resolves exactly where it has a resolve texture. -/
theorem performsResolve_of_isValid {desc : Nat → TextureDescriptor} {a : Nat × Attachment}
    (h : target.isValid desc = true) (ha : a ∈ target.allColorAttachments) :
    a.2.resolveTexture.isSome = storeActionPerformsResolve a.2.storeAction := by
  have hmem : a.2 ∈ target.allAttachments := by
    unfold RenderTarget.allAttachments
    exact List.mem_append_left _ (List.mem_append_left _ (List.mem_map_of_mem ha))
  exact Attachment.performsResolve_of_isValid (List.all_eq_true.mp (Bool.and_eq_true_iff.mp h).2 a.2 hmem)

private theorem FreshAgrees.finalLayout {a : Nat × Attachment} (h : FreshAgrees s target color0 isSwapchain)
    (hcolor0 : target.color0 = some color0) (ha : a ∈ target.allColorAttachments) :
    computeFinalLayout isSwapchain (s.desc a.2.texture).sampleCount =
      toldLayout s color0 isSwapchain a.2.texture := by
  rcases List.mem_append.mp ha with ha | ha
  · rw [hcolor0] at ha
    obtain rfl := List.mem_singleton.mp ha
    rw [toldLayout, if_pos rfl, computeFinalLayout, if_pos]
    rcases h.first with hswapchain | hsamples
    · simp [hswapchain]
    · simp [hsamples]
  · exact (h.colors a ha).symm

end Ogre.Hal.RenderPass
