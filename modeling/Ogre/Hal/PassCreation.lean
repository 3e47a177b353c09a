import Ogre.Hal.Encoding
import Ogre.Hal.FrameKeys

/-! What the construction of a render pass does to the recorder. -/
namespace Ogre.Hal.RenderPass
open Ogre.Core Recorder

variable {s t : Recorder} {cmd : Nat} {target : RenderTarget} {color0 : Attachment} {isSwapchain : Bool}
  {renderPass : VkRenderPass} {framebuffer : VkFramebuffer}

/-- The textures that are attached to a target. -/
def attachedTextures (attachments : List Attachment) : List Nat :=
  attachments.flatMap fun a => a.texture :: a.resolveTexture.toList

private def trackAttachment (cmd : Nat) (s : Recorder) (a : Attachment) : Recorder :=
  match a.resolveTexture with
  | some resolve => (s.trackTexture cmd a.texture).trackTexture cmd resolve
  | none => s.trackTexture cmd a.texture

private theorem trackAttachment_sources {a : Attachment} : (trackAttachment cmd s a).sources = s.sources := by
  unfold trackAttachment
  split <;> rfl

private theorem trackAttachment_encodes (s : Recorder) (cmd : Nat) (a : Attachment) : Encodes cmd s (trackAttachment cmd s a) ∧
    a.texture :: a.resolveTexture.toList ⊆ ((trackAttachment cmd s a).tracked cmd).textures := by
  unfold trackAttachment
  cases a.resolveTexture with
  | none => exact ⟨.trackTexture, List.cons_subset.mpr ⟨mem_trackTexture, List.nil_subset _⟩⟩
  | some resolve =>
    refine ⟨Encodes.trackTexture.trans .trackTexture, List.cons_subset.mpr ⟨?_, ?_⟩⟩
    · exact (Encodes.trackTexture.tracked cmd).textures mem_trackTexture
    · exact List.cons_subset.mpr ⟨mem_trackTexture, List.nil_subset _⟩

private theorem foldl_trackAttachment {l : List Attachment} : (l.foldl (trackAttachment cmd) s).sources = s.sources ∧
    Encodes cmd s (l.foldl (trackAttachment cmd) s) ∧
      attachedTextures l ⊆ ((l.foldl (trackAttachment cmd) s).tracked cmd).textures := by
  induction l generalizing s with
  | nil => exact ⟨rfl, .refl _ _, List.nil_subset _⟩
  | cons a l ih =>
    obtain ⟨hfirst, htexture⟩ := trackAttachment_encodes s cmd a
    obtain ⟨hsources, hrest, htextures⟩ := ih (s := trackAttachment cmd s a)
    refine ⟨hsources.trans trackAttachment_sources, hfirst.trans hrest, List.append_subset.mpr ⟨?_, htextures⟩⟩
    exact List.Subset.trans htexture (hrest.tracked cmd).textures

private theorem textures_trackTexture {texture x : Nat} : x ∈ ((s.trackTexture cmd texture).tracked cmd).textures ↔
    x ∈ (s.tracked cmd).textures ∨ x = texture := by
  unfold Recorder.trackTexture Recorder.setTracked
  dsimp only
  rw [Function.update_self]
  exact TrackedObjects.mem_track_iff

private theorem textures_foldl {l : List Attachment} {x : Nat} :
    x ∈ ((l.foldl (trackAttachment cmd) s).tracked cmd).textures ↔
      x ∈ (s.tracked cmd).textures ∨ x ∈ attachedTextures l := by
  induction l generalizing s with
  | nil => simp [attachedTextures]
  | cons a l ih =>
    have hcons : x ∈ attachedTextures (a :: l) ↔ x ∈ a.texture :: a.resolveTexture.toList ∨ x ∈ attachedTextures l :=
      List.mem_append
    rw [List.foldl_cons, ih, hcons, ← or_assoc]
    refine or_congr_left ?_
    unfold trackAttachment
    cases a.resolveTexture with
    | none => simp [textures_trackTexture]
    | some resolve => simp [textures_trackTexture, or_assoc]

private theorem trackAttachments_eq :
    trackAttachments s cmd target = target.allAttachments.foldl (trackAttachment cmd) s := rfl

@[simp] theorem trackAttachments_sources : (trackAttachments s cmd target).sources = s.sources :=
  trackAttachments_eq ▸ foldl_trackAttachment.1

theorem trackAttachments_encodes : Encodes cmd s (trackAttachments s cmd target) :=
  trackAttachments_eq ▸ foldl_trackAttachment.2.1

theorem attachedTextures_tracked :
    attachedTextures target.allAttachments ⊆ ((trackAttachments s cmd target).tracked cmd).textures :=
  trackAttachments_eq ▸ foldl_trackAttachment.2.2

/-- Exactly the attached textures become tracked. -/
theorem mem_trackAttachments {x : Nat} : x ∈ ((trackAttachments s cmd target).tracked cmd).textures ↔
    x ∈ (s.tracked cmd).textures ∨ x ∈ attachedTextures target.allAttachments :=
  trackAttachments_eq ▸ textures_foldl

theorem freshObjects_congr (h : t.sources = s.sources) :
    freshObjects t target isSwapchain = freshObjects s target isSwapchain := by
  simp only [freshObjects, describe, Recorder.desc, RenderTarget.size, h]

/-- The frame data that is cached for a target with the color attachment. -/
def cachedFrame (s : Recorder) (color0 : Attachment) : FramebufferAndRenderPass :=
  (s.sources (cacheTexture color0)).frameData (s.desc color0.texture).sampleCount

/-- Whether the images of the target are those of a swapchain. -/
def isSwapchainTarget (s : Recorder) (color0 : Attachment) : Bool :=
  (s.sources (cacheTexture color0)).isSwapchainImage

/-- What the constructor does once it has both objects. -/
def finish (s : Recorder) (cmd : Nat) (target : RenderTarget) (color0 : Attachment) (renderPass : VkRenderPass)
    (framebuffer : VkFramebuffer) : Recorder :=
  let isSwapchain := isSwapchainTarget s color0
  let sampleCount := (s.desc color0.texture).sampleCount
  let s := (s.trackObject cmd (.framebuffer framebuffer.handle)).trackObject cmd (.renderPass renderPass.handle)
  let s := s.setCachedFrameData (cacheTexture color0) ⟨some framebuffer, some renderPass⟩ sampleCount
  beginPass (prepareMipLevels s cmd color0) cmd target color0 isSwapchain renderPass framebuffer

/-- The render pass is the cached one, or else one that the device makes for the target. -/
def UsesRenderPass (s : Recorder) (target : RenderTarget) (color0 : Attachment) (createRenderPass : Bool)
    (renderPass : VkRenderPass) : Prop :=
  match (cachedFrame s color0).renderPass with
  | some cached => renderPass = cached
  | none => createRenderPass = true ∧
      renderPass.info = (freshObjects s target (isSwapchainTarget s color0)).renderPass

/-- The same for the framebuffer. -/
def UsesFramebuffer (s : Recorder) (target : RenderTarget) (color0 : Attachment) (createFramebuffer : Bool)
    (framebuffer : VkFramebuffer) : Prop :=
  let fresh := freshObjects s target (isSwapchainTarget s color0)
  match (cachedFrame s color0).framebuffer with
  | some cached => framebuffer = cached
  | none => createFramebuffer = true ∧ framebuffer.views = fresh.views ∧ framebuffer.size = fresh.size

/-- Whether the device makes what is not cached. -/
def succeeds (s : Recorder) (color0 : Attachment) (createRenderPass createFramebuffer : Bool) : Bool :=
  ((cachedFrame s color0).renderPass.isSome || createRenderPass) &&
    ((cachedFrame s color0).framebuffer.isSome || createFramebuffer)

theorem create_cases (s : Recorder) (cmd : Nat) (target : RenderTarget) (color0 : Attachment)
    (createRenderPass createFramebuffer : Bool) : ∃ handles,
    let s' := { trackAttachments s cmd target with handles }
    (succeeds s color0 createRenderPass createFramebuffer = false ∧
      create s cmd target color0 createRenderPass createFramebuffer = (none, s')) ∨
    (succeeds s color0 createRenderPass createFramebuffer = true ∧ ∃ renderPass framebuffer,
      UsesRenderPass s target color0 createRenderPass renderPass ∧
      UsesFramebuffer s target color0 createFramebuffer framebuffer ∧
      create s cmd target color0 createRenderPass createFramebuffer =
        (some { commandBuffer := cmd, renderTarget := target, colorImage := color0.texture },
          finish s' cmd target color0 renderPass framebuffer)) := by
  have hframe : ((trackAttachments s cmd target).sources (cacheTexture color0)).frameData
      ((trackAttachments s cmd target).desc color0.texture).sampleCount = cachedFrame s color0 := by
    simp only [Recorder.desc, trackAttachments_sources, cachedFrame]
  have hfresh : freshObjects (trackAttachments s cmd target) target
      ((trackAttachments s cmd target).sources (cacheTexture color0)).isSwapchainImage =
      freshObjects s target (isSwapchainTarget s color0) := by
    rw [freshObjects_congr trackAttachments_sources, isSwapchainTarget, trackAttachments_sources]
  have hinfo := congrArg FrameObjects.renderPass hfresh
  have hsize := congrArg FrameObjects.size hfresh
  unfold create succeeds UsesRenderPass UsesFramebuffer
  dsimp only
  rw [hframe]
  cases hpass : (cachedFrame s color0).renderPass with
  | some renderPass =>
    cases hframebuffer : (cachedFrame s color0).framebuffer with
    | some framebuffer => exact ⟨_, .inr ⟨rfl, renderPass, framebuffer, rfl, rfl, rfl⟩⟩
    | none =>
      cases createFramebuffer with
      | true => exact ⟨_, .inr ⟨rfl, renderPass, _, rfl, ⟨rfl, rfl, hsize⟩, rfl⟩⟩
      | false => exact ⟨_, .inl ⟨rfl, rfl⟩⟩
  | none =>
    cases createRenderPass with
    | false => exact ⟨_, .inl ⟨rfl, rfl⟩⟩
    | true =>
      cases hframebuffer : (cachedFrame s color0).framebuffer with
      | some framebuffer => exact ⟨_, .inr ⟨rfl, _, framebuffer, ⟨rfl, hinfo⟩, rfl, rfl⟩⟩
      | none =>
        cases createFramebuffer with
        | true => exact ⟨_, .inr ⟨rfl, _, _, ⟨rfl, hinfo⟩, ⟨rfl, rfl, hsize⟩, rfl⟩⟩
        | false => exact ⟨_, .inl ⟨rfl, rfl⟩⟩

private theorem prepareMipLevels_encodes (h : color0.resolveTexture.toList ⊆ (s.tracked cmd).textures) :
    Encodes cmd s (prepareMipLevels s cmd color0) := by
  unfold prepareMipLevels
  split
  next resolve hresolve =>
    split
    · exact .setLayout _ _ (h (by simp [hresolve]))
    · exact .refl _ _
  next => exact .refl _ _

private theorem prepareMipLevels_tracked : (prepareMipLevels s cmd color0).tracked = s.tracked := by
  unfold prepareMipLevels
  split
  · split <;> rfl
  · rfl

private theorem beginPass_encodes : Encodes cmd (s.record cmd (.beginRenderPass renderPass framebuffer
    (clearValues target))) (beginPass s cmd target color0 isSwapchain renderPass framebuffer) := by
  have hstart {s : Recorder} : Encodes cmd s
      (((s.record cmd .setViewport).record cmd .setScissor).record cmd (.setStencilReference 0)) :=
    Encodes.trans (.recordPlain _ rfl rfl) (.trans (.recordPlain _ rfl rfl) (.recordPlain _ rfl rfl))
  unfold beginPass
  dsimp only
  split
  · exact Encodes.setLayoutWithoutEncoding.trans (Encodes.setLayoutWithoutEncoding.trans hstart)
  · exact Encodes.setLayoutWithoutEncoding.trans hstart

private theorem textures_trackObject {object : SharedObject} :
    ((s.trackObject cmd object).tracked cmd).textures = (s.tracked cmd).textures := by
  unfold Recorder.trackObject Recorder.setTracked
  dsimp only
  rw [Function.update_self]
  rfl

/-- Both objects are tracked, then cached, and then a pass with them is begun. -/
theorem finish_cases (target : RenderTarget) (renderPass : VkRenderPass) (framebuffer : VkFramebuffer)
    (h : color0.resolveTexture.toList ⊆ (s.tracked cmd).textures) : ∃ u v,
    Encodes cmd s u ∧ u.sources = s.sources ∧ (u.tracked cmd).textures = (s.tracked cmd).textures ∧
    [.framebuffer framebuffer.handle, .renderPass renderPass.handle] ⊆ (u.tracked cmd).objects ∧
    Encodes cmd (u.setCachedFrameData (cacheTexture color0) ⟨some framebuffer, some renderPass⟩
      (s.desc color0.texture).sampleCount) v ∧ v.tracked = u.tracked ∧
    Encodes cmd (v.record cmd (.beginRenderPass renderPass framebuffer (clearValues target)))
      (finish s cmd target color0 renderPass framebuffer) := by
  refine ⟨_, _, Encodes.trackObject.trans .trackObject, rfl, ?_, ?_, prepareMipLevels_encodes ?_,
    prepareMipLevels_tracked, beginPass_encodes⟩
  · rw [textures_trackObject, textures_trackObject]
  · refine List.cons_subset.mpr ⟨?_, List.cons_subset.mpr ⟨mem_trackObject, List.nil_subset _⟩⟩
    exact (Encodes.trackObject.tracked cmd).objects mem_trackObject
  · refine List.Subset.trans h ?_
    exact List.Subset.trans (Encodes.trackObject.tracked cmd).textures (Encodes.trackObject.tracked cmd).textures

/-- The resolve texture of the first color attachment is attached. -/
theorem resolve_attached (h : target.color0 = some color0) :
    color0.resolveTexture.toList ⊆ attachedTextures target.allAttachments := by
  intro x hx
  refine List.mem_flatMap.mpr ⟨color0, ?_, List.mem_cons_of_mem _ hx⟩
  simp [RenderTarget.allAttachments, RenderTarget.allColorAttachments, h]

private theorem finish_tracked (target : RenderTarget) (renderPass : VkRenderPass) (framebuffer : VkFramebuffer)
    (h : color0.resolveTexture.toList ⊆ (s.tracked cmd).textures) (c : Nat) :
    (s.tracked c).Within ((finish s cmd target color0 renderPass framebuffer).tracked c) := by
  obtain ⟨u, v, hu, -, -, -, hv, -, hw⟩ := finish_cases target renderPass framebuffer h
  exact (hu.tracked c).trans ((hv.tracked c).trans (hw.tracked c))

/-- Nothing becomes untracked, and what the new pass needs is tracked. -/
theorem create_keepsAlive (cmd : Nat) (createRenderPass createFramebuffer : Bool) (h : target.color0 = some color0) :
    let r := create s cmd target color0 createRenderPass createFramebuffer
    (∀ c, (s.tracked c).Within (r.2.tracked c)) ∧ ∀ p ∈ r.1, p.KeepsAlive r.2 := by
  dsimp only
  have hattached : attachedTextures target.allAttachments ⊆ ((trackAttachments s cmd target).tracked cmd).textures :=
    attachedTextures_tracked
  have hcolor : color0.texture ∈ attachedTextures target.allAttachments := by
    refine List.mem_flatMap.mpr ⟨color0, ?_, List.mem_cons_self⟩
    simp [RenderTarget.allAttachments, RenderTarget.allColorAttachments, h]
  obtain ⟨handles, ⟨-, hcreate⟩ | ⟨-, renderPass, framebuffer, -, -, hcreate⟩⟩ := create_cases s cmd
    target color0 createRenderPass createFramebuffer
  · rw [hcreate]
    exact ⟨trackAttachments_encodes.tracked, fun p hp => by cases hp⟩
  · rw [hcreate]
    have hfinish := finish_tracked (s := { trackAttachments s cmd target with handles }) target renderPass framebuffer
      (List.Subset.trans (resolve_attached h) hattached)
    refine ⟨fun c => (trackAttachments_encodes.tracked c).trans (hfinish c), fun p hp => ?_⟩
    cases hp
    exact ⟨Workspace.references_empty, (hfinish cmd).textures (hattached hcolor)⟩

end Ogre.Hal.RenderPass
