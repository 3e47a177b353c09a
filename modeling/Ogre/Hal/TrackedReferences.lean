import Ogre.Hal.FrameCache

/-! Whether command buffers keep alive what their commands refer to. -/
namespace Ogre.Hal
open Ogre.Core Ogre.Library

namespace Recorder
variable {s t : Recorder} {cmd : Nat} {command : Command}

/-- What every command refers to was tracked when it was recorded. -/
def AllAlive (s : Recorder) : Prop := ∀ e ∈ s.recorded, e.KeepsAlive

/-- What was tracked when a command was recorded still is. -/
def StillTracked (s : Recorder) : Prop := ∀ e ∈ s.recorded, e.tracked.Within (s.tracked e.commandBuffer)

theorem Encodes.allAlive (h : Encodes cmd s t) : t.AllAlive ↔ s.AllAlive := by
  obtain ⟨entries, hentries, hplain⟩ := h.recorded
  unfold AllAlive
  rw [hentries]
  refine ⟨fun h e he => h e (List.mem_append_left _ he), fun h e he => ?_⟩
  rcases List.mem_append.mp he with he | he
  · exact h e he
  · exact (hplain e he).2.2.1

theorem Encodes.stillTracked (h : Encodes cmd s t) (hs : s.StillTracked) : t.StillTracked := by
  obtain ⟨entries, hentries, hplain⟩ := h.recorded
  intro e he
  rw [hentries] at he
  rcases List.mem_append.mp he with he | he
  · exact (hs e he).trans (h.tracked _)
  · obtain ⟨rfl, -, -, hwithin⟩ := hplain e he
    exact hwithin

theorem allAlive_record :
    (s.record cmd command).AllAlive ↔ s.AllAlive ∧ command.references.Within (s.tracked cmd) := by
  unfold AllAlive record
  dsimp only
  simp only [List.mem_append, List.mem_singleton, or_imp, forall_and, forall_eq]
  rfl

theorem stillTracked_record (hs : s.StillTracked) : (s.record cmd command).StillTracked := by
  intro e he
  rcases List.mem_append.mp he with he | he
  · exact hs e he
  · obtain rfl := List.mem_singleton.mp he
    exact .refl _

end Recorder

namespace RenderPass
open Recorder

variable {s : Recorder} {cmd : Nat} {target : RenderTarget} {color0 : Attachment} {renderPass : VkRenderPass}
  {framebuffer : VkFramebuffer} {createRenderPass createFramebuffer : Bool}

private theorem finish_allAlive (target : RenderTarget) (renderPass : VkRenderPass) (framebuffer : VkFramebuffer)
    (h : color0.resolveTexture.toList ⊆ (s.tracked cmd).textures) :
    ((finish s cmd target color0 renderPass framebuffer).AllAlive ↔
      s.AllAlive ∧ framebuffer.views ⊆ (s.tracked cmd).textures) ∧
    (s.StillTracked → (finish s cmd target color0 renderPass framebuffer).StillTracked) := by
  obtain ⟨u, v, hu, -, htextures, hobjects, hv, htracked, hw⟩ := finish_cases target renderPass
    framebuffer h
  constructor
  · rw [hw.allAlive, allAlive_record, hv.allAlive, htracked]
    refine and_congr hu.allAlive ⟨fun h => htextures ▸ h.textures, fun h => ?_⟩
    exact ⟨hobjects, List.nil_subset _, htextures ▸ h⟩
  · intro hs
    exact hw.stillTracked (stillTracked_record (hv.stillTracked (hu.stillTracked hs)))

theorem framebufferViews_attached : framebufferViews target ⊆ attachedTextures target.allAttachments := by
  intro x hx
  simp only [framebufferViews, RenderTarget.depthStencil, List.mem_append, List.mem_flatMap, Option.mem_toList,
    Option.map_eq_some_iff] at hx
  rcases hx with ⟨a, ha, hx⟩ | ⟨a, ha, rfl⟩
  · refine List.mem_flatMap.mpr ⟨a.2, ?_, hx⟩
    exact List.mem_append_left _ (List.mem_append_left _ (List.mem_map.mpr ⟨a, ha, rfl⟩))
  · refine List.mem_flatMap.mpr ⟨a, ?_, List.mem_cons_self⟩
    cases hdepth : target.depth with
    | none =>
      rw [hdepth] at ha
      exact List.mem_append_right _ (Option.mem_toList.mpr ha)
    | some depth =>
      rw [hdepth] at ha
      cases ha
      exact List.mem_append_left _ (List.mem_append_right _ (by simp [hdepth]))

/-- The textures of a cached framebuffer are attached, or tracked already. -/
def FramebufferTracked (s : Recorder) (cmd : Nat) (target : RenderTarget) (color0 : Attachment)
    (createRenderPass createFramebuffer : Bool) : Prop :=
  succeeds s color0 createRenderPass createFramebuffer = true →
    ∀ framebuffer ∈ (cachedFrame s color0).framebuffer,
      ∀ texture ∈ framebuffer.views, texture ∈ (s.tracked cmd).textures ∨
        texture ∈ attachedTextures target.allAttachments

theorem create_allAlive (cmd : Nat) (createRenderPass createFramebuffer : Bool) (hcolor0 : target.color0 = some color0) :
    let r := create s cmd target color0 createRenderPass createFramebuffer
    (r.2.AllAlive ↔ s.AllAlive ∧ FramebufferTracked s cmd target color0 createRenderPass createFramebuffer) ∧
      (s.StillTracked → r.2.StillTracked) := by
  dsimp only
  have htracks : Encodes cmd s (trackAttachments s cmd target) := trackAttachments_encodes
  obtain ⟨handles, ⟨hfails, hcreate⟩ | ⟨hsucceeds, renderPass, framebuffer, -, hframebuffer, hcreate⟩⟩ :=
    create_cases s cmd target color0 createRenderPass createFramebuffer
  · rw [hcreate]
    refine ⟨?_, htracks.stillTracked⟩
    have htrivial : FramebufferTracked s cmd target color0 createRenderPass createFramebuffer :=
      fun h => by rw [hfails] at h; cases h
    rw [and_iff_left htrivial]
    exact htracks.allAlive
  · rw [hcreate]
    obtain ⟨halive, hstill⟩ := finish_allAlive (s := { trackAttachments s cmd target with handles })
      target renderPass framebuffer
      (List.Subset.trans (resolve_attached hcolor0) attachedTextures_tracked)
    refine ⟨halive.trans (and_congr htracks.allAlive ?_), fun hs => hstill (htracks.stillTracked hs)⟩
    have hviews : framebuffer.views ⊆ ((trackAttachments s cmd target).tracked cmd).textures ↔
        ∀ texture ∈ framebuffer.views, texture ∈ (s.tracked cmd).textures ∨
          texture ∈ attachedTextures target.allAttachments :=
      forall₂_congr fun texture _ => mem_trackAttachments
    refine hviews.trans ?_
    unfold UsesFramebuffer at hframebuffer
    unfold FramebufferTracked
    cases hcached : (cachedFrame s color0).framebuffer with
    | some cached =>
      rw [hcached] at hframebuffer
      subst hframebuffer
      simp [hsucceeds]
    | none =>
      rw [hcached] at hframebuffer
      simp only [Option.mem_def, reduceCtorEq, false_implies, implies_true, iff_true, hframebuffer.2.1]
      exact fun texture h => .inr (framebufferViews_attached h)

end RenderPass

namespace Encoder
variable {s t : Encoder} {a : Label} {textures : Nat → TextureInfo}

/-- A construction with a cached framebuffer attaches the textures of the framebuffer, or
they are tracked already. -/
def FramebufferTracked (s : Encoder) : Label → Prop
  | .createRenderPass cmd target createRenderPass createFramebuffer => ∀ color0 ∈ target.color0,
      RenderPass.FramebufferTracked s.recorder cmd target color0 createRenderPass createFramebuffer
  | _ => True

private theorem step_allAlive (h : s.KeepsAlive) (ht : step s a = some t) :
    (t.recorder.AllAlive ↔ s.recorder.AllAlive ∧ s.FramebufferTracked a) ∧
      (s.recorder.StillTracked → t.recorder.StillTracked) := by
  rcases step_cases h ht with ⟨target, color0, cmd, r, f, rfl, hcolor0, rfl⟩ | ⟨htarget, ⟨cmd, hencodes⟩, -⟩
  · simpa [FramebufferTracked, hcolor0, addRenderPass] using RenderPass.create_allAlive (s := s.recorder) cmd r f
      hcolor0
  · have htrivial : s.FramebufferTracked a := by
      cases a with
      | createRenderPass => cases htarget
      | _ => trivial
    rw [and_iff_left htrivial]
    exact ⟨hencodes.allAlive, hencodes.stillTracked⟩

/-- In the state that a run ends in, everything that is recorded is tracked, and has been
since it was recorded, if and only if the cached framebuffers that the run has used had
their textures tracked. -/
theorem references_tracked_iff {labels : List Label} (hr : (machine textures).run labels = some s) :
    (∀ e ∈ s.recorder.recorded, e.KeepsAlive ∧ e.tracked.Within (s.recorder.tracked e.commandBuffer)) ↔
      (machine textures).Along (fun s a _ => s.FramebufferTracked a) (machine textures).init labels := by
  have hstep (s a t) (h : s.KeepsAlive ∧ s.recorder.StillTracked) (ht : (machine textures).step s a = some t) :
      t.KeepsAlive ∧ t.recorder.StillTracked :=
    ⟨step_keepsAlive h.1 ht, (step_allAlive h.1 ht).2 h.2⟩
  have hinit : (machine textures).init.KeepsAlive ∧ (machine textures).init.recorder.StillTracked :=
    ⟨init_keepsAlive, by simp [Recorder.StillTracked, machine]⟩
  have hstill := (Machine.invariant hstep hinit hr).2
  have halive := Machine.kept_iff_along (G := fun s : Encoder => s.recorder.AllAlive)
    (C := fun s a _ => s.FramebufferTracked a) hstep (fun s a t h ht => (step_allAlive h.1 ht).1) hinit hr
  have hempty : (machine textures).init.recorder.AllAlive := by simp [Recorder.AllAlive, machine]
  rw [and_iff_right hempty] at halive
  rw [← halive]
  exact ⟨fun h e he => (h e he).1, fun h e he => ⟨h e he, hstill e he⟩⟩

instance (s : Recorder) (cmd : Nat) (target : RenderTarget) (color0 : Attachment) (r f : Bool) :
    Decidable (RenderPass.FramebufferTracked s cmd target color0 r f) :=
  inferInstanceAs (Decidable (_ = _ → ∀ framebuffer ∈ _, ∀ texture ∈ _, _))

instance (s : Encoder) : (a : Label) → Decidable (s.FramebufferTracked a)
  | .createRenderPass _ target _ _ => inferInstanceAs (Decidable (∀ color0 ∈ target.color0, _))
  | .setPipeline .. | .setStencilReference .. | .setBaseVertex .. | .setElementCount .. | .setInstanceCount ..
  | .setViewport .. | .setScissor .. | .setVertexBuffers .. | .setIndexBuffer .. | .bindBuffer .. | .bindTexture ..
  | .draw .. | .encodeCommands .. | .copyTextureToTexture .. | .copyTextureToBuffer .. | .copyBufferToTexture ..
  | .resizeTexture .. | .convertTextureToShaderRead .. | .generateMipmap .. | .createComputePass ..
  | .computeSetPipeline .. | .computeBindBuffer .. | .computeBindTexture .. | .compute .. | .addMemoryBarrier .. =>
    .isTrue trivial

/-- Two command buffers that draw to one color texture, with the same depth texture. -/
def sharedDepthRun : List Label :=
  [.createRenderPass 0 (depthTarget 1) true true, .createRenderPass 1 (depthTarget 1) true true]

theorem references_tracked_shared_depth : ∃ s, (machine depthTextures).run sharedDepthRun = some s ∧
    ∀ e ∈ s.recorder.recorded, e.KeepsAlive ∧ e.tracked.Within (s.recorder.tracked e.commandBuffer) := by
  have hr : (machine depthTextures).run sharedDepthRun = some _ := rfl
  exact ⟨_, hr, (references_tracked_iff hr).mpr (by decide)⟩

/-- The same with different depth textures. -/
def otherDepthRun : List Label :=
  [.createRenderPass 0 (depthTarget 1) true true, .createRenderPass 1 (depthTarget 2) true true]

/-- The second command buffer draws with the depth texture of the first, and does not track it. -/
theorem depth_texture_untracked : ∃ s, (machine depthTextures).run otherDepthRun = some s ∧
    ¬ ∀ e ∈ s.recorder.recorded, e.KeepsAlive ∧ e.tracked.Within (s.recorder.tracked e.commandBuffer) := by
  refine ⟨_, rfl, ?_⟩
  decide

end Encoder
end Ogre.Hal
