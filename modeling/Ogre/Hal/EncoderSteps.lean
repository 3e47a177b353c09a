import Ogre.Hal.PassCreation

/-! What one step of the encoder does: it constructs a render pass, or it records
commands that refer to tracked objects only. -/
namespace Ogre.Hal.Encoder
open Ogre.Core Ogre.Library Recorder

/-- What the passes have bound is tracked by their command buffers. -/
structure KeepsAlive (s : Encoder) : Prop where
  renderPasses : ∀ p ∈ s.renderPasses, p.KeepsAlive s.recorder
  computePasses : ∀ p ∈ s.computePasses, p.KeepsAlive s.recorder

variable {s t : Encoder} {a : Label}

/-- One command buffer has been recorded into. -/
def Encodes (s t : Encoder) : Prop := ∃ cmd, Recorder.Encodes cmd s.recorder t.recorder

theorem KeepsAlive.mono (h : s.KeepsAlive) (ht : ∀ c, (s.recorder.tracked c).Within (t.recorder.tracked c))
    (hrender : t.renderPasses = s.renderPasses) (hcompute : t.computePasses = s.computePasses) : t.KeepsAlive where
  renderPasses p hp := (h.renderPasses p (hrender ▸ hp)).mono ht
  computePasses p hp := (h.computePasses p (hcompute ▸ hp)).trans (ht _)

private theorem recorder_step {u : Recorder} {cmd : Nat} (h : s.KeepsAlive)
    (he : Recorder.Encodes cmd s.recorder u) :
    Encodes s { s with recorder := u } ∧ ({ s with recorder := u } : Encoder).KeepsAlive :=
  ⟨⟨cmd, he⟩, h.mono he.tracked rfl rfl⟩

private theorem onRenderPass_step {pass : Nat} {f : RenderPass → Option (RenderPass × Recorder)} (h : s.KeepsAlive)
    (hf : ∀ p r, p.KeepsAlive s.recorder → f p = some r →
      Recorder.Encodes p.commandBuffer s.recorder r.2 ∧ r.1.KeepsAlive r.2)
    (ht : s.onRenderPass pass f = some t) : Encodes s t ∧ t.KeepsAlive := by
  obtain ⟨r, hr, rfl⟩ := Option.map_eq_some_iff.mp ht
  obtain ⟨p, hp, hr⟩ := Option.bind_eq_some_iff.mp hr
  obtain ⟨hencodes, hkept⟩ := hf p r (h.renderPasses p (List.mem_of_getElem? hp)) hr
  refine ⟨⟨_, hencodes⟩, fun q hq => ?_, fun q hq => (h.computePasses q hq).trans (hencodes.tracked _)⟩
  rcases List.mem_or_eq_of_mem_set hq with hq | rfl
  · exact (h.renderPasses q hq).mono hencodes.tracked
  · exact hkept

private theorem onComputePass_step {pass : Nat} {f : ComputePass → Option (ComputePass × Recorder)}
    (h : s.KeepsAlive)
    (hf : ∀ p r, p.KeepsAlive s.recorder → f p = some r →
      Recorder.Encodes p.commandBuffer s.recorder r.2 ∧ r.1.KeepsAlive r.2)
    (ht : s.onComputePass pass f = some t) : Encodes s t ∧ t.KeepsAlive := by
  obtain ⟨r, hr, rfl⟩ := Option.map_eq_some_iff.mp ht
  obtain ⟨p, hp, hr⟩ := Option.bind_eq_some_iff.mp hr
  obtain ⟨hencodes, hkept⟩ := hf p r (h.computePasses p (List.mem_of_getElem? hp)) hr
  refine ⟨⟨_, hencodes⟩, fun q hq => (h.renderPasses q hq).mono hencodes.tracked, fun q hq => ?_⟩
  rcases List.mem_or_eq_of_mem_set hq with hq | rfl
  · exact (h.computePasses q hq).trans (hencodes.tracked _)
  · exact hkept

/-- The target that a render pass is constructed for. -/
def Label.target : Label → Option RenderTarget
  | .createRenderPass _ target _ _ => some target
  | _ => none

/-- The step constructs a render pass for the target. -/
def Constructs (s : Encoder) (a : Label) (target : RenderTarget) (color0 : Attachment) (t : Encoder) : Prop :=
  ∃ cmd createRenderPass createFramebuffer, a = .createRenderPass cmd target createRenderPass createFramebuffer ∧
    target.color0 = some color0 ∧ t = s.addRenderPass
      (RenderPass.create s.recorder cmd target color0 createRenderPass createFramebuffer)

private theorem constructs_of_step {cmd : Nat} {target : RenderTarget} {r f : Bool}
    (ht : step s (.createRenderPass cmd target r f) = some t) :
    ∃ color0, Constructs s (.createRenderPass cmd target r f) target color0 t := by
  simp only [step] at ht
  split at ht
  next color0 hcolor0 =>
    split at ht
    · cases ht
      exact ⟨color0, cmd, r, f, rfl, hcolor0, rfl⟩
    · cases ht
  next => cases ht

theorem step_encodes (h : s.KeepsAlive) (ha : a.target = none) (ht : step s a = some t) :
    Encodes s t ∧ t.KeepsAlive := by
  cases a with
  | createRenderPass => cases ha
  | setPipeline =>
    refine onRenderPass_step h (fun p r hp hr => ?_) ht
    cases hr
    exact ⟨.refl _ _, RenderPass.setPipeline_keepsAlive hp⟩
  | setStencilReference =>
    refine onRenderPass_step h (fun p r hp hr => ?_) ht
    cases hr
    exact RenderPass.setStencilReference_encodes hp
  | setBaseVertex | setElementCount | setInstanceCount =>
    refine onRenderPass_step h (fun p r hp hr => ?_) ht
    cases hr
    exact ⟨.refl _ _, hp.workspace, hp.colorImage⟩
  | setViewport | setScissor | encodeCommands =>
    refine onRenderPass_step h (fun p r hp hr => ?_) ht
    cases hr
    exact ⟨.recordPlain _ rfl rfl, hp.workspace, hp.colorImage⟩
  | setVertexBuffers =>
    refine onRenderPass_step h (fun p r hp hr => ?_) ht
    cases hr
    exact ⟨RenderPass.setVertexBuffers_encodes, hp.mono RenderPass.setVertexBuffers_encodes.tracked⟩
  | setIndexBuffer =>
    refine onRenderPass_step h (fun p r hp hr => ?_) ht
    cases hr
    exact RenderPass.setIndexBuffer_encodes hp
  | bindBuffer =>
    refine onRenderPass_step h (fun p r hp hr => ?_) ht
    obtain ⟨_, hbind, rfl⟩ := Option.map_eq_some_iff.mp hr
    exact RenderPass.bindBuffer_encodes hp hbind
  | bindTexture =>
    refine onRenderPass_step h (fun p r hp hr => ?_) ht
    cases hr
    exact RenderPass.bindTexture_encodes hp
  | draw =>
    refine onRenderPass_step h (fun p r hp hr => ?_) ht
    cases hr
    exact RenderPass.draw_encodes hp
  | copyTextureToTexture =>
    cases ht
    exact recorder_step h BlitPass.addCopyTextureToTexture_encodes
  | copyTextureToBuffer =>
    cases ht
    exact recorder_step h BlitPass.addCopyTextureToBuffer_encodes
  | copyBufferToTexture =>
    obtain ⟨_, hr, rfl⟩ := Option.map_eq_some_iff.mp ht
    exact recorder_step h (BlitPass.addCopyBufferToTexture_encodes hr)
  | resizeTexture =>
    cases ht
    exact recorder_step h BlitPass.resizeTexture_encodes
  | convertTextureToShaderRead =>
    cases ht
    exact recorder_step h BlitPass.convertTextureToShaderRead_encodes
  | generateMipmap =>
    cases ht
    exact recorder_step h BlitPass.generateMipmap_encodes
  | createComputePass cmd maxWorkgroupSize =>
    cases ht
    refine ⟨⟨cmd, .refl _ _⟩, h.renderPasses, fun p hp => ?_⟩
    rcases List.mem_append.mp hp with hp | hp
    · exact h.computePasses p hp
    · obtain rfl := List.mem_singleton.mp hp
      exact Workspace.references_empty
  | computeSetPipeline =>
    refine onComputePass_step h (fun p r hp hr => ?_) ht
    cases hr
    exact ComputePass.setPipeline_encodes hp
  | computeBindBuffer =>
    refine onComputePass_step h (fun p r hp hr => ?_) ht
    obtain ⟨_, hbind, rfl⟩ := Option.map_eq_some_iff.mp hr
    exact ComputePass.bindBuffer_encodes hp hbind
  | computeBindTexture =>
    refine onComputePass_step h (fun p r hp hr => ?_) ht
    obtain ⟨_, hbind, rfl⟩ := Option.map_eq_some_iff.mp hr
    exact ComputePass.bindTexture_encodes hp hbind
  | compute =>
    refine onComputePass_step h (fun p r hp hr => ?_) ht
    cases hr
    exact ComputePass.compute_encodes hp
  | addMemoryBarrier =>
    refine onComputePass_step h (fun p r hp hr => ?_) ht
    cases hr
    exact ⟨.recordPlain _ rfl rfl, hp⟩

theorem step_cases (h : s.KeepsAlive) (ht : step s a = some t) :
    (∃ target color0, Constructs s a target color0 t) ∨ a.target = none ∧ Encodes s t ∧ t.KeepsAlive := by
  cases htarget : a.target with
  | none => exact .inr ⟨rfl, step_encodes h htarget ht⟩
  | some target =>
    cases a with
    | createRenderPass cmd target r f => exact .inl ⟨target, constructs_of_step ht⟩
    | _ => cases htarget

/-- A construction keeps what the other passes need, and what its own pass needs is tracked. -/
theorem Constructs.keepsAlive {target : RenderTarget} {color0 : Attachment} (h : s.KeepsAlive)
    (hc : Constructs s a target color0 t) : t.KeepsAlive := by
  obtain ⟨cmd, r, f, -, hcolor0, rfl⟩ := hc
  obtain ⟨htracked, hpass⟩ := RenderPass.create_keepsAlive (s := s.recorder) cmd r f hcolor0
  refine ⟨fun p hp => ?_, fun p hp => (h.computePasses p hp).trans (htracked _)⟩
  rcases List.mem_append.mp hp with hp | hp
  · exact (h.renderPasses p hp).mono htracked
  · exact hpass p (by simpa using hp)

theorem step_keepsAlive (h : s.KeepsAlive) (ht : step s a = some t) : t.KeepsAlive := by
  rcases step_cases h ht with ⟨target, color0, hc⟩ | ⟨-, -, hkept⟩
  · exact hc.keepsAlive h
  · exact hkept

theorem init_keepsAlive {textures : Nat → TextureInfo} : (machine textures).init.KeepsAlive :=
  ⟨by simp [machine], by simp [machine]⟩

end Ogre.Hal.Encoder
