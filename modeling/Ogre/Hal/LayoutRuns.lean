import Ogre.Hal.PassLayouts

/-! Runs of the encoder after which every texture has the layout that is tracked for it. -/
namespace Ogre.Hal
open Ogre.Core Ogre.Library Recorder

section Passes
variable {textures : Nat → TextureInfo} {s : Recorder}

namespace RenderPass
variable {p : RenderPass}

end RenderPass

namespace ComputePass
variable {p : ComputePass}

end ComputePass
end Passes

namespace Encoder

/-- The pass that is constructed leaves each texture in the layout that it is told: with
the objects that its slot holds, or else with those that are made for its target. -/
def Construction.LayoutsAgree (c : Construction) : Prop :=
  let isSwapchain := RenderPass.isSwapchainTarget c.recorder c.color0
  match c.recorder.cachedObjects c.slot with
  | some objects =>
    let attachments := objects.views.zip objects.renderPass.attachments
    ∀ texture ∈ c.color0.texture :: c.color0.resolveTexture.toList ++ attachments.map (·.1),
      RenderPass.AgreesAt c.recorder c.color0 isSwapchain attachments texture
  | none => RenderPass.FreshAgrees c.recorder c.target c.color0 isSwapchain

/-- The texture that mipmaps are generated of. -/
def Label.mipmapTexture : Label → Option Nat
  | .generateMipmap _ texture => texture
  | _ => none

/-- The passes that are constructed and the mipmaps that are generated keep the layouts together. -/
def LayoutsAgree (s : Encoder) (a : Label) (_ : Encoder) : Prop :=
  (∀ c ∈ s.construction a, c.LayoutsAgree) ∧
    ∀ texture ∈ a.mipmapTexture, BlitPass.MipmapAgrees s.recorder texture

/-- After the step the layout that is tracked for each texture is the one of its image. -/
def TracksLayouts (textures : Nat → TextureInfo) (_ : Encoder) (_ : Label) (t : Encoder) : Prop :=
  t.recorder.TracksLayouts textures

instance (c : Construction) : Decidable c.LayoutsAgree := by
  unfold Construction.LayoutsAgree
  dsimp only
  split <;> infer_instance

instance (s t : Encoder) (a : Label) : Decidable (LayoutsAgree s a t) := inferInstanceAs (Decidable (_ ∧ _))

variable {textures : Nat → TextureInfo} {s t : Encoder} {a : Label}

end Encoder
end Ogre.Hal
