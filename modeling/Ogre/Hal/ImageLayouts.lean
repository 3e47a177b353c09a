import Ogre.Hal.Recording
import Ogre.Library.History

/-! The layouts that images have once the recorded commands are executed in their order. -/
namespace Ogre.Hal
open Ogre.Core Ogre.Library

/-- The layouts of all images, by mip level and array layer. -/
abbrev ImageLayouts := Nat → Nat → Nat → ImageLayout

def TextureInfo.HasSubresource (t : TextureInfo) (level layer : Nat) : Prop :=
  level < t.desc.mipCount ∧ layer < toArrayLayerCount t.desc.type

def ImageBarrier.Covers (b : ImageBarrier) (texture level layer : Nat) : Prop :=
  texture = b.texture ∧ (b.baseMipLevel ≤ level ∧ level < b.baseMipLevel + b.levelCount) ∧ layer < b.layerCount

instance (t : TextureInfo) (level layer : Nat) : Decidable (t.HasSubresource level layer) :=
  inferInstanceAs (Decidable (_ ∧ _))

instance (b : ImageBarrier) (texture level layer : Nat) : Decidable (b.Covers texture level layer) :=
  inferInstanceAs (Decidable (_ ∧ _ ∧ _))

/-- The transition that a render pass does of an attachment, as a barrier on what the
render target view of its texture covers. -/
def attachmentTransition (textures : Nat → TextureInfo) (a : Nat × AttachmentDescription) : ImageBarrier where
  texture := a.1
  oldLayout := a.2.initialLayout
  newLayout := a.2.finalLayout
  baseMipLevel := 0
  levelCount := (textures a.1).renderTargetLevels
  layerCount := toArrayLayerCount (textures a.1).desc.type

/-- The transitions that a command does. Render passes are taken as a whole where they begin. -/
def Command.transitions (textures : Nat → TextureInfo) : Command → List ImageBarrier
  | .imageBarrier barrier => [barrier]
  | .beginRenderPass renderPass framebuffer _ =>
    (framebuffer.views.zip renderPass.info.attachments).map (attachmentTransition textures)
  | _ => []

namespace ImageLayouts
variable {l : ImageLayouts} {b : ImageBarrier} {bs : List ImageBarrier} {textures : Nat → TextureInfo}
  {texture level layer : Nat} {layout : ImageLayout}

def transition (l : ImageLayouts) (b : ImageBarrier) : ImageLayouts := fun texture level layer =>
  if b.Covers texture level layer then b.newLayout else l texture level layer

def execute (textures : Nat → TextureInfo) (l : ImageLayouts) (command : Command) : ImageLayouts :=
  (command.transitions textures).foldl transition l

/-- The old layout of a barrier is undefined, or else the one of all that it covers. -/
def Matches (textures : Nat → TextureInfo) (l : ImageLayouts) (b : ImageBarrier) : Prop :=
  b.oldLayout = .eUndefined ∨ ∀ texture level layer, (textures texture).HasSubresource level layer →
    b.Covers texture level layer → l texture level layer = b.oldLayout

/-- What the command asks of the layouts before it. -/
def Expects (textures : Nat → TextureInfo) (l : ImageLayouts) (command : Command) : Prop :=
  ∀ b ∈ command.transitions textures, Matches textures l b

theorem transition_of_covers (h : b.Covers texture level layer) :
    l.transition b texture level layer = b.newLayout := if_pos h

theorem transition_of_not_covers (h : ¬ b.Covers texture level layer) :
    l.transition b texture level layer = l texture level layer := if_neg h

end ImageLayouts

namespace Recorder

/-- The recorded commands can be executed one after the other, with every old and every
initial layout as it is expected, and then all mip levels and array layers of each
texture have its tracked layout. No image has a layout at the beginning. -/
def TracksLayouts (textures : Nat → TextureInfo) (s : Recorder) : Prop :=
  ∃ layouts, Replays (ImageLayouts.execute textures) (ImageLayouts.Expects textures) (fun _ _ _ => .eUndefined)
      (s.recorded.map (·.command)) layouts ∧
    ∀ texture level layer, (textures texture).HasSubresource level layer →
      layouts texture level layer = (s.sources texture).layout

end Recorder
end Ogre.Hal
