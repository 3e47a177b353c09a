import Ogre.Core.TextureSizes
import Ogre.Hal.LayoutTracking
import Ogre.Hal.RecordedCommands

/-! Mipmaps of textures from the allocator: the blits that each level is made with, and the layouts
that the levels have at each barrier. -/
namespace Ogre.Core

/-- `created` tells whether there is a valid source in the end. -/
def onCreateTexture (desc : TextureDescriptor) (created : Bool) : Option TextureDescriptor :=
  if created then some desc else none

/-- The descriptor that the texture has. -/
def createTexture (maxSize : Geometry.ISize) (desc : TextureDescriptor) (created : Bool) :
    Option TextureDescriptor :=
  if desc.size.width > maxSize.width ∨ desc.size.height > maxSize.height then none
  else if desc.mipCount > desc.size.mipCount then
    onCreateTexture { desc with mipCount := desc.size.mipCount } created
  else onCreateTexture desc created

variable {maxSize : Geometry.ISize} {desc texture : TextureDescriptor} {created : Bool}

end Ogre.Core

namespace Ogre.Geometry.ISize
variable {size : Geometry.ISize} {level : Nat}

end Ogre.Geometry.ISize

namespace Ogre.Hal.BlitPass
open Ogre.Core Ogre.Library Ogre.Geometry Recorder

/-- What a command finds: barriers the old layouts of all that they cover, and blits a level to
read from and one to write to. -/
def FindsLayouts (textures : Nat → TextureInfo) (l : ImageLayouts) (command : Command) : Prop :=
  (∀ b ∈ command.transitions textures, ∀ texture level layer, (textures texture).HasSubresource level layer →
    b.Covers texture level layer → l texture level layer = b.oldLayout) ∧
  match command with
  | .blitImage source destination sourceLevel destinationLevel _ _ =>
    l source sourceLevel 0 = .eTransferSrcOptimal ∧ l destination destinationLevel 0 = .eTransferDstOptimal
  | _ => True

variable {s t u : Recorder} {cmd texture : Nat} {l : ImageLayouts} {commands : List Command}
  {textures : Nat → TextureInfo} {levels : Nat → ImageLayout}

/-- The layouts of the levels once the commands are executed. -/
private def Reaches (textures : Nat → TextureInfo) (texture : Nat) (l : ImageLayouts) (commands : List Command)
    (levels : Nat → ImageLayout) : Prop :=
  ∃ after, Replays (ImageLayouts.execute textures) (FindsLayouts textures) l commands after ∧
    ∀ level layer, (textures texture).HasSubresource level layer → after texture level layer = levels level

private theorem Reaches.mipBarrier (old new : ImageLayout) (base count : Nat) (next : Nat → ImageLayout)
    (hlayers : toArrayLayerCount (textures texture).desc.type = 1) (h : Reaches textures texture l commands levels)
    (hold : ∀ level, base ≤ level → level < base + count → levels level = old)
    (hin : ∀ level, base ≤ level → level < base + count → next level = new)
    (hout : ∀ level, level < (textures texture).desc.mipCount → ¬ (base ≤ level ∧ level < base + count) →
      next level = levels level) :
    Reaches textures texture l (commands ++ [BlitPass.mipBarrier texture old new base count]) next := by
  obtain ⟨after, hreplays, hlevels⟩ := h
  refine ⟨_, hreplays.concat ⟨?_, trivial⟩, ?_⟩
  · intro b hb other level layer hsub hcovers
    obtain rfl := List.mem_singleton.mp hb
    obtain ⟨rfl, hlevel, -⟩ := hcovers
    rw [hlevels level layer hsub, hold level hlevel.1 hlevel.2]
  · intro level layer hsub
    have hlayer : layer < 1 := hlayers ▸ hsub.2
    by_cases hlevel : base ≤ level ∧ level < base + count
    · rw [hin level hlevel.1 hlevel.2]
      exact ImageLayouts.transition_of_covers ⟨rfl, hlevel, hlayer⟩
    · rw [hout level hsub.1 hlevel, ← hlevels level layer hsub]
      exact ImageLayouts.transition_of_not_covers fun hcovers => hlevel hcovers.2.1

private theorem Reaches.blitImage {level : Nat} (source destination : Geometry.ISize)
    (hlayers : toArrayLayerCount (textures texture).desc.type = 1) (h : Reaches textures texture l commands levels)
    (hlevel : level + 1 < (textures texture).desc.mipCount) (hsource : levels level = .eTransferSrcOptimal)
    (hdestination : levels (level + 1) = .eTransferDstOptimal) :
    Reaches textures texture l (commands ++ [.blitImage texture texture level (level + 1) source destination])
      levels := by
  obtain ⟨after, hreplays, hlevels⟩ := h
  have hlayer : 0 < toArrayLayerCount (textures texture).desc.type := by rw [hlayers]; exact Nat.one_pos
  refine ⟨_, hreplays.concat ⟨?_, ?_, ?_⟩, hlevels⟩
  · intro b hb
    cases hb
  · rw [hlevels level 0 ⟨by omega, hlayer⟩, hsource]
  · rw [hlevels (level + 1) 0 ⟨hlevel, hlayer⟩, hdestination]

end Ogre.Hal.BlitPass
