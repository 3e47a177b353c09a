import Ogre.Core.Formats

/-! What the sizes of textures make of them: mip levels, bytes, and whether they are valid. -/
namespace Ogre.Geometry.ISize

def isEmpty (size : Geometry.ISize) : Bool := !(size.width > 0 && size.height > 0)

def area (size : Geometry.ISize) : Int := size.width * size.height

/-- Logarithms are exact, and the lesser one is truncated. -/
def mipCount (size : Geometry.ISize) : Nat :=
  if size.isEmpty ∨ size.width ≤ 0 ∨ size.height ≤ 0 then 1
  else max (min (Nat.log2 size.width.toNat) (Nat.log2 size.height.toNat)) 1

end Ogre.Geometry.ISize

namespace Ogre.Core

def isMultisampleCapable : TextureType → Bool
  | .kTexture2D | .kTextureCube | .kTextureExternalOES => false
  | .kTexture2DMultisample => true

def SampleCount.count : SampleCount → Nat
  | .kCount1 => 1
  | .kCount4 => 4

namespace TextureDescriptor

def samplingOptionsAreValid (desc : TextureDescriptor) : Bool :=
  if isMultisampleCapable desc.type then desc.sampleCount.count > 1 else desc.sampleCount.count = 1

def isValid (desc : TextureDescriptor) : Bool :=
  desc.format ≠ .kUnknown && !desc.size.isEmpty && desc.mipCount ≥ 1 && desc.samplingOptionsAreValid

/-- A `size_t`, which wraps. -/
def getByteSizeOfBaseMipLevel (desc : TextureDescriptor) : Nat :=
  if !desc.isValid then 0
  else (desc.size.area * bytesPerPixelForPixelFormat desc.format % 18446744073709551616).toNat

end TextureDescriptor
end Ogre.Core
