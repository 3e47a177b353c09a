import Ogre.Core.Formats

/-! The terms of the device, and how attachments and textures are put in them. -/
namespace Ogre.Hal
open Ogre.Core

inductive VkFormat
  | eUndefined
  | eR8Unorm
  | eR8G8Unorm
  | eR8G8B8A8Unorm
  | eR8G8B8A8Srgb
  | eB8G8R8A8Unorm
  | eB8G8R8A8Srgb
  | eR32Sfloat
  | eR32G32B32A32Sfloat
  | eR16G16B16A16Sfloat
  | eS8Uint
  | eD24UnormS8Uint
  | eD32SfloatS8Uint
  deriving DecidableEq, Repr

inductive SampleCountFlagBits
  | e1
  | e4
  deriving DecidableEq, Repr

inductive AttachmentLoadOp
  | eLoad
  | eClear
  | eDontCare
  deriving DecidableEq, Repr

inductive AttachmentStoreOp
  | eStore
  | eDontCare
  deriving DecidableEq, Repr

inductive ImageLayout
  | eUndefined
  | eGeneral
  | eColorAttachmentOptimal
  | eDepthStencilAttachmentOptimal
  | eShaderReadOnlyOptimal
  | eTransferSrcOptimal
  | eTransferDstOptimal
  | ePresentSrcKHR
  deriving DecidableEq, Repr

def toVKImageFormat : PixelFormat → VkFormat
  | .kUnknown | .kB10G10R10XR | .kB10G10R10A10XR | .kB10G10R10XRSRGB => .eUndefined
  | .kA8UNormInt => .eR8Unorm
  | .kR8G8B8A8UNormInt => .eR8G8B8A8Unorm
  | .kR8G8B8A8UNormIntSRGB => .eR8G8B8A8Srgb
  | .kB8G8R8A8UNormInt => .eB8G8R8A8Unorm
  | .kB8G8R8A8UNormIntSRGB => .eB8G8R8A8Srgb
  | .kR32G32B32A32Float => .eR32G32B32A32Sfloat
  | .kR16G16B16A16Float => .eR16G16B16A16Sfloat
  | .kS8UInt => .eS8Uint
  | .kD24UnormS8Uint => .eD24UnormS8Uint
  | .kD32FloatS8UInt => .eD32SfloatS8Uint
  | .kR8UNormInt => .eR8Unorm
  | .kR8G8UNormInt => .eR8G8Unorm
  | .kR32Float => .eR32Sfloat

def toVKSampleCount : SampleCount → SampleCountFlagBits
  | .kCount1 => .e1
  | .kCount4 => .e4

def toVKAttachmentLoadOp : LoadAction → AttachmentLoadOp
  | .kLoad => .eLoad
  | .kClear => .eClear
  | .kDontCare => .eDontCare

def toVKAttachmentStoreOp (storeAction : StoreAction) (isResolveTexture : Bool) : AttachmentStoreOp :=
  match storeAction with
  | .kStore => .eStore
  | .kDontCare => .eDontCare
  | .kMultisampleResolve => if isResolveTexture then .eStore else .eDontCare
  | .kStoreAndMultisampleResolve => .eStore

def storeActionPerformsResolve : StoreAction → Bool
  | .kDontCare | .kStore => false
  | .kMultisampleResolve | .kStoreAndMultisampleResolve => true

/-- External textures are none of the device's, and the process ends where one is met. -/
def toArrayLayerCount : TextureType → Nat
  | .kTexture2D | .kTexture2DMultisample => 1
  | .kTextureCube => 6
  | .kTextureExternalOES => 0

end Ogre.Hal
