import Ogre.Geometry.Rect

/-! What textures and attachments are described by. -/
namespace Ogre.Core

inductive StorageMode
  | kHostVisible
  | kDevicePrivate
  | kDeviceTransient
  deriving DecidableEq, Repr

inductive PixelFormat
  | kUnknown
  | kA8UNormInt
  | kR8UNormInt
  | kR8G8UNormInt
  | kR8G8B8A8UNormInt
  | kR8G8B8A8UNormIntSRGB
  | kB8G8R8A8UNormInt
  | kB8G8R8A8UNormIntSRGB
  | kR32G32B32A32Float
  | kR16G16B16A16Float
  | kB10G10R10XR
  | kB10G10R10XRSRGB
  | kB10G10R10A10XR
  | kR32Float
  | kS8UInt
  | kD24UnormS8Uint
  | kD32FloatS8UInt
  deriving DecidableEq, Repr

def bytesPerPixelForPixelFormat : PixelFormat → Nat
  | .kUnknown => 0
  | .kA8UNormInt | .kR8UNormInt | .kS8UInt => 1
  | .kR8G8UNormInt => 2
  | .kR8G8B8A8UNormInt | .kR8G8B8A8UNormIntSRGB | .kB8G8R8A8UNormInt | .kB8G8R8A8UNormIntSRGB
  | .kB10G10R10XRSRGB | .kB10G10R10XR | .kR32Float => 4
  | .kD24UnormS8Uint => 4
  | .kD32FloatS8UInt => 5
  | .kR16G16B16A16Float | .kB10G10R10A10XR => 8
  | .kR32G32B32A32Float => 16

inductive LoadAction
  | kDontCare
  | kLoad
  | kClear
  deriving DecidableEq, Repr

inductive StoreAction
  | kDontCare
  | kStore
  | kMultisampleResolve
  | kStoreAndMultisampleResolve
  deriving DecidableEq, Repr

inductive TextureType
  | kTexture2D
  | kTexture2DMultisample
  | kTextureCube
  | kTextureExternalOES
  deriving DecidableEq, Repr

inductive SampleCount
  | kCount1
  | kCount4
  deriving DecidableEq, Repr

inductive IndexType
  | kUnknown
  | k16bit
  | k32bit
  | kNone
  deriving DecidableEq, Repr

structure TextureDescriptor where
  storageMode : StorageMode := .kDeviceTransient
  type : TextureType := .kTexture2D
  format : PixelFormat := .kUnknown
  size : Geometry.ISize := {}
  mipCount : Nat := 1
  sampleCount : SampleCount := .kCount1
  deriving DecidableEq, Repr

end Ogre.Core
