import Ogre.Core.TextureSizes
import Ogre.Hal.ImageLayouts

/-! Textures that wrap hardware buffers: what is made of the description of a buffer. -/
namespace Ogre.Hal
open Ogre.Core

inductive AHardwareBufferFormat
  | R8G8B8A8_UNORM
  | R8G8B8X8_UNORM
  | R8G8B8_UNORM
  | R5G6B5_UNORM
  | R16G16B16A16_FLOAT
  | R10G10B10A2_UNORM
  | BLOB
  | D16_UNORM
  | D24_UNORM
  | D24_UNORM_S8_UINT
  | D32_FLOAT
  | D32_FLOAT_S8_UINT
  | S8_UINT
  | Y8Cb8Cr8_420
  | YCbCr_P010
  | YCbCr_P210
  | R8_UNORM
  | R16_UINT
  | R16G16_UINT
  | R10G10B10A10_UNORM
  | unknown (format : UInt32)
  deriving DecidableEq, Repr

structure AHardwareBufferDesc where
  width : UInt32
  height : UInt32
  layers : UInt32
  format : AHardwareBufferFormat
  usage : UInt64
  deriving DecidableEq, Repr

/-- The bits of the usage that are looked at. -/
inductive AHardwareBufferUsage
  | GPU_SAMPLED_IMAGE
  | GPU_FRAMEBUFFER
  | PROTECTED_CONTENT
  | GPU_CUBE_MAP
  | GPU_MIPMAP_COMPLETE

def AHardwareBufferUsage.bit : AHardwareBufferUsage → UInt64
  | .GPU_SAMPLED_IMAGE => 0x100
  | .GPU_FRAMEBUFFER => 0x200
  | .PROTECTED_CONTENT => 0x4000
  | .GPU_CUBE_MAP => 0x2000000
  | .GPU_MIPMAP_COMPLETE => 0x4000000

def AHardwareBufferDesc.uses (desc : AHardwareBufferDesc) (usage : AHardwareBufferUsage) : Bool :=
  desc.usage &&& usage.bit ≠ 0

/-- The formats that the device tells of a buffer, of which most are only passed on. -/
inductive ImageFormat
  | eUndefined
  | eG8B8R83Plane420Unorm
  | eG8B8R82Plane420Unorm
  | eG8B8R83Plane422Unorm
  | eG8B8R82Plane422Unorm
  | eG8B8R83Plane444Unorm
  | other (format : UInt32)
  deriving DecidableEq, Repr

structure AHBProperties where
  format : ImageFormat
  externalFormat : UInt64
  deriving DecidableEq, Repr

inductive ImageUsageFlagBits
  | eSampled
  | eColorAttachment
  | eInputAttachment
  deriving DecidableEq, Repr

inductive ImageCreateFlagBits
  | eProtected
  | eCubeCompatible
  deriving DecidableEq, Repr

inductive ImageViewType
  | e2D
  | eCube
  deriving DecidableEq, Repr

inductive ComponentSwizzle
  | eIdentity
  | eOne
  deriving DecidableEq, Repr

/-- Two-dimensional images, of external memory. -/
structure ImageCreateInfo where
  format : ImageFormat
  width : UInt32
  height : UInt32
  depth : UInt32 := 1
  mipLevels : Nat
  arrayLayers : UInt32
  samples : SampleCountFlagBits := .e1
  usage : List ImageUsageFlagBits
  flags : List ImageCreateFlagBits
  initialLayout : ImageLayout := .eUndefined
  externalFormat : Option UInt64
  deriving DecidableEq, Repr

structure ImageViewCreateInfo where
  viewType : ImageViewType
  format : ImageFormat
  alpha : ComponentSwizzle
  baseMipLevel : Nat := 0
  levelCount : Nat
  baseArrayLayer : Nat := 0
  layerCount : UInt32
  conversion : Option Nat
  deriving DecidableEq, Repr

/-- External textures end the process here too. -/
def toVKImageViewType : TextureType → Option ImageViewType
  | .kTexture2D | .kTexture2DMultisample => some .e2D
  | .kTextureCube => some .eCube
  | .kTextureExternalOES => none

def requiresYCBCRConversion : ImageFormat → Bool
  | .eG8B8R83Plane420Unorm | .eG8B8R82Plane420Unorm | .eG8B8R83Plane422Unorm | .eG8B8R82Plane422Unorm
  | .eG8B8R83Plane444Unorm => true
  | _ => false

def isOpaque (format : AHardwareBufferFormat) : Bool := format = .R8G8B8X8_UNORM

/-- Formats that are not understood have a placeholder. -/
def toPixelFormat : AHardwareBufferFormat → PixelFormat
  | .R8G8B8A8_UNORM => .kR8G8B8A8UNormInt
  | .R16G16B16A16_FLOAT => .kR16G16B16A16Float
  | .D24_UNORM_S8_UINT => .kD24UnormS8Uint
  | .D32_FLOAT_S8_UINT => .kD32FloatS8UInt
  | .S8_UINT => .kS8UInt
  | .R8_UNORM => .kR8UNormInt
  | _ => .kR8G8B8A8UNormInt

namespace AHardwareBufferDesc

def size (desc : AHardwareBufferDesc) : Geometry.ISize := { width := desc.width.toNat, height := desc.height.toNat }

def toTextureType (desc : AHardwareBufferDesc) : TextureType :=
  if desc.layers = 1 then .kTexture2D
  else if desc.layers % 6 = 0 ∧ desc.uses .GPU_CUBE_MAP then .kTextureCube
  else .kTexture2D

def toTextureDescriptor (desc : AHardwareBufferDesc) : TextureDescriptor where
  storageMode := .kDevicePrivate
  format := toPixelFormat desc.format
  size := desc.size
  type := desc.toTextureType
  sampleCount := .kCount1
  mipCount := if desc.uses .GPU_MIPMAP_COMPLETE then desc.size.mipCount else 1

end AHardwareBufferDesc

namespace AHBTextureSource

/-- What the image is created with. -/
def createVKImageWrapper (props : AHBProperties) (desc : AHardwareBufferDesc) : ImageCreateInfo where
  usage := (if desc.uses .GPU_SAMPLED_IMAGE then [.eSampled] else []) ++
    if desc.uses .GPU_FRAMEBUFFER then [.eColorAttachment, .eInputAttachment] else []
  flags := (if desc.uses .PROTECTED_CONTENT then [.eProtected] else []) ++
    if desc.uses .GPU_CUBE_MAP then [.eCubeCompatible] else []
  format := props.format
  width := desc.width
  height := desc.height
  mipLevels := if desc.uses .GPU_MIPMAP_COMPLETE then desc.size.mipCount else 1
  arrayLayers := desc.layers
  externalFormat := if props.format = .eUndefined then some props.externalFormat else none

def createImageViewInfo (conversion : Option Nat) (props : AHBProperties) (desc : AHardwareBufferDesc) :
    ImageViewCreateInfo where
  viewType := .e2D
  format := props.format
  alpha := if isOpaque desc.format then .eOne else .eIdentity
  levelCount := if desc.uses .GPU_MIPMAP_COMPLETE then desc.size.mipCount else 1
  layerCount := desc.layers
  conversion := if props.format = .eUndefined ∨ requiresYCBCRConversion props.format then conversion else none

end AHBTextureSource

/-- What the calls for a new texture come to, the conversion being one that is valid. -/
structure AHBDevice where
  properties : Option AHBProperties
  createImage : ImageCreateInfo → Bool
  importDeviceMemory : ImageCreateInfo → AHBProperties → Bool
  bindImageMemory : Bool
  conversion : AHBProperties → Option Nat
  createImageView : ImageViewCreateInfo → Bool

/-- The image and the view stand as what they were created with. -/
structure AHBTextureSource where
  desc : TextureDescriptor
  needsYUVConversion : Bool := false
  image : Option ImageCreateInfo := none
  imageView : Option ImageViewCreateInfo := none
  isValid : Bool := false

namespace AHBTextureSource

def new (context : Option AHBDevice) (ahbDesc : AHardwareBufferDesc) : AHBTextureSource :=
  let source : AHBTextureSource := { desc := ahbDesc.toTextureDescriptor }
  match context with
  | none => source
  | some device =>
    match device.properties with
    | none => source
    | some props =>
      let image := createVKImageWrapper props ahbDesc
      if !device.createImage image then source
      else if !device.importDeviceMemory image props then source
      else if !device.bindImageMemory then source
      else
        let needsYUVConversion := props.format = .eUndefined || requiresYCBCRConversion props.format
        let source := { source with needsYUVConversion }
        let conversion := if needsYUVConversion then device.conversion props else none
        if needsYUVConversion && conversion.isNone then source
        else
          let imageView := createImageViewInfo conversion props ahbDesc
          if !device.createImageView imageView then source
          else { source with image, imageView, isValid := true }

end AHBTextureSource

def ImageCreateInfo.HasSubresource (image : ImageCreateInfo) (level layer : Nat) : Prop :=
  level < image.mipLevels ∧ layer < image.arrayLayers.toNat

/-- A barrier of `SetLayout` on a texture with the descriptor is one on all of the image from its
base level on. -/
def LayoutsReach (desc : TextureDescriptor) (image : ImageCreateInfo) : Prop :=
  ∀ (s : Recorder) (cmd texture : Nat) (layout : ImageLayout) (baseMipLevel : Nat),
    (s.sources texture).desc = desc → baseMipLevel < desc.mipCount → ∃ barrier,
      (s.setLayout cmd texture layout baseMipLevel).recorded.map (·.command) =
          s.recorded.map (·.command) ++ [.imageBarrier barrier] ∧
        ∀ level layer, barrier.Covers texture level layer ↔ baseMipLevel ≤ level ∧ image.HasSubresource level layer

/-- The descriptor tells of the image and of its view. -/
structure Describes (desc : TextureDescriptor) (image : ImageCreateInfo) (view : ImageViewCreateInfo) : Prop where
  width : (image.width.toNat : Int) = desc.size.width
  height : (image.height.toNat : Int) = desc.size.height
  mipLevels : image.mipLevels = desc.mipCount
  arrayLayers : image.arrayLayers.toNat = toArrayLayerCount desc.type
  levelCount : view.levelCount = desc.mipCount
  layerCount : view.layerCount.toNat = toArrayLayerCount desc.type
  viewType : some view.viewType = toVKImageViewType desc.type
  layouts : LayoutsReach desc image

namespace AHBTextureSource
variable {context : Option AHBDevice} {ahbDesc : AHardwareBufferDesc}

/-- The descriptor of a texture tells of what the texture has. -/
def DescribesItself (source : AHBTextureSource) : Prop :=
  ∃ image view, source.image = some image ∧ source.imageView = some view ∧ Describes source.desc image view

theorem desc_new : (new context ahbDesc).desc = ahbDesc.toTextureDescriptor := by
  unfold new
  dsimp only
  repeat' split
  all_goals rfl

/-- A valid texture has the image and the view of the buffer, as the device has its format. -/
theorem new_of_isValid (h : (new context ahbDesc).isValid) : ∃ props conversion,
    (new context ahbDesc).image = some (createVKImageWrapper props ahbDesc) ∧
      (new context ahbDesc).imageView = some (createImageViewInfo conversion props ahbDesc) := by
  generalize hsource : new context ahbDesc = source at h ⊢
  unfold new at hsource
  dsimp only at hsource
  repeat' split at hsource
  all_goals subst hsource
  all_goals first | exact ⟨_, _, rfl, rfl⟩ | cases h

end AHBTextureSource

section Descriptions
variable {desc : TextureDescriptor} {image : ImageCreateInfo}

private theorem setLayout_covers (s : Recorder) (cmd texture : Nat) (layout : ImageLayout) (baseMipLevel : Nat)
    (h : (s.sources texture).desc = desc) :
    ∃ barrier, (s.setLayout cmd texture layout baseMipLevel).recorded.map (·.command) =
        s.recorded.map (·.command) ++ [.imageBarrier barrier] ∧
      ∀ level layer, barrier.Covers texture level layer ↔
        baseMipLevel ≤ level ∧ level < desc.mipCount ∧ layer < toArrayLayerCount desc.type := by
  subst h
  refine ⟨_, List.map_append, fun level layer => ?_⟩
  unfold ImageBarrier.Covers
  dsimp only
  omega

/-- The barriers reach the image exactly if the descriptor has its levels and layers. -/
theorem layoutsReach_iff (hlevels : 0 < image.mipLevels) (hmips : image.mipLevels = desc.mipCount) :
    LayoutsReach desc image ↔ image.arrayLayers.toNat = toArrayLayerCount desc.type := by
  constructor
  · intro h
    let s : Recorder := { sources := fun _ => { desc } }
    obtain ⟨barrier, hbarrier, hreaches⟩ := h s 0 0 .eGeneral 0 rfl (hmips ▸ hlevels)
    obtain ⟨other, hother, hcovers⟩ := setLayout_covers s 0 0 .eGeneral 0 (rfl : _ = desc)
    obtain rfl : barrier = other := by simpa [hbarrier] using hother
    refine eq_of_forall_lt_iff fun layer => ?_
    have hlayer := (hreaches 0 layer).symm.trans (hcovers 0 layer)
    simpa [ImageCreateInfo.HasSubresource, hlevels, hmips ▸ hlevels] using hlayer
  · intro hlayers s cmd texture layout baseMipLevel hs _
    obtain ⟨barrier, hrecorded, hcovers⟩ := setLayout_covers s cmd texture layout baseMipLevel hs
    refine ⟨barrier, hrecorded, fun level layer => ?_⟩
    rw [hcovers, ImageCreateInfo.HasSubresource, hmips, hlayers]

theorem one_le_mipCount (size : Geometry.ISize) : 1 ≤ size.mipCount := by
  unfold Geometry.ISize.mipCount
  split
  · exact Nat.le_refl 1
  · exact Nat.le_max_right _ _

/-- With any other number of layers than one, either a cube is viewed as something flat, or the
layers from the second on are left out. -/
theorem layers_eq_one {ahbDesc : AHardwareBufferDesc}
    (hlayers : ahbDesc.layers.toNat = toArrayLayerCount ahbDesc.toTextureType)
    (hview : some ImageViewType.e2D = toVKImageViewType ahbDesc.toTextureType) : ahbDesc.layers = 1 := by
  unfold AHardwareBufferDesc.toTextureType at hlayers hview
  by_contra hne
  rw [if_neg hne] at hlayers hview
  split at hview
  · cases hview
  next hflat =>
    rw [if_neg hflat] at hlayers
    exact hne (UInt32.toNat.inj hlayers)

theorem describes_iff_layers (ahbDesc : AHardwareBufferDesc) (props : AHBProperties) (conversion : Option Nat) :
    Describes ahbDesc.toTextureDescriptor (AHBTextureSource.createVKImageWrapper props ahbDesc)
      (AHBTextureSource.createImageViewInfo conversion props ahbDesc) ↔ ahbDesc.layers = 1 := by
  constructor
  · exact fun h => layers_eq_one h.arrayLayers h.viewType
  · intro hone
    have htype : ahbDesc.toTextureType = .kTexture2D := if_pos hone
    have hlayers : ahbDesc.layers.toNat = toArrayLayerCount ahbDesc.toTextureType := by
      rw [htype, hone]
      rfl
    refine ⟨rfl, rfl, rfl, hlayers, rfl, hlayers, ?_, (layoutsReach_iff ?_ rfl).mpr hlayers⟩
    · exact (congrArg toVKImageViewType htype).symm
    · unfold AHBTextureSource.createVKImageWrapper
      dsimp only
      split
      · exact one_le_mipCount _
      · exact Nat.one_pos

end Descriptions

namespace AHBTextureSource

/-- A valid texture describes itself exactly if the buffer has one layer. -/
theorem describesItself_iff {context : Option AHBDevice} {ahbDesc : AHardwareBufferDesc}
    (h : (new context ahbDesc).isValid) : (new context ahbDesc).DescribesItself ↔ ahbDesc.layers = 1 := by
  obtain ⟨props, conversion, himage, hview⟩ := new_of_isValid h
  rw [← describes_iff_layers ahbDesc props conversion, DescribesItself, himage, hview, desc_new]
  constructor
  · rintro ⟨image, view, hi, hv, hdescribes⟩
    obtain rfl := Option.some.inj hi
    obtain rfl := Option.some.inj hv
    exact hdescribes
  · exact fun hdescribes => ⟨_, _, rfl, rfl, hdescribes⟩

/-- A device on which all calls succeed, for a format of its own. -/
private def anyBuffer : AHBDevice where
  properties := some ⟨.other 37, 0⟩
  createImage _ := true
  importDeviceMemory _ _ := true
  bindImageMemory := true
  conversion _ := none
  createImageView _ := true

theorem describesItself_of_flat :
    (new (some anyBuffer) ⟨640, 480, 1, .R8G8B8A8_UNORM, 0x100⟩).isValid ∧
      (new (some anyBuffer) ⟨640, 480, 1, .R8G8B8A8_UNORM, 0x100⟩).DescribesItself :=
  ⟨by decide, (describesItself_iff (by decide)).mpr rfl⟩

/-- The faces of a cube are viewed as layers of something flat, and of two layers one is forgotten. -/
theorem describesItself_fails :
    (new (some anyBuffer) ⟨512, 512, 6, .R8G8B8A8_UNORM, 0x2000100⟩).isValid ∧
    ¬ (new (some anyBuffer) ⟨512, 512, 6, .R8G8B8A8_UNORM, 0x2000100⟩).DescribesItself ∧
    (new (some anyBuffer) ⟨640, 480, 2, .R8G8B8A8_UNORM, 0x100⟩).isValid ∧
    ¬ (new (some anyBuffer) ⟨640, 480, 2, .R8G8B8A8_UNORM, 0x100⟩).DescribesItself := by
  refine ⟨by decide, ?_, by decide, ?_⟩
  · rintro ⟨image, view, himage, hview, h⟩
    obtain rfl := Option.some.inj hview
    exact absurd h.viewType (by decide)
  · rintro ⟨image, view, himage, hview, h⟩
    obtain rfl := Option.some.inj himage
    exact absurd h.arrayLayers (by decide)

end AHBTextureSource
end Ogre.Hal
