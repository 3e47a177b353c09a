import Ogre.Hal.Recording

/-! Blit passes: copies between textures and buffers, resizes, layout conversions and
mipmap generation. Each command is checked, then tracked, then recorded. -/
namespace Ogre.Hal.BlitPass
open Ogre.Core Ogre.Geometry

/-- A number as a `size_t`. -/
def toSizeT (x : Int) : Nat := (x % 18446744073709551616).toNat

/-- A number as an `int32_t`. -/
def toInt32 (n : Int) : Int := (n + 2147483648) % 4294967296 - 2147483648

/-- A number as a `uint32_t`. -/
def toUInt32 (n : Int) : Int := n % 4294967296

/-- `saturated::Sub`. -/
def saturatedSub (a b : Int) : Int := max (-9223372036854775808) (min 9223372036854775807 (a - b))

/-- What a copy with the offset and the extent of a region is of. -/
def copiedRegion (region : IRect) : IRect where
  left := toInt32 region.left
  top := toInt32 region.top
  right := toInt32 region.left + toUInt32 (saturatedSub region.right region.left)
  bottom := toInt32 region.top + toUInt32 (saturatedSub region.bottom region.top)

/-- Where a copy goes with the offset of an origin. -/
def copiedOrigin (origin : IPoint) : IPoint := ⟨toInt32 origin.x, toInt32 origin.y⟩

/-- `region.Area() * bytes_per_pixel`, which wraps. -/
def bytesPerRegion (region : IRect) (format : PixelFormat) : Nat :=
  toSizeT region.area * bytesPerPixelForPixelFormat format % 18446744073709551616

/-- Regions and origins are recorded before they are narrowed, to `copiedRegion` and `copiedOrigin`. -/
def onCopyTextureToTextureCommand (s : Recorder) (cmd source destination : Nat) (sourceRegion : IRect)
    (destinationOrigin : IPoint) : Recorder :=
  let s := (s.trackTexture cmd source).trackTexture cmd destination
  let s := (s.setLayout cmd source .eTransferSrcOptimal 0).setLayout cmd destination .eTransferDstOptimal 0
  let s := s.record cmd (.copyImage source destination sourceRegion destinationOrigin)
  -- an onscreen texture is not put back to be read by shaders
  if (s.sources destination).isSwapchainImage then s
  else s.setLayout cmd destination .eShaderReadOnlyOptimal 0

def addCopyTextureToTexture (s : Recorder) (cmd : Nat) (source destination : Option Nat)
    (sourceRegion : Option IRect) (destinationOrigin : IPoint) : Bool × Recorder :=
  match source, destination with
  | some source, some destination =>
    if (s.desc source).sampleCount ≠ (s.desc destination).sampleCount then (false, s)
    else if (s.desc source).format ≠ (s.desc destination).format then (false, s)
    else
      let whole := IRect.makeSize (s.desc source).size
      match (sourceRegion.getD whole).intersection whole with
      | none => (true, s)
      | some region => (true, onCopyTextureToTextureCommand s cmd source destination region destinationOrigin)
  | _, _ => (false, s)

/-- `readback` tells whether the host reads the buffer. -/
def onCopyTextureToBufferCommand (s : Recorder) (cmd source : Nat) (destination : DeviceBuffer) (readback : Bool)
    (sourceRegion : IRect) (destinationOffset : Nat) : Recorder :=
  let s := (s.trackTexture cmd source).trackBuffer cmd destination
  let s := s.setLayout cmd source .eTransferSrcOptimal 0
  let s := s.record cmd (.copyImageToBuffer source destination sourceRegion destinationOffset)
  if readback then s.record cmd .memoryBarrier else s

def addCopyTextureToBuffer (s : Recorder) (cmd : Nat) (source : Option Nat) (destination : Option DeviceBuffer)
    (readback : Bool) (sourceRegion : Option IRect) (destinationOffset : Nat) : Bool × Recorder :=
  match source, destination with
  | some source, some destination =>
    let whole := IRect.makeSize (s.desc source).size
    let region := sourceRegion.getD whole
    if sizeAdd destinationOffset (bytesPerRegion region (s.desc source).format) > destination.size then (false, s)
    else match region.intersection whole with
      | none => (true, s)
      | some region =>
        (true, onCopyTextureToBufferCommand s cmd source destination readback region destinationOffset)
  | _, _ => (false, s)

def convertTextureToShaderRead (s : Recorder) (cmd texture : Nat) : Recorder :=
  (s.trackTexture cmd texture).setLayout cmd texture .eShaderReadOnlyOptimal 0

/-- The buffer of an empty view is dereferenced. -/
def onCopyBufferToTextureCommand (s : Recorder) (cmd : Nat) (source : BufferView) (destination : Nat)
    (destinationRegion : IRect) (mipLevel slice : Nat) (convertToRead : Bool) : Option Recorder :=
  if source.getBuffer.isNone then none
  else
    let s := (s.trackView cmd source).trackTexture cmd destination
    let s := s.setLayout cmd destination .eTransferDstOptimal 0
    let s := s.record cmd (.copyBufferToImage source destination destinationRegion mipLevel slice)
    some (if convertToRead then s.setLayout cmd destination .eShaderReadOnlyOptimal 0 else s)

def addCopyBufferToTexture (s : Recorder) (cmd : Nat) (source : BufferView) (destination : Option Nat)
    (destinationRegion : Option IRect) (mipLevel slice : Nat) (convertToRead : Bool) : Option (Bool × Recorder) :=
  match destination with
  | none => some (false, s)
  | some destination =>
    let size := (s.desc destination).size
    let region := destinationRegion.getD (IRect.makeSize size)
    if region.left < 0 ∨ region.top < 0 ∨ region.right > size.width ∨ region.bottom > size.height then
      some (false, s)
    else if source.range.length ≠ bytesPerRegion region (s.desc destination).format then some (false, s)
    else if (s.desc destination).mipCount ≤ mipLevel then some (false, s)
    else if slice > 5 then some (false, s)
    else (onCopyBufferToTextureCommand s cmd source destination region mipLevel slice convertToRead).map
      fun s => (true, s)

def resizeTexture (s : Recorder) (cmd source destination : Nat) : Recorder :=
  let extent (texture : Nat) : Geometry.ISize :=
    ⟨max (toInt32 (s.desc texture).size.width) 1, max (toInt32 (s.desc texture).size.height) 1⟩
  let blit := Command.blitImage source destination 0 0 (extent source) (extent destination)
  let s := (s.trackTexture cmd source).trackTexture cmd destination
  let s := (s.setLayout cmd source .eTransferSrcOptimal 0).setLayout cmd destination .eTransferDstOptimal 0
  (s.record cmd blit).setLayout cmd destination .eShaderReadOnlyOptimal 0

/-- A barrier on mip levels of the first array layer. -/
def mipBarrier (texture : Nat) (oldLayout newLayout : ImageLayout) (baseMipLevel levelCount : Nat) : Command :=
  .imageBarrier { texture, oldLayout, newLayout, baseMipLevel, levelCount, layerCount := 1 }

/-- `InsertImageMemoryBarrier`. -/
def insertImageMemoryBarrier (s : Recorder) (cmd texture : Nat) (oldLayout newLayout : ImageLayout)
    (baseMipLevel levelCount : Nat) : Recorder :=
  if oldLayout = newLayout then s
  else s.record cmd (mipBarrier texture oldLayout newLayout baseMipLevel levelCount)

/-- The loop over the mip levels from `mipLevel` on, of which `count` are left. The size
is that of the level before. -/
def blitMipLevels (s : Recorder) (cmd texture : Nat) (size : Geometry.ISize) (mipLevel : Nat) : Nat → Recorder
  | 0 => s
  | count + 1 =>
    let s := s.record cmd (mipBarrier texture .eTransferDstOptimal .eTransferSrcOptimal (mipLevel - 1) 1)
    let half : Geometry.ISize := ⟨size.width / 2, size.height / 2⟩
    let s := if half.width ≤ 1 ∨ half.height ≤ 1 then s
      else s.record cmd (.blitImage texture texture (mipLevel - 1) mipLevel
        ⟨max (toInt32 size.width) 1, max (toInt32 size.height) 1⟩
        ⟨max (toInt32 half.width) 1, max (toInt32 half.height) 1⟩)
    blitMipLevels s cmd texture half (mipLevel + 1) count

def onGenerateMipmapCommand (s : Recorder) (cmd texture : Nat) : Recorder :=
  let mipCount := (s.desc texture).mipCount
  if mipCount < 2 then s
  else
    let s := s.trackTexture cmd texture
    let s := insertImageMemoryBarrier s cmd texture (s.sources texture).layout .eTransferDstOptimal 0 mipCount
    let s := blitMipLevels s cmd texture (s.desc texture).size 1 (mipCount - 1)
    let s := s.record cmd (mipBarrier texture .eTransferDstOptimal .eTransferSrcOptimal (mipCount - 1) 1)
    let s := s.record cmd (mipBarrier texture .eTransferSrcOptimal .eShaderReadOnlyOptimal 0 mipCount)
    s.setLayoutWithoutEncoding texture .eShaderReadOnlyOptimal

def generateMipmap (s : Recorder) (cmd : Nat) (texture : Option Nat) : Bool × Recorder :=
  match texture with
  | none => (false, s)
  | some texture => (true, onGenerateMipmapCommand s cmd texture)

end Ogre.Hal.BlitPass
