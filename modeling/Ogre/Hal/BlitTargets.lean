import Ogre.Hal.BlitBounds
import Ogre.Hal.ImageLayouts
import Ogre.Hal.RecordedCommands

/-! Copies into textures: whether they stay in the mip level and the slice that they are for. -/
namespace Ogre.Hal.BlitPass
open Ogre.Core Ogre.Geometry Recorder

/-- A region of the same size somewhere else. -/
def translated (region : IRect) (origin : IPoint) : IRect :=
  ⟨origin.x, origin.y, origin.x + region.width, origin.y + region.height⟩

theorem texels_subset_iff {r o : IRect} (hx : r.left < r.right) (hy : r.top < r.bottom) :
    texels r ⊆ texels o ↔ (o.left ≤ r.left ∧ r.right ≤ o.right) ∧ o.top ≤ r.top ∧ r.bottom ≤ o.bottom := by
  constructor
  · intro h
    have hfirst : (r.left, r.top) ∈ texels r := ⟨⟨le_rfl, hx⟩, le_rfl, hy⟩
    have hlast : (r.right - 1, r.bottom - 1) ∈ texels r := by
      refine ⟨⟨?_, ?_⟩, ?_, ?_⟩ <;> dsimp only <;> omega
    obtain ⟨⟨hleft, -⟩, htop, -⟩ := h hfirst
    obtain ⟨⟨-, hright⟩, -, hbottom⟩ := h hlast
    dsimp only at hleft htop hright hbottom
    refine ⟨⟨hleft, ?_⟩, htop, ?_⟩ <;> omega
  · rintro ⟨⟨hl, hr⟩, ht, hb⟩ ⟨x, y⟩ ⟨⟨hxl, hxr⟩, hyt, hyb⟩
    exact ⟨⟨hl.trans hxl, hxr.trans_le hr⟩, ht.trans hyt, hyb.trans_le hb⟩

section TextureToTexture

/-- A copy between textures reads from the base level of the source, and writes to the base
level of the destination. Between images, neither its region nor its origin is narrowed. -/
def CopyInside (s : Recorder) (source destination : Nat) : Command → Prop
  | .copyImage texture target region origin =>
    texture = source ∧ target = destination ∧
    texels region ⊆ texels (IRect.makeSize (s.desc source).size) ∧
    texels (translated region origin) ⊆ texels (IRect.makeSize (s.desc destination).size) ∧
    (IsImage (s.desc source) → IsImage (s.desc destination) →
      copiedRegion region = region ∧ copiedOrigin origin = origin)
  | _ => True

def CopyStaysInside (s : Recorder) (cmd source destination : Nat) (sourceRegion : Option IRect)
    (destinationOrigin : IPoint) : Prop :=
  ∀ t, addCopyTextureToTexture s cmd (some source) (some destination) sourceRegion destinationOrigin = (true, t) →
    ∃ commands, s.Adds t commands ∧ ∀ command ∈ commands, CopyInside s source destination command

/-- The destination has the size of the clipped region from the origin on. -/
def OriginFits (source destination : TextureDescriptor) (sourceRegion : Option IRect)
    (destinationOrigin : IPoint) : Prop :=
  ∀ clipped, clip source sourceRegion = some clipped →
    (0 ≤ destinationOrigin.x ∧ destinationOrigin.x + clipped.width ≤ destination.size.width) ∧
    0 ≤ destinationOrigin.y ∧ destinationOrigin.y + clipped.height ≤ destination.size.height

variable {s t : Recorder} {cmd source destination : Nat} {sourceRegion : Option IRect}
  {destinationOrigin : IPoint} {clipped : IRect}

/-- A copy is recorded after the transitions that it needs, and before one more at most. -/
private theorem adds_copyImage (s : Recorder) (cmd source destination : Nat) (region : IRect) (origin : IPoint) :
    ∃ first second last,
      s.Adds (onCopyTextureToTextureCommand s cmd source destination region origin)
        (.imageBarrier first :: .imageBarrier second :: .copyImage source destination region origin :: last) ∧
      ∀ command ∈ last, ∃ barrier, command = .imageBarrier barrier := by
  have htracked : s.Adds ((s.trackTexture cmd source).trackTexture cmd destination) [] :=
    Adds.refl.trackTexture.trackTexture
  have hset := (htracked.setLayout cmd source .eTransferSrcOptimal 0).setLayout cmd destination .eTransferDstOptimal 0
  have hcopied := hset.record cmd (.copyImage source destination region origin)
  unfold onCopyTextureToTextureCommand
  dsimp only
  split
  · exact ⟨_, _, [], hcopied, fun _ hc => absurd hc List.not_mem_nil⟩
  · exact ⟨_, _, [_], hcopied.setLayout cmd destination .eShaderReadOnlyOptimal 0,
      fun _ hc => ⟨_, List.mem_singleton.mp hc⟩⟩

private theorem addCopyTexture_eq :
    addCopyTextureToTexture s cmd (some source) (some destination) sourceRegion destinationOrigin =
      if (s.desc source).sampleCount ≠ (s.desc destination).sampleCount then (false, s)
      else if (s.desc source).format ≠ (s.desc destination).format then (false, s)
      else match clip (s.desc source) sourceRegion with
        | none => (true, s)
        | some region =>
          (true, onCopyTextureToTextureCommand s cmd source destination region destinationOrigin) := rfl

/-- An origin from which a region fits into an image is an offset. -/
private theorem copiedOrigin_eq {desc : TextureDescriptor} {origin : IPoint} {width height : Int} (himage : IsImage desc)
    (hfits : (0 ≤ origin.x ∧ origin.x + width ≤ desc.size.width) ∧ 0 ≤ origin.y ∧ origin.y + height ≤ desc.size.height)
    (hwidth : 0 < width) (hheight : 0 < height) : copiedOrigin origin = origin := by
  obtain ⟨-, hsizeX, hsizeY⟩ := himage
  have hnarrow (a : Int) (h : 0 ≤ a ∧ a < 2147483648) : toInt32 a = a := by
    unfold toInt32
    omega
  rw [copiedOrigin, hnarrow origin.x (by omega), hnarrow origin.y (by omega)]

private theorem copyInside_iff (hclip : clip (s.desc source) sourceRegion = some clipped) :
    CopyInside s source destination (.copyImage source destination clipped destinationOrigin) ↔
      (0 ≤ destinationOrigin.x ∧ destinationOrigin.x + clipped.width ≤ (s.desc destination).size.width) ∧
      0 ≤ destinationOrigin.y ∧ destinationOrigin.y + clipped.height ≤ (s.desc destination).size.height := by
  obtain ⟨⟨hx, hy⟩, -⟩ := intersection_spec hclip
  have hwidth : destinationOrigin.x < destinationOrigin.x + clipped.width := by
    simp only [IRect.width]
    omega
  have hheight : destinationOrigin.y < destinationOrigin.y + clipped.height := by
    simp only [IRect.height]
    omega
  have hinside := texels_subset_iff (r := translated clipped destinationOrigin)
    (o := IRect.makeSize (s.desc destination).size) hwidth hheight
  simp only [CopyInside, true_and, texels_intersection hclip]
  rw [hinside]
  refine and_iff_left_of_imp fun hfits hsource hdestination => ⟨copiedRegion_clip hsource hclip, ?_⟩
  exact copiedOrigin_eq hdestination hfits (by omega) (by omega)

/-- Where the textures can be copied to one another, the copy stays inside the destination
if and only if the clipped region fits there from the origin on. -/
theorem copyStaysInside_iff (s : Recorder) (cmd source destination : Nat) (sourceRegion : Option IRect)
    (destinationOrigin : IPoint) :
    CopyStaysInside s cmd source destination sourceRegion destinationOrigin ↔
      ((s.desc source).sampleCount = (s.desc destination).sampleCount →
        (s.desc source).format = (s.desc destination).format →
        OriginFits (s.desc source) (s.desc destination) sourceRegion destinationOrigin) := by
  constructor
  · intro h hsamples hformat clipped hclip
    have haccepted : addCopyTextureToTexture s cmd (some source) (some destination) sourceRegion destinationOrigin =
        (true, onCopyTextureToTextureCommand s cmd source destination clipped destinationOrigin) := by
      rw [addCopyTexture_eq, if_neg (not_not.mpr hsamples), if_neg (not_not.mpr hformat), hclip]
    obtain ⟨commands, hadds, hall⟩ := h _ haccepted
    obtain ⟨first, second, last, hcopied, -⟩ := adds_copyImage s cmd source destination clipped destinationOrigin
    obtain rfl := hadds.unique hcopied
    apply (copyInside_iff hclip).mp
    exact hall _ (List.mem_cons_of_mem _ (List.mem_cons_of_mem _ List.mem_cons_self))
  · intro h t ht
    rw [addCopyTexture_eq] at ht
    split at ht
    · cases ht
    next hsamples =>
    split at ht
    · cases ht
    next hformat =>
    split at ht
    · cases ht
      exact ⟨[], Adds.refl, fun _ hc => absurd hc List.not_mem_nil⟩
    next clipped hclip =>
    cases ht
    obtain ⟨first, second, last, hcopied, hlast⟩ := adds_copyImage s cmd source destination clipped destinationOrigin
    refine ⟨_, hcopied, fun command hcommand => ?_⟩
    simp only [List.mem_cons] at hcommand
    rcases hcommand with rfl | rfl | rfl | hcommand
    · exact trivial
    · exact trivial
    · exact (copyInside_iff hclip).mpr (h (not_not.mp hsamples) (not_not.mp hformat) clipped hclip)
    · obtain ⟨barrier, rfl⟩ := hlast command hcommand
      exact trivial

/-- Textures of one sample and four bytes a pixel: the first of sixteen pixels by sixteen, the
others of eight by eight. -/
def twoSizes : Recorder :=
  { sources := fun texture => { desc := {
      format := .kR8G8B8A8UNormInt
      size := if texture = 0 then ⟨16, 16⟩ else ⟨8, 8⟩ } } }

/-- A whole texture is copied into a smaller one. -/
theorem copyStaysInside_smaller : ¬ CopyStaysInside twoSizes 0 0 1 none ⟨0, 0⟩ := by
  intro h
  obtain ⟨commands, hadds, hall⟩ := h _ rfl
  obtain ⟨first, second, last, hcopied, -⟩ := adds_copyImage twoSizes 0 0 1 ⟨0, 0, 16, 16⟩ ⟨0, 0⟩
  obtain rfl := hadds.unique hcopied
  obtain ⟨-, -, -, hinside, -⟩ := hall _ (List.mem_cons_of_mem _ (List.mem_cons_of_mem _ List.mem_cons_self))
  have hlast : ((15 : Int), (15 : Int)) ∈ texels (translated ⟨0, 0, 16, 16⟩ ⟨0, 0⟩) := by
    simp [texels, translated, IRect.width, IRect.height]
  have houtside := hinside hlast
  simp [texels, IRect.makeSize, twoSizes, Recorder.desc] at houtside

end TextureToTexture

section BufferToTexture

/-- The size of a mip level. -/
def levelSize (size : Geometry.ISize) (mipLevel : Nat) : Geometry.ISize :=
  ⟨max 1 (size.width / 2 ^ mipLevel), max 1 (size.height / 2 ^ mipLevel)⟩

/-- A copy of a buffer to a texture reads packed rows from the view, and writes to a mip level
and a slice that are there. -/
def UploadInside (s : Recorder) (source : BufferView) (destination : Nat) : Command → Prop
  | .copyBufferToImage view texture region mipLevel slice =>
    view = source ∧ texture = destination ∧ (s.sources destination).HasSubresource mipLevel slice ∧
    texels (copiedRegion region) ⊆ texels (IRect.makeSize (levelSize (s.desc destination).size mipLevel)) ∧
    written (texelSize (toVKImageFormat (s.desc destination).format)) (copiedRegion region) source.range.offset ⊆
      source.range.bytes
  | _ => True

def UploadStaysInside (s : Recorder) (cmd : Nat) (source : BufferView) (destination : Nat)
    (destinationRegion : Option IRect) (mipLevel slice : Nat) (convertToRead : Bool) : Prop :=
  ∀ t, addCopyBufferToTexture s cmd source (some destination) destinationRegion mipLevel slice convertToRead =
    some (true, t) → ∃ commands, s.Adds t commands ∧ ∀ command ∈ commands, UploadInside s source destination command

/-- What the checks let through. -/
def UploadAccepted (desc : TextureDescriptor) (source : BufferView) (region : IRect) (mipLevel slice : Nat) : Prop :=
  (0 ≤ region.left ∧ 0 ≤ region.top ∧ region.right ≤ desc.size.width ∧ region.bottom ≤ desc.size.height) ∧
  source.range.length = bytesPerRegion region desc.format ∧ mipLevel < desc.mipCount ∧ slice ≤ 5 ∧
  source.getBuffer.isSome

/-- The slice is there, and the region lies in the mip level with its left before its right, its
top above its bottom and its bytes counted without a wrap, unless its extent is none. -/
def RegionFitsLevel (desc : TextureDescriptor) (region : IRect) (mipLevel slice : Nat) : Prop :=
  slice < toArrayLayerCount desc.type ∧
    (toUInt32 (saturatedSub region.right region.left) = 0 ∨ toUInt32 (saturatedSub region.bottom region.top) = 0 ∨
      (region.left < region.right ∧ region.top < region.bottom) ∧
        region.right ≤ (levelSize desc.size mipLevel).width ∧ region.bottom ≤ (levelSize desc.size mipLevel).height ∧
        region.area.toNat * bytesPerPixelForPixelFormat desc.format < 18446744073709551616)

variable {s t : Recorder} {cmd destination mipLevel slice : Nat} {source : BufferView} {region : IRect}
  {destinationRegion : Option IRect} {convertToRead : Bool}

private theorem adds_copyBufferToImage (h : onCopyBufferToTextureCommand s cmd source destination region mipLevel slice
    convertToRead = some t) : ∃ first last,
      s.Adds t (.imageBarrier first :: .copyBufferToImage source destination region mipLevel slice :: last) ∧
      ∀ command ∈ last, ∃ barrier, command = .imageBarrier barrier := by
  have htracked : s.Adds ((s.trackView cmd source).trackTexture cmd destination) [] :=
    Adds.refl.trackView.trackTexture
  have hcopied := (htracked.setLayout cmd destination .eTransferDstOptimal 0).record cmd
    (.copyBufferToImage source destination region mipLevel slice)
  unfold onCopyBufferToTextureCommand at h
  split at h
  · cases h
  · obtain rfl := Option.some.inj h
    split
    · exact ⟨_, [_], hcopied.setLayout cmd destination .eShaderReadOnlyOptimal 0,
        fun _ hc => ⟨_, List.mem_singleton.mp hc⟩⟩
    · exact ⟨_, [], hcopied, fun _ hc => absurd hc List.not_mem_nil⟩

private theorem addCopyBuffer_eq (hregion : requested (s.desc destination) destinationRegion = region) :
    addCopyBufferToTexture s cmd source (some destination) destinationRegion mipLevel slice convertToRead =
      if region.left < 0 ∨ region.top < 0 ∨ region.right > (s.desc destination).size.width ∨
          region.bottom > (s.desc destination).size.height then some (false, s)
      else if source.range.length ≠ bytesPerRegion region (s.desc destination).format then some (false, s)
      else if (s.desc destination).mipCount ≤ mipLevel then some (false, s)
      else if slice > 5 then some (false, s)
      else (onCopyBufferToTextureCommand s cmd source destination region mipLevel slice convertToRead).map
        fun s => (true, s) := by
  subst hregion
  rfl

/-- A copy that is accepted has passed the checks, and is recorded. -/
private theorem addCopyBuffer_accepted (hregion : requested (s.desc destination) destinationRegion = region)
    (h : addCopyBufferToTexture s cmd source (some destination) destinationRegion mipLevel slice convertToRead =
      some (true, t)) :
    UploadAccepted (s.desc destination) source region mipLevel slice ∧
      onCopyBufferToTextureCommand s cmd source destination region mipLevel slice convertToRead = some t := by
  rw [addCopyBuffer_eq hregion] at h
  split at h
  · cases h
  next hinside =>
  split at h
  · cases h
  next hlength =>
  split at h
  · cases h
  next hmip =>
  split at h
  · cases h
  next hslice =>
  obtain ⟨u, hu, hut⟩ := Option.map_eq_some_iff.mp h
  cases hut
  have hbuffer : source.getBuffer.isSome := by
    unfold onCopyBufferToTextureCommand at hu
    split at hu
    · cases hu
    next hb => exact Option.isSome_iff_ne_none.mpr (by simpa using hb)
  refine ⟨⟨⟨?_, ?_, ?_, ?_⟩, not_not.mp hlength, Nat.lt_of_not_le hmip, Nat.le_of_not_lt hslice, hbuffer⟩, hu⟩ <;> omega

private theorem addCopyBuffer_accepts (cmd : Nat) (convertToRead : Bool)
    (hregion : requested (s.desc destination) destinationRegion = region)
    (h : UploadAccepted (s.desc destination) source region mipLevel slice) :
    ∃ t, addCopyBufferToTexture s cmd source (some destination) destinationRegion mipLevel slice convertToRead =
      some (true, t) := by
  obtain ⟨hinside, hlength, hmip, hslice, hbuffer⟩ := h
  rw [addCopyBuffer_eq hregion, if_neg (by omega), if_neg (not_not.mpr hlength), if_neg (Nat.not_le.mpr hmip),
    if_neg (Nat.not_lt.mpr hslice)]
  have hset : source.getBuffer.isNone = false := by simpa using hbuffer
  unfold onCopyBufferToTextureCommand
  rw [if_neg (by simp [hset])]
  exact ⟨_, rfl⟩

private theorem area_pos {n : Nat} (h : 0 < region.area.toNat * n) :
    region.left < region.right ∧ region.top < region.bottom := by
  rw [← isEmpty_eq_false]
  cases hempty : region.isEmpty with
  | false => rfl
  | true => simp [IRect.area, hempty] at h

private theorem texels_eq_empty (h : region.right ≤ region.left ∨ region.bottom ≤ region.top) : texels region = ∅ := by
  rw [Set.eq_empty_iff_forall_notMem]
  rintro ⟨x, y⟩ ⟨⟨hxl, hxr⟩, hyt, hyb⟩
  dsimp only at hxl hxr hyt hyb
  omega

private theorem written_eq_empty {texel offset : Nat} (h : region.right ≤ region.left ∨ region.bottom ≤ region.top) :
    written texel region offset = ∅ := by
  have hnone : region.height.toNat * region.width.toNat = 0 := by
    rw [Nat.mul_eq_zero]
    simp only [IRect.height, IRect.width]
    omega
  rw [written_eq, hnone, Nat.zero_mul, Nat.add_zero, Set.Ico_self]

private theorem uploadInside_iff (himage : IsImage (s.desc destination))
    (haccepted : UploadAccepted (s.desc destination) source region mipLevel slice) :
    UploadInside s source destination (.copyBufferToImage source destination region mipLevel slice) ↔
      RegionFitsLevel (s.desc destination) region mipLevel slice := by
  obtain ⟨hformat, hwidth, hheight⟩ := himage
  obtain ⟨⟨hleft, htop, hright, hbottom⟩, hlength, hmip, -, -⟩ := haccepted
  obtain ⟨htexel, hbpp⟩ := texelSize_image _ hformat
  rw [bytesPerRegion_eq] at hlength
  constructor
  · rintro ⟨-, -, ⟨-, hslice⟩, htexels, hbytes⟩
    refine ⟨hslice, or_iff_not_imp_left.mpr fun hw => or_iff_not_imp_left.mpr fun hh => ?_⟩
    have hw0 : 0 < (copiedRegion region).width := by
      simp only [IRect.width, copiedRegion]
      unfold toUInt32 at hw ⊢
      omega
    have hh0 : 0 < (copiedRegion region).height := by
      simp only [IRect.height, copiedRegion]
      unfold toUInt32 at hh ⊢
      omega
    have hread := Nat.mul_pos (Nat.mul_pos (Int.pos_iff_toNat_pos.mp hh0) (Int.pos_iff_toNat_pos.mp hw0)) hbpp
    rw [written_eq, htexel, Range.bytes, Set.Ico_subset_Ico_iff (Nat.lt_add_of_pos_right hread)] at hbytes
    have hle := Nat.le_of_add_le_add_left hbytes.2
    -- so the region has bytes, and is not turned around
    have hpos : 0 < region.area.toNat * bytesPerPixelForPixelFormat (s.desc destination).format := by
      rw [hlength] at hle
      exact (hread.trans_le hle).trans_le (Nat.mod_le _ _)
    obtain ⟨hx, hy⟩ := area_pos hpos
    rw [copiedRegion_eq ⟨hleft, hx, by omega⟩ ⟨htop, hy, by omega⟩] at htexels hle
    obtain ⟨⟨-, hr⟩, -, hb⟩ := (texels_subset_iff hx hy).mp htexels
    rw [← area_toNat region hx hy, hlength] at hle
    exact ⟨⟨hx, hy⟩, hr, hb, hle.trans_lt (Nat.mod_lt _ (by decide))⟩
  · rintro ⟨hslice, hfits⟩
    refine ⟨rfl, rfl, ⟨hmip, hslice⟩, ?_⟩
    rcases hfits with hw | hh | ⟨⟨hx, hy⟩, hr, hb, hlt⟩
    · have hnone : (copiedRegion region).right ≤ (copiedRegion region).left := by
        simp only [copiedRegion, hw, Int.add_zero, le_refl]
      rw [texels_eq_empty (.inl hnone), written_eq_empty (.inl hnone)]
      exact ⟨Set.empty_subset _, Set.empty_subset _⟩
    · have hnone : (copiedRegion region).bottom ≤ (copiedRegion region).top := by
        simp only [copiedRegion, hh, Int.add_zero, le_refl]
      rw [texels_eq_empty (.inr hnone), written_eq_empty (.inr hnone)]
      exact ⟨Set.empty_subset _, Set.empty_subset _⟩
    · rw [copiedRegion_eq ⟨hleft, hx, by omega⟩ ⟨htop, hy, by omega⟩]
      refine ⟨(texels_subset_iff hx hy).mpr ⟨⟨hleft, hr⟩, htop, hb⟩, ?_⟩
      rw [written_eq, htexel, ← area_toNat region hx hy, Range.bytes, hlength, Nat.mod_eq_of_lt hlt]

private theorem fits_of_staysInside (himage : IsImage (s.desc destination))
    (hregion : requested (s.desc destination) destinationRegion = region)
    (haccepted : UploadAccepted (s.desc destination) source region mipLevel slice)
    (h : UploadStaysInside s cmd source destination destinationRegion mipLevel slice convertToRead) :
    RegionFitsLevel (s.desc destination) region mipLevel slice := by
  obtain ⟨t, ht⟩ := addCopyBuffer_accepts cmd convertToRead hregion haccepted
  obtain ⟨commands, hadds, hall⟩ := h t ht
  obtain ⟨first, last, hcopied, -⟩ := adds_copyBufferToImage (addCopyBuffer_accepted hregion ht).2
  obtain rfl := hadds.unique hcopied
  apply (uploadInside_iff himage haccepted).mp
  exact hall _ (List.mem_cons_of_mem _ List.mem_cons_self)

/-- Whatever is accepted for an image reads from the view and writes to a slice and a mip level
that are there, if and only if the slice is there and the region fits the mip level. -/
theorem uploadStaysInside_iff (s : Recorder) (cmd : Nat) (source : BufferView) (destination : Nat)
    (destinationRegion : Option IRect) (mipLevel slice : Nat) (convertToRead : Bool)
    (himage : IsImage (s.desc destination)) :
    UploadStaysInside s cmd source destination destinationRegion mipLevel slice convertToRead ↔
      (UploadAccepted (s.desc destination) source (requested (s.desc destination) destinationRegion) mipLevel slice →
        RegionFitsLevel (s.desc destination) (requested (s.desc destination) destinationRegion) mipLevel slice) := by
  constructor
  · exact fun h haccepted => fits_of_staysInside himage rfl haccepted h
  · intro h t ht
    obtain ⟨haccepted, hrecorded⟩ := addCopyBuffer_accepted rfl ht
    obtain ⟨first, last, hcopied, hlast⟩ := adds_copyBufferToImage hrecorded
    refine ⟨_, hcopied, fun command hcommand => ?_⟩
    rcases List.mem_cons.mp hcommand with rfl | hcommand
    · exact trivial
    rcases List.mem_cons.mp hcommand with rfl | hcommand
    · exact (uploadInside_iff himage haccepted).mpr (h haccepted)
    · obtain ⟨barrier, rfl⟩ := hlast command hcommand
      exact trivial

/-- A texture of sixteen pixels by sixteen, of four bytes each, with two mip levels. -/
def twoLevels : Recorder :=
  { sources := fun _ => { desc := { format := .kR8G8B8A8UNormInt, size := ⟨16, 16⟩, mipCount := 2 } } }

/-- A view of the first bytes of a buffer. -/
def firstBytes (length : Nat) : BufferView := .ofShared ⟨0, 4096⟩ ⟨0, length⟩

private theorem twoLevels_isImage : IsImage (twoLevels.desc 0) := ⟨by decide, by decide, by decide⟩

/-- The base level takes all of the bytes. -/
theorem uploadStaysInside_base : UploadStaysInside twoLevels 0 (firstBytes 1024) 0 none 0 0 true :=
  (uploadStaysInside_iff twoLevels 0 (firstBytes 1024) 0 none 0 0 true ⟨by decide, by decide, by decide⟩).mpr
    fun _ => ⟨by decide, .inr (.inr ⟨by decide, by decide, by decide, by decide⟩)⟩

/-- The bytes of the base level are accepted for the other level, and for a slice that is not there.
So are no bytes for a region whose left is not before its right. -/
theorem uploadStaysInside_outside :
    ¬ UploadStaysInside twoLevels 0 (firstBytes 1024) 0 none 1 0 true ∧
    ¬ UploadStaysInside twoLevels 0 (firstBytes 1024) 0 none 0 1 true ∧
    ¬ UploadStaysInside twoLevels 0 (firstBytes 0) 0 (some ⟨8, 0, 4, 16⟩) 0 0 true := by
  refine ⟨fun h => ?_, fun h => ?_, fun h => ?_⟩
  · have hfits := fits_of_staysInside twoLevels_isImage rfl ⟨by decide, by decide, by decide, by decide, rfl⟩ h
    revert hfits
    unfold RegionFitsLevel
    decide
  · have hfits := fits_of_staysInside twoLevels_isImage rfl ⟨by decide, by decide, by decide, by decide, rfl⟩ h
    exact absurd hfits.1 (by decide)
  · have hfits := fits_of_staysInside twoLevels_isImage rfl ⟨by decide, by decide, by decide, by decide, rfl⟩ h
    revert hfits
    unfold RegionFitsLevel
    decide

end BufferToTexture

end Ogre.Hal.BlitPass
