import Ogre.Hal.BlitPass

/-! Copies of a texture to a buffer stay inside both, unless the size check wraps by more
bytes than the clip to the texture takes away. -/
namespace Ogre.Hal.BlitPass
open Ogre.Core Ogre.Geometry

/-- The bytes of a texel of an image. -/
def texelSize : VkFormat → Nat
  | .eUndefined => 0
  | .eR8Unorm | .eS8Uint => 1
  | .eR8G8Unorm => 2
  | .eR8G8B8A8Unorm | .eR8G8B8A8Srgb | .eB8G8R8A8Unorm | .eB8G8R8A8Srgb => 4
  | .eR32Sfloat | .eD24UnormS8Uint => 4
  | .eD32SfloatS8Uint => 5
  | .eR16G16B16A16Sfloat => 8
  | .eR32G32B32A32Sfloat => 16

/-- The columns and rows of a rectangle. -/
def texels (region : IRect) : Set (Int × Int) :=
  {p | (region.left ≤ p.1 ∧ p.1 < region.right) ∧ region.top ≤ p.2 ∧ p.2 < region.bottom}

/-- The bytes that a copy of a region to a buffer writes. A buffer row length of zero packs
the rows tightly. -/
def written (texel : Nat) (region : IRect) (offset : Nat) : Set Nat :=
  {a | ∃ y < region.height.toNat, ∃ x < region.width.toNat, ∃ i < texel,
    a = offset + (y * region.width.toNat + x) * texel + i}

/-- Images have a format of the device, and sides that an offset reaches. -/
def IsImage (desc : TextureDescriptor) : Prop :=
  toVKImageFormat desc.format ≠ .eUndefined ∧ desc.size.width ≤ 2147483648 ∧ desc.size.height ≤ 2147483648

/-- A copy to a buffer is of the source to the destination. It writes between the offset
and the end of the destination, and reads from the base level of the source. The region of
an image is not narrowed. -/
def StaysInside (s : Recorder) (source : Nat) (destination : DeviceBuffer) (destinationOffset : Nat) : Command → Prop
  | .copyImageToBuffer texture buffer region offset =>
    texture = source ∧ buffer = destination ∧
    written (texelSize (toVKImageFormat (s.desc source).format)) region offset ⊆
      Set.Ico destinationOffset destination.size ∧
    texels region ⊆ texels (IRect.makeSize (s.desc source).size) ∧
    (IsImage (s.desc source) → copiedRegion region = region)
  | _ => True

/-- Whatever copies to buffers an accepted call records, they stay inside. -/
def CopiesStayInside (s : Recorder) (cmd source : Nat) (destination : DeviceBuffer) (readback : Bool)
    (sourceRegion : Option IRect) (destinationOffset : Nat) : Prop :=
  ∀ t, addCopyTextureToBuffer s cmd (some source) (some destination) readback sourceRegion destinationOffset =
    (true, t) → ∃ new, t.recorded = s.recorded ++ new ∧
      ∀ r ∈ new, StaysInside s source destination destinationOffset r.command

/-- The region of a call, which is the whole texture where none is given. -/
def requested (desc : TextureDescriptor) (sourceRegion : Option IRect) : IRect :=
  sourceRegion.getD (IRect.makeSize desc.size)

/-- The part of that region in the texture. -/
def clip (desc : TextureDescriptor) (sourceRegion : Option IRect) : Option IRect :=
  (requested desc sourceRegion).intersection (IRect.makeSize desc.size)

/-- Where the bytes of the region end in the buffer. This sum does not wrap. -/
def regionEnd (desc : TextureDescriptor) (sourceRegion : Option IRect) (destinationOffset : Nat) : Nat :=
  destinationOffset + (requested desc sourceRegion).area.toNat * bytesPerPixelForPixelFormat desc.format

/-- Where a part of the region is in the texture, the bytes of its other part make up for
all that the size check loses to wrapping. Textures of a format that the device does not
have hold no bytes. -/
def ClipCoversWrap (desc : TextureDescriptor) (sourceRegion : Option IRect) (destinationOffset : Nat) : Prop :=
  ∀ clipped, clip desc sourceRegion = some clipped → toVKImageFormat desc.format ≠ .eUndefined →
    regionEnd desc sourceRegion destinationOffset / 18446744073709551616 * 18446744073709551616 ≤
      ((requested desc sourceRegion).area.toNat - clipped.area.toNat) * bytesPerPixelForPixelFormat desc.format

theorem texelSize_image (format : PixelFormat) (h : toVKImageFormat format ≠ .eUndefined) :
    texelSize (toVKImageFormat format) = bytesPerPixelForPixelFormat format ∧
      0 < bytesPerPixelForPixelFormat format := by
  cases format <;> first | exact absurd rfl h | exact ⟨rfl, by decide⟩

/-- Numbers below a product are the places in as many rows. -/
private theorem lt_mul_iff (n rows columns : Nat) :
    n < rows * columns ↔ ∃ y < rows, ∃ x < columns, n = y * columns + x := by
  constructor
  · intro h
    have hc : 0 < columns := Nat.pos_of_lt_mul_left h
    refine ⟨n / columns, Nat.div_lt_of_lt_mul ?_, n % columns, Nat.mod_lt n hc, ?_⟩
    · rwa [Nat.mul_comm]
    · exact (Nat.div_add_mod' n columns).symm
  · rintro ⟨y, hy, x, hx, rfl⟩
    calc y * columns + x < y * columns + columns := Nat.add_lt_add_left hx _
      _ = (y + 1) * columns := (Nat.succ_mul y columns).symm
      _ ≤ rows * columns := Nat.mul_le_mul_right columns hy

/-- Packed rows leave no gap. -/
theorem written_eq (texel : Nat) (region : IRect) (offset : Nat) :
    written texel region offset =
      Set.Ico offset (offset + region.height.toNat * region.width.toNat * texel) := by
  ext a
  constructor
  · rintro ⟨y, hy, x, hx, i, hi, rfl⟩
    have hplace := (lt_mul_iff _ _ _).mpr ⟨y, hy, x, hx, rfl⟩
    have hbyte := (lt_mul_iff _ _ _).mpr ⟨_, hplace, i, hi, rfl⟩
    constructor <;> omega
  · rintro ⟨hle, hlt⟩
    have hbelow : a - offset < region.height.toNat * region.width.toNat * texel := by omega
    obtain ⟨place, hplace, i, hi, hbyte⟩ := (lt_mul_iff _ _ _).mp hbelow
    obtain ⟨y, hy, x, hx, rfl⟩ := (lt_mul_iff place _ _).mp hplace
    refine ⟨y, hy, x, hx, i, hi, ?_⟩
    rw [Nat.add_assoc, ← hbyte]
    omega

theorem isEmpty_eq_false (r : IRect) : r.isEmpty = false ↔ r.left < r.right ∧ r.top < r.bottom := by
  simp [IRect.isEmpty]

theorem area_toNat (r : IRect) (hx : r.left < r.right) (hy : r.top < r.bottom) :
    r.area.toNat = r.height.toNat * r.width.toNat := by
  have hne : r.isEmpty = false := (isEmpty_eq_false r).mpr ⟨hx, hy⟩
  rw [IRect.area, if_neg (by simp [hne]), Int.mul_comm]
  exact Int.toNat_mul (by simp only [IRect.height]; omega) (by simp only [IRect.width]; omega)

private theorem area_nonneg (r : IRect) : 0 ≤ r.area := by
  cases h : r.isEmpty with
  | true => simp [IRect.area, h]
  | false =>
    obtain ⟨hx, hy⟩ := (isEmpty_eq_false r).mp h
    rw [IRect.area, if_neg (by simp [h])]
    apply mul_nonneg
    · simp only [IRect.width]; omega
    · simp only [IRect.height]; omega

/-- The intersection has a texel, and lies in both rectangles. -/
theorem intersection_spec {r o clipped : IRect} (h : r.intersection o = some clipped) :
    (clipped.left < clipped.right ∧ clipped.top < clipped.bottom) ∧
    (r.left ≤ clipped.left ∧ clipped.right ≤ r.right ∧ r.top ≤ clipped.top ∧ clipped.bottom ≤ r.bottom) ∧
      o.left ≤ clipped.left ∧ clipped.right ≤ o.right ∧ o.top ≤ clipped.top ∧ clipped.bottom ≤ o.bottom := by
  unfold IRect.intersection at h
  split at h
  · rename_i hmeet
    cases h
    simp only [IRect.intersectsWithRect, Bool.and_eq_true, Bool.not_eq_true', isEmpty_eq_false,
      decide_eq_true_eq] at hmeet
    refine ⟨?_, ?_, ?_⟩ <;> dsimp only <;> omega
  · cases h

private theorem area_intersection_le {r o clipped : IRect} (h : r.intersection o = some clipped) :
    clipped.area.toNat ≤ r.area.toNat := by
  obtain ⟨⟨hx, hy⟩, ⟨hl, hr, ht, hb⟩, -⟩ := intersection_spec h
  rw [area_toNat clipped hx hy, area_toNat r (by omega) (by omega)]
  exact Nat.mul_le_mul (by simp only [IRect.height]; omega) (by simp only [IRect.width]; omega)

theorem texels_intersection {r o clipped : IRect} (h : r.intersection o = some clipped) :
    texels clipped ⊆ texels o := by
  obtain ⟨-, -, hl, hr, ht, hb⟩ := intersection_spec h
  rintro ⟨x, y⟩ ⟨⟨hxl, hxr⟩, hyt, hyb⟩
  exact ⟨⟨hl.trans hxl, hxr.trans_le hr⟩, ht.trans hyt, hyb.trans_le hb⟩

/-- Regions inside an image are copied as they are. -/
theorem copiedRegion_eq {region : IRect}
    (hx : 0 ≤ region.left ∧ region.left < region.right ∧ region.right ≤ 2147483648)
    (hy : 0 ≤ region.top ∧ region.top < region.bottom ∧ region.bottom ≤ 2147483648) :
    copiedRegion region = region := by
  have hnarrow (a b : Int) (h : 0 ≤ a ∧ a < b ∧ b ≤ 2147483648) :
      toInt32 a = a ∧ toInt32 a + toUInt32 (saturatedSub b a) = b := by
    unfold toInt32 toUInt32 saturatedSub
    omega
  obtain ⟨hleft, hright⟩ := hnarrow _ _ hx
  obtain ⟨htop, hbottom⟩ := hnarrow _ _ hy
  rw [copiedRegion, hright, hbottom, hleft, htop]

theorem copiedRegion_clip {desc : TextureDescriptor} {sourceRegion : Option IRect} {clipped : IRect}
    (himage : IsImage desc) (hclip : clip desc sourceRegion = some clipped) : copiedRegion clipped = clipped := by
  obtain ⟨⟨hx, hy⟩, -, hleft, hright, htop, hbottom⟩ := intersection_spec hclip
  obtain ⟨-, hwidth, hheight⟩ := himage
  exact copiedRegion_eq ⟨hleft, hx, hright.trans hwidth⟩ ⟨htop, hy, hbottom.trans hheight⟩

theorem bytesPerRegion_eq (region : IRect) (format : PixelFormat) :
    bytesPerRegion region format =
      region.area.toNat * bytesPerPixelForPixelFormat format % 18446744073709551616 := by
  have harea := area_nonneg region
  have hsize : toSizeT region.area = region.area.toNat % 18446744073709551616 := by
    unfold toSizeT
    omega
  rw [bytesPerRegion, hsize, Nat.mod_mul_mod]

/-- The size check compares the end of the region, less what wraps. -/
private theorem sizeAdd_bytesPerRegion (desc : TextureDescriptor) (sourceRegion : Option IRect) (offset : Nat) :
    sizeAdd offset (bytesPerRegion (requested desc sourceRegion) desc.format) =
      regionEnd desc sourceRegion offset % 18446744073709551616 := by
  rw [sizeAdd, bytesPerRegion_eq, Nat.add_mod_mod, regionEnd]

/-- What is recorded is the copy, between barriers. -/
private theorem recorded_copy (s : Recorder) (cmd source : Nat) (destination : DeviceBuffer) (readback : Bool)
    (region : IRect) (offset : Nat) : ∃ new,
      (onCopyTextureToBufferCommand s cmd source destination readback region offset).recorded = s.recorded ++ new ∧
      (∃ r ∈ new, r.command = .copyImageToBuffer source destination region offset) ∧
      ∀ r ∈ new, r.command = .copyImageToBuffer source destination region offset ∨
        r.command = .memoryBarrier ∨ ∃ barrier, r.command = .imageBarrier barrier := by
  cases readback with
  | false =>
    refine ⟨[⟨cmd, .imageBarrier _, _⟩, ⟨cmd, .copyImageToBuffer source destination region offset, _⟩],
      List.append_assoc _ _ _, ⟨_, List.mem_cons_of_mem _ (List.mem_singleton.mpr rfl), rfl⟩, ?_⟩
    intro r hr
    rcases List.mem_pair.mp hr with rfl | rfl
    · exact Or.inr (Or.inr ⟨_, rfl⟩)
    · exact Or.inl rfl
  | true =>
    refine ⟨[⟨cmd, .imageBarrier _, _⟩, ⟨cmd, .copyImageToBuffer source destination region offset, _⟩,
        ⟨cmd, .memoryBarrier, _⟩], (List.append_assoc _ _ _).trans (List.append_assoc _ _ _),
      ⟨_, List.mem_cons_of_mem _ List.mem_cons_self, rfl⟩, ?_⟩
    intro r hr
    simp only [List.mem_cons, List.not_mem_nil, or_false] at hr
    rcases hr with rfl | rfl | rfl
    · exact Or.inr (Or.inr ⟨_, rfl⟩)
    · exact Or.inl rfl
    · exact Or.inr (Or.inl rfl)

section
variable {s t : Recorder} {cmd source : Nat} {destination : DeviceBuffer} {readback : Bool}
  {sourceRegion : Option IRect} {destinationOffset : Nat} {clipped : IRect}

private theorem addCopy_eq :
    addCopyTextureToBuffer s cmd (some source) (some destination) readback sourceRegion destinationOffset =
      if regionEnd (s.desc source) sourceRegion destinationOffset % 18446744073709551616 > destination.size then
        (false, s)
      else match clip (s.desc source) sourceRegion with
        | none => (true, s)
        | some region =>
          (true, onCopyTextureToBufferCommand s cmd source destination readback region destinationOffset) := by
  rw [← sizeAdd_bytesPerRegion]
  rfl

/-- What an accepted call has checked and done. -/
private theorem addCopy_accepted
    (h : addCopyTextureToBuffer s cmd (some source) (some destination) readback sourceRegion destinationOffset =
      (true, t)) :
    regionEnd (s.desc source) sourceRegion destinationOffset % 18446744073709551616 ≤ destination.size ∧
      (t = s ∨ ∃ clipped, clip (s.desc source) sourceRegion = some clipped ∧
        t = onCopyTextureToBufferCommand s cmd source destination readback clipped destinationOffset) := by
  rw [addCopy_eq] at h
  split at h
  · cases h
  · rename_i hfits
    refine ⟨Nat.le_of_not_gt hfits, ?_⟩
    split at h
    · cases h
      exact Or.inl rfl
    · rename_i clipped hclip
      cases h
      exact Or.inr ⟨clipped, hclip, rfl⟩

private theorem addCopy_accepts
    (hclip : clip (s.desc source) sourceRegion = some clipped)
    (hfits : regionEnd (s.desc source) sourceRegion destinationOffset % 18446744073709551616 ≤ destination.size) :
    addCopyTextureToBuffer s cmd (some source) (some destination) readback sourceRegion destinationOffset =
      (true, onCopyTextureToBufferCommand s cmd source destination readback clipped destinationOffset) := by
  rw [addCopy_eq, if_neg (Nat.not_lt.mpr hfits), hclip]

/-- The copy of a clipped region is inside, where the bytes of the clipped region fit. -/
private theorem staysInside_copy_iff (himage : toVKImageFormat (s.desc source).format ≠ .eUndefined)
    (hclip : clip (s.desc source) sourceRegion = some clipped) :
    StaysInside s source destination destinationOffset
        (.copyImageToBuffer source destination clipped destinationOffset) ↔
      destinationOffset + clipped.area.toNat * bytesPerPixelForPixelFormat (s.desc source).format ≤
        destination.size := by
  obtain ⟨htexel, hpos⟩ := texelSize_image _ himage
  obtain ⟨⟨hx, hy⟩, -⟩ := intersection_spec hclip
  have harea : 0 < clipped.area.toNat := by
    rw [area_toNat clipped hx hy]
    apply Nat.mul_pos
    · simp only [IRect.height]; omega
    · simp only [IRect.width]; omega
  have hbytes := Nat.mul_pos harea hpos
  have hcopied : IsImage (s.desc source) → copiedRegion clipped = clipped := fun h => copiedRegion_clip h hclip
  simp only [StaysInside, true_and, written_eq, htexel, ← area_toNat clipped hx hy, texels_intersection hclip]
  rw [and_iff_left hcopied, Set.Ico_subset_Ico_iff (Nat.lt_add_of_pos_right hbytes)]
  exact and_iff_right (le_refl destinationOffset)

/-- In a format that the device does not have, a copy writes nothing. -/
private theorem staysInside_undefined (himage : toVKImageFormat (s.desc source).format = .eUndefined)
    (hclip : clip (s.desc source) sourceRegion = some clipped) :
    StaysInside s source destination destinationOffset
      (.copyImageToBuffer source destination clipped destinationOffset) := by
  refine ⟨rfl, rfl, ?_, texels_intersection hclip, fun h => absurd himage h.1⟩
  rw [himage, written_eq]
  simp [texelSize]

/-- What the check loses is what the clip has to make up for. -/
private theorem covers_iff
    (hclip : clip (s.desc source) sourceRegion = some clipped) :
    regionEnd (s.desc source) sourceRegion destinationOffset / 18446744073709551616 * 18446744073709551616 ≤
        ((requested (s.desc source) sourceRegion).area.toNat - clipped.area.toNat) *
          bytesPerPixelForPixelFormat (s.desc source).format ↔
      destinationOffset + clipped.area.toNat * bytesPerPixelForPixelFormat (s.desc source).format ≤
        regionEnd (s.desc source) sourceRegion destinationOffset % 18446744073709551616 := by
  have hle := Nat.mul_le_mul_right (bytesPerPixelForPixelFormat (s.desc source).format) (area_intersection_le hclip)
  have hsplit := Nat.div_add_mod' (regionEnd (s.desc source) sourceRegion destinationOffset) 18446744073709551616
  have hend : regionEnd (s.desc source) sourceRegion destinationOffset = destinationOffset +
    (requested (s.desc source) sourceRegion).area.toNat *
      bytesPerPixelForPixelFormat (s.desc source).format := rfl
  rw [Nat.sub_mul]
  omega

/-- For a destination, it is the copy of the clipped region that has to be inside, where the
check accepts. -/
private theorem copiesStayInside_iff_copy :
    CopiesStayInside s cmd source destination readback sourceRegion destinationOffset ↔
      ∀ clipped, clip (s.desc source) sourceRegion = some clipped →
        regionEnd (s.desc source) sourceRegion destinationOffset % 18446744073709551616 ≤ destination.size →
        StaysInside s source destination destinationOffset
          (.copyImageToBuffer source destination clipped destinationOffset) := by
  constructor
  · intro h clipped hclip hfits
    obtain ⟨new, hnew, hall⟩ := h _ (addCopy_accepts hclip hfits)
    obtain ⟨same, hsame, ⟨r, hr, hcopy⟩, -⟩ :=
      recorded_copy s cmd source destination readback clipped destinationOffset
    obtain rfl : same = new := List.append_cancel_left (hsame.symm.trans hnew)
    rw [← hcopy]
    exact hall r hr
  · intro h t ht
    obtain ⟨hfits, rfl | ⟨clipped, hclip, rfl⟩⟩ := addCopy_accepted ht
    · exact ⟨[], (List.append_nil _).symm, fun r hr => absurd hr List.not_mem_nil⟩
    · obtain ⟨new, hnew, -, hall⟩ := recorded_copy s cmd source destination readback clipped destinationOffset
      refine ⟨new, hnew, fun r hr => ?_⟩
      rcases hall r hr with hr | hr | ⟨barrier, hr⟩ <;> rw [hr]
      · exact h clipped hclip hfits
      · exact trivial
      · exact trivial

/-- A destination has room for the clipped region, or the check refuses it. -/
theorem copiesStayInside_iff_fits :
    CopiesStayInside s cmd source destination readback sourceRegion destinationOffset ↔
      ∀ clipped, clip (s.desc source) sourceRegion = some clipped →
        toVKImageFormat (s.desc source).format ≠ .eUndefined →
        regionEnd (s.desc source) sourceRegion destinationOffset % 18446744073709551616 ≤ destination.size →
        destinationOffset + clipped.area.toNat * bytesPerPixelForPixelFormat (s.desc source).format ≤
          destination.size := by
  rw [copiesStayInside_iff_copy]
  apply forall₂_congr
  intro clipped hclip
  by_cases himage : toVKImageFormat (s.desc source).format = .eUndefined
  · exact ⟨fun _ hne => absurd himage hne, fun _ _ => staysInside_undefined himage hclip⟩
  · rw [staysInside_copy_iff himage hclip]
    exact ⟨fun h _ => h, fun h => h himage⟩

end

/-- Copies of a region stay inside whatever buffer the call accepts, if and only if the
clip covers the wrap. -/
theorem copiesStayInside_iff (s : Recorder) (cmd source : Nat) (readback : Bool)
    (sourceRegion : Option IRect) (destinationOffset : Nat) :
    (∀ destination, CopiesStayInside s cmd source destination readback sourceRegion destinationOffset) ↔
      ClipCoversWrap (s.desc source) sourceRegion destinationOffset := by
  constructor
  · intro h clipped hclip himage
    -- a buffer that ends where the check thinks the region ends is accepted
    have hfits := copiesStayInside_iff_fits.mp (h ⟨0, _⟩) clipped hclip himage (le_refl _)
    exact (covers_iff hclip).mpr hfits
  · intro h destination
    refine copiesStayInside_iff_fits.mpr fun clipped hclip himage haccepts => ?_
    have hend := (covers_iff hclip).mp (h clipped hclip himage)
    exact hend.trans haccepts

/-- Where the end of the region is a `size_t`, there is nothing to make up for. -/
theorem clipCoversWrap_of_lt (desc : TextureDescriptor) (sourceRegion : Option IRect) (destinationOffset : Nat)
    (h : regionEnd desc sourceRegion destinationOffset < 18446744073709551616) :
    ClipCoversWrap desc sourceRegion destinationOffset := by
  intro clipped _ _
  rw [Nat.div_eq_of_lt h, Nat.zero_mul]
  exact Nat.zero_le _

/-- A texture of sixteen by sixteen pixels, of four bytes each. -/
def smallTexture : Recorder :=
  { sources := fun _ => { desc := { format := .kR8G8B8A8UNormInt, size := ⟨16, 16⟩ } } }

/-- The square of `2 ^ 31` pixels has `2 ^ 64` bytes, which the check takes for none. The
whole texture is then copied to a buffer of four bytes. -/
theorem copiesStayInside_wraps :
    ¬ CopiesStayInside smallTexture 0 0 ⟨0, 4⟩ false (some ⟨0, 0, 2147483648, 2147483648⟩) 0 := by
  intro h
  have hclip : clip (smallTexture.desc 0) (some ⟨0, 0, 2147483648, 2147483648⟩) = some ⟨0, 0, 16, 16⟩ := rfl
  have hfits := copiesStayInside_iff_fits.mp h _ hclip (by decide) (by decide)
  exact absurd hfits (by decide)

end Ogre.Hal.BlitPass
