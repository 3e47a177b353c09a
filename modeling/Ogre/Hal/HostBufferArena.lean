import Mathlib.Data.List.Infix
import Ogre.Hal.HostBuffer

/-! The views of the host buffer while allocations succeed: where they lie, what
they are aligned to, and how long their bytes stay theirs. -/
namespace Ogre.Hal.HostBuffer
open Ogre.Core Ogre.Library

/-- The current block exists, and no two places of the arena hold one buffer. -/
structure WellFormed (h : HostBuffer) : Prop where
  current : h.currentBuffer < (h.deviceBuffers h.frameIndex).length
  offset : h.offset ≤ kAllocatorBlockSize
  nonempty : ∀ f, 0 < (h.deviceBuffers f).length
  block : ∀ f, ∀ b ∈ h.deviceBuffers f, b.size = kAllocatorBlockSize ∧ b.id < h.allocations
  distinct : ∀ f g (i j : Nat) (b c : DeviceBuffer),
    (h.deviceBuffers f)[i]? = some b → (h.deviceBuffers g)[j]? = some c → b.id = c.id → f = g ∧ i = j

/-- What a frame's emplacing does to the arena: blocks are only appended, and the
place of the next byte only moves forward. -/
structure Grows (h t : HostBuffer) : Prop where
  frame : t.frameIndex = h.frameIndex
  blocks : ∀ f, h.deviceBuffers f <+: t.deviceBuffers f
  forward : h.currentBuffer < t.currentBuffer ∨
    t.currentBuffer = h.currentBuffer ∧ h.offset ≤ t.offset
  allocations : h.allocations ≤ t.allocations
  new : ∀ f, ∀ b ∈ t.deviceBuffers f, b ∈ h.deviceBuffers f ∨ h.allocations ≤ b.id

/-- A buffer that was allocated and is not a block of the arena. -/
def OneOff (h : HostBuffer) (b : DeviceBuffer) : Prop :=
  b.id < h.allocations ∧ ∀ f, ∀ c ∈ h.deviceBuffers f, c.id ≠ b.id

/-- The range of a view of the current block, directly before the next free byte. -/
structure InArena (h : HostBuffer) (length : Nat) (v : BufferView) (t : HostBuffer) (b : DeviceBuffer)
    (start : Nat) : Prop where
  view : v = .ofRaw b ⟨start, length⟩
  here : (t.deviceBuffers t.frameIndex)[t.currentBuffer]? = some b
  ends : start + length = t.offset
  after : h.currentBuffer < t.currentBuffer ∨ h.offset ≤ start

structure InOneOff (h : HostBuffer) (length : Nat) (v : BufferView) (t : HostBuffer)
    (b : DeviceBuffer) : Prop where
  view : v = .ofShared b ⟨0, length⟩
  size : b.size = length
  large : kAllocatorBlockSize < length
  fresh : h.allocations ≤ b.id
  oneOff : t.OneOff b

/-- A served request leaves the arena well formed and grown, and its view names a buffer. -/
structure Serves (h : HostBuffer) (length align : Nat) (v : BufferView) (t : HostBuffer) : Prop where
  wellFormed : t.WellFormed
  grows : h.Grows t
  placed : (∃ b start, h.InArena length v t b start ∧ (align ≠ 0 → align ∣ start)) ∨
    ∃ b, h.InOneOff length v t b

theorem create_wellFormed : create.WellFormed where
  current := by decide
  offset := by decide
  nonempty f := by simp [create]
  block f b hb := by
    obtain rfl : b = ⟨f.val, kAllocatorBlockSize⟩ := by simpa [create] using hb
    exact ⟨rfl, f.isLt⟩
  distinct f g i j b c hb hc he := by
    have hi : i = 0 := by
      have := (List.getElem?_eq_some_iff.mp hb).1
      simpa [create] using this
    have hj : j = 0 := by
      have := (List.getElem?_eq_some_iff.mp hc).1
      simpa [create] using this
    subst hi hj
    obtain rfl : ⟨f.val, kAllocatorBlockSize⟩ = b := by simpa [create] using hb
    obtain rfl : ⟨g.val, kAllocatorBlockSize⟩ = c := by simpa [create] using hc
    exact ⟨Fin.ext he, rfl⟩

theorem Grows.refl (h : HostBuffer) : h.Grows h where
  frame := rfl
  blocks _ := List.prefix_rfl
  forward := .inr ⟨rfl, le_rfl⟩
  allocations := le_rfl
  new _ _ hb := .inl hb

theorem Grows.trans {h t u : HostBuffer} (hg : h.Grows t) (tg : t.Grows u) : h.Grows u where
  frame := tg.frame.trans hg.frame
  blocks f := (hg.blocks f).trans (tg.blocks f)
  forward := by
    have := hg.forward
    have := tg.forward
    omega
  allocations := hg.allocations.trans tg.allocations
  new f b hb := by
    rcases tg.new f b hb with hb | hb
    · exact hg.new f b hb
    · exact .inr (hg.allocations.trans hb)

theorem Grows.oneOff {h t : HostBuffer} {b : DeviceBuffer} (hg : h.Grows t) (hb : h.OneOff b) :
    t.OneOff b := by
  refine ⟨hb.1.trans_le hg.allocations, fun f c hc he => ?_⟩
  have := hb.1
  rcases hg.new f c hc with hc | hc
  · exact hb.2 f c hc he
  · omega

theorem Serves.names {h t : HostBuffer} {length align : Nat} {v : BufferView}
    (hs : h.Serves length align v t) : ∃ b, v.getBuffer = some b := by
  rcases hs.placed with ⟨b, start, ha, -⟩ | ⟨b, ho⟩
  · exact ⟨b, by rw [ha.view]; rfl⟩
  · exact ⟨b, by rw [ho.view]; rfl⟩

theorem Serves.after {h t u : HostBuffer} {length align : Nat} {v : BufferView}
    (hg : h.Grows t) (hs : t.Serves length align v u) : h.Serves length align v u where
  wellFormed := hs.wellFormed
  grows := hg.trans hs.grows
  placed := by
    have hf := hg.forward
    have hn := hs.grows.forward
    rcases hs.placed with ⟨b, start, hb, ha⟩ | ⟨b, hb⟩
    · have := hb.after
      exact .inl ⟨b, start, ⟨hb.view, hb.here, hb.ends, by omega⟩, ha⟩
    · exact .inr ⟨b, hb.view, hb.size, hb.large, hg.allocations.trans hb.fresh, hb.oneOff⟩

private theorem write_wellFormed {h : HostBuffer} (w : h.WellFormed) (b : DeviceBuffer) (r : Range)
    (bytes : Bytes) : (h.write b r bytes).WellFormed :=
  ⟨w.current, w.offset, w.nonempty, w.block, w.distinct⟩

private theorem write_grows (h : HostBuffer) (b : DeviceBuffer) (r : Range) (bytes : Bytes) :
    h.Grows (h.write b r bytes) :=
  ⟨rfl, fun _ => List.prefix_rfl, .inr ⟨rfl, le_rfl⟩, le_rfl, fun _ _ hb => .inl hb⟩

private theorem offset_wellFormed {h : HostBuffer} (w : h.WellFormed) {o : Nat}
    (ho : o ≤ kAllocatorBlockSize) : { h with offset := o }.WellFormed :=
  ⟨w.current, ho, w.nonempty, w.block, w.distinct⟩

private theorem offset_grows (h : HostBuffer) {o : Nat} (ho : h.offset ≤ o) :
    h.Grows { h with offset := o } :=
  ⟨rfl, fun _ => List.prefix_rfl, .inr ⟨rfl, ho⟩, le_rfl, fun _ _ hb => .inl hb⟩

/-- What every path does once the place of a request of at most a block is found. -/
private theorem place_spec {h : HostBuffer} (w : h.WellFormed) (length : Nat)
    (hfit : h.offset + length ≤ kAllocatorBlockSize) (bytes : Bytes) :
    ∃ b t, (h.getCurrentBuffer.map fun b => (((⟨h.offset, length⟩, none, some b) : Emplaced),
        { h.write b ⟨h.offset, length⟩ bytes with offset := sizeAdd h.offset length })) =
      some ((⟨h.offset, length⟩, none, some b), t) ∧
      t.WellFormed ∧ h.Grows t ∧ h.InArena length (.ofRaw b ⟨h.offset, length⟩) t b h.offset := by
  obtain ⟨b, hb⟩ : ∃ b, h.getCurrentBuffer = some b := ⟨_, List.getElem?_eq_getElem w.current⟩
  have hsum : sizeAdd h.offset length = h.offset + length :=
    sizeAdd_eq (by simp only [kAllocatorBlockSize] at hfit; omega)
  rw [hsum, hb]
  refine ⟨b, { h.write b ⟨h.offset, length⟩ bytes with offset := h.offset + length }, rfl,
    offset_wellFormed (write_wellFormed w _ _ _) hfit,
    (write_grows h b _ bytes).trans (offset_grows _ (Nat.le_add_right _ _)), rfl, hb, rfl, .inr le_rfl⟩

private theorem oneOff_wellFormed {h : HostBuffer} (w : h.WellFormed) (m : Nat → Nat → UInt8) :
    { h with allocations := h.allocations + 1, memory := m }.WellFormed :=
  ⟨w.current, w.offset, w.nonempty, fun f b hb =>
    ⟨(w.block f b hb).1, (w.block f b hb).2.trans (Nat.lt_succ_self _)⟩, w.distinct⟩

private theorem oneOff_grows (h : HostBuffer) (m : Nat → Nat → UInt8) :
    h.Grows { h with allocations := h.allocations + 1, memory := m } :=
  ⟨rfl, fun _ => List.prefix_rfl, .inr ⟨rfl, le_rfl⟩, Nat.le_succ _, fun _ _ hb => .inl hb⟩

private theorem oneOff_placed {h : HostBuffer} (w : h.WellFormed) {length : Nat}
    (hl : kAllocatorBlockSize < length) (m : Nat → Nat → UInt8) :
    h.InOneOff length (.ofShared ⟨h.allocations, length⟩ ⟨0, length⟩)
      { h with allocations := h.allocations + 1, memory := m } ⟨h.allocations, length⟩ where
  view := rfl
  size := rfl
  large := hl
  fresh := le_rfl
  oneOff := ⟨Nat.lt_succ_self _, fun f c hc => (w.block f c hc).2.ne⟩

/-- The bytes that bring an offset to a multiple of a non-zero alignment. -/
def padding (offset align : Nat) : Nat :=
  if align = 0 ∨ offset % align = 0 then 0 else align - offset % align

private theorem dvd_padded {offset align : Nat} (ha : align ≠ 0) : align ∣ offset + padding offset align := by
  unfold padding
  split
  case isTrue hp => exact Nat.dvd_of_mod_eq_zero (hp.resolve_left ha)
  case isFalse =>
    have hlt := Nat.mod_lt offset (Nat.pos_of_ne_zero ha)
    have hdiv := Nat.div_add_mod offset align
    exact ⟨offset / align + 1, by rw [Nat.mul_add, Nat.mul_one]; omega⟩

section Allocator
variable {succeeds : Nat → Bool} (hok : ∀ n, succeeds n = true)
include hok

private theorem createBuffer_eq (h : HostBuffer) (size : Nat) :
    h.createBuffer succeeds size =
      (some ⟨h.allocations, size⟩, { h with allocations := h.allocations + 1 }) := by
  simp [createBuffer, hok]

/-- Moving to the next block appends one where the frame has no more. -/
theorem maybeCreateNewBuffer_spec {h : HostBuffer} (w : h.WellFormed) :
    ∃ t, h.maybeCreateNewBuffer succeeds = (true, t) ∧ t.WellFormed ∧ h.Grows t ∧
      t.offset = 0 ∧ h.currentBuffer < t.currentBuffer := by
  have hcur := w.current
  by_cases hlast : (h.deviceBuffers h.frameIndex).length ≤ h.currentBuffer + 1
  · refine ⟨_, by simp [maybeCreateNewBuffer, hlast, createBuffer_eq hok]; rfl, ?_, ?_, rfl, by simp⟩
    · refine ⟨?_, by simp, ?_, ?_, ?_⟩
      · simpa using hcur
      · intro f
        by_cases hf : f = h.frameIndex
        · subst hf; simp
        · simpa [hf] using w.nonempty f
      · intro f b hb
        by_cases hf : f = h.frameIndex
        · subst hf
          simp only [Function.update_self, List.mem_append, List.mem_singleton] at hb
          rcases hb with hb | rfl
          · exact ⟨(w.block _ b hb).1, (w.block _ b hb).2.trans (Nat.lt_succ_self _)⟩
          · exact ⟨rfl, Nat.lt_succ_self _⟩
        · simp only [Function.update_of_ne hf] at hb
          exact ⟨(w.block _ b hb).1, (w.block _ b hb).2.trans (Nat.lt_succ_self _)⟩
      · -- an old place keeps its buffer, and the only new one has a new number
        have old (f : Fin kHostBufferArenaSize) (i : Nat) (b : DeviceBuffer)
            (hb : (Function.update h.deviceBuffers h.frameIndex (h.deviceBuffers h.frameIndex ++
              [⟨h.allocations, kAllocatorBlockSize⟩]) f)[i]? = some b) :
            (h.deviceBuffers f)[i]? = some b ∧ b.id < h.allocations ∨
            f = h.frameIndex ∧ i = (h.deviceBuffers f).length ∧ b.id = h.allocations := by
          by_cases hf : f = h.frameIndex
          · subst hf
            simp only [Function.update_self, List.getElem?_append] at hb
            split at hb
            · exact .inl ⟨hb, (w.block _ b (List.mem_of_getElem? hb)).2⟩
            · have := (List.getElem?_eq_some_iff.mp hb).1
              have hi : i = (h.deviceBuffers h.frameIndex).length := by
                simp only [List.length_singleton] at this
                omega
              obtain rfl : ⟨h.allocations, kAllocatorBlockSize⟩ = b := by simpa [hi] using hb
              exact .inr ⟨rfl, hi, rfl⟩
          · simp only [Function.update_of_ne hf] at hb
            exact .inl ⟨hb, (w.block _ b (List.mem_of_getElem? hb)).2⟩
        intro f g i j b c hb hc he
        rcases old f i b hb with ⟨hb, hlt⟩ | ⟨rfl, rfl, hid⟩ <;>
          rcases old g j c hc with ⟨hc, hlt'⟩ | ⟨rfl, rfl, hid'⟩
        · exact w.distinct f g i j b c hb hc he
        · omega
        · omega
        · exact ⟨rfl, rfl⟩
    · refine ⟨rfl, ?_, .inl (Nat.lt_succ_self _), Nat.le_succ _, ?_⟩
      · intro f
        by_cases hf : f = h.frameIndex
        · subst hf; simp
        · simp [hf]
      · intro f b hb
        by_cases hf : f = h.frameIndex
        · subst hf
          simp only [Function.update_self, List.mem_append, List.mem_singleton] at hb
          rcases hb with hb | rfl
          · exact .inl hb
          · exact .inr le_rfl
        · exact .inl (by simpa [hf] using hb)
  · refine ⟨{ h with currentBuffer := h.currentBuffer + 1, offset := 0 },
      by simp [maybeCreateNewBuffer, hlast], ?_, ?_, rfl, Nat.lt_succ_self _⟩
    · exact ⟨Nat.lt_of_not_le hlast, by simp, w.nonempty, w.block, w.distinct⟩
    · exact ⟨rfl, fun _ => List.prefix_rfl, .inl (Nat.lt_succ_self _), le_rfl, fun _ _ hb => .inl hb⟩

/-- A request that fits goes where the next byte is; one that does not starts a block. -/
theorem emplaceInternal_spec {h : HostBuffer} (w : h.WellFormed) (buffer : Option Bytes)
    (length : Nat) :
    ∃ e t, h.emplaceInternal succeeds buffer length = some (e, t) ∧ t.WellFormed ∧ h.Grows t ∧
      ((∃ b start, h.InArena length (toBufferView e) t b start ∧ (start = h.offset ∨ start = 0)) ∨
        ∃ b, h.InOneOff length (toBufferView e) t b) := by
  have ho := w.offset
  by_cases hl : kAllocatorBlockSize < length
  · obtain ⟨m, hm⟩ : ∃ m, h.emplaceInternal succeeds buffer length =
        some ((⟨0, length⟩, some ⟨h.allocations, length⟩, none),
          { h with allocations := h.allocations + 1, memory := m }) := by
      have hpos : length ≠ 0 := by omega
      have hle : ¬ length < sizeAdd 0 length := by
        simpa [sizeAdd] using Nat.mod_le length _
      cases buffer with
      | none => exact ⟨_, by simp only [emplaceInternal, if_pos hl, createBuffer_eq hok]; rfl⟩
      | some bytes =>
        exact ⟨_, by simp only [emplaceInternal, if_pos hl, createBuffer_eq hok, copyHostBuffer,
          if_neg hpos, if_neg hle]; rfl⟩
    exact ⟨_, _, hm, oneOff_wellFormed w m, oneOff_grows h m, .inr ⟨_, oneOff_placed w hl m⟩⟩
  · have hsum : sizeAdd h.offset length = h.offset + length :=
      sizeAdd_eq (by simp only [kAllocatorBlockSize] at ho hl; omega)
    by_cases hfull : kAllocatorBlockSize < h.offset + length
    · obtain ⟨t, ht, wt, hg, ht0, hnext⟩ := maybeCreateNewBuffer_spec hok w
      obtain ⟨b, u, hu, wu, tg, ha⟩ :=
        place_spec wt length (by rw [ht0]; omega) (buffer.getD fun _ => none)
      refine ⟨(⟨t.offset, length⟩, none, some b), u, ?_, wu, hg.trans tg,
        .inl ⟨b, t.offset, ⟨ha.view, ha.here, ha.ends, .inl ?_⟩, .inr ht0⟩⟩
      · simpa only [emplaceInternal, if_neg hl, hsum, if_pos hfull, ht, if_true] using hu
      · have := tg.forward
        omega
    · obtain ⟨b, u, hu, wu, tg, ha⟩ :=
        place_spec w length (by omega) (buffer.getD fun _ => none)
      refine ⟨(⟨h.offset, length⟩, none, some b), u, ?_, wu, tg, .inl ⟨b, h.offset, ha, .inl rfl⟩⟩
      simpa only [emplaceInternal, if_neg hl, hsum, if_neg hfull, if_true] using hu

theorem emplaceInternalAligned_spec {h : HostBuffer} (w : h.WellFormed) (buffer : Option Bytes)
    (length align : Nat)
    (hf : h.offset + padding h.offset align + length < 18446744073709551616) :
    ∃ e t, h.emplaceInternalAligned succeeds buffer length align = some (e, t) ∧
      h.Serves length align (toBufferView e) t := by
  -- the next byte of the state that serves the request is aligned, or the request needs no alignment
  have serve (t : HostBuffer) (wt : t.WellFormed) (hg : h.Grows t) (ht : align ≠ 0 → align ∣ t.offset)
      (x : Option (Emplaced × HostBuffer)) (hx : x = t.emplaceInternal succeeds buffer length) :
      ∃ e u, x = some (e, u) ∧ h.Serves length align (toBufferView e) u := by
    obtain ⟨e, u, hu, wu, tg, hp⟩ := emplaceInternal_spec hok wt buffer length
    refine ⟨e, u, hx.trans hu, Serves.after hg ⟨wu, tg, ?_⟩⟩
    rcases hp with ⟨b, start, ha, rfl | rfl⟩ | ho
    · exact .inl ⟨b, _, ha, ht⟩
    · exact .inl ⟨b, 0, ha, fun _ => Nat.dvd_zero _⟩
    · exact .inr ho
  by_cases hal : align = 0 ∨ h.offset % align = 0
  · refine serve h w (.refl h) (fun h0 => ?_) _ (by rw [emplaceInternalAligned, if_pos hal])
    exact Nat.dvd_of_mod_eq_zero (hal.resolve_left h0)
  · have hp : padding h.offset align = align - h.offset % align := if_neg hal
    have hpad : sizeAdd h.offset (align - h.offset % align) = h.offset + padding h.offset align := by
      rw [hp] at hf ⊢
      exact sizeAdd_eq (by omega)
    by_cases hroom : h.offset + padding h.offset align < kAllocatorBlockSize
    · refine serve _ (offset_wellFormed w hroom.le) (offset_grows h (Nat.le_add_right _ _))
        dvd_padded _ ?_
      simp only [emplaceInternalAligned, if_neg hal, hpad, if_pos hroom, if_true]
    · obtain ⟨t, ht, wt, hg, ht0, hnext⟩ := maybeCreateNewBuffer_spec hok w
      refine serve t wt hg (fun _ => ht0 ▸ Nat.dvd_zero _) _ ?_
      simp only [emplaceInternalAligned, if_neg hal, hpad, if_neg hroom, ht, if_true]

theorem emplaceInternalProc_spec {h : HostBuffer} (w : h.WellFormed) (length align : Nat)
    (bytes : Bytes) (hf : h.offset + padding h.offset align + length < 18446744073709551616) :
    ∃ e t, h.emplaceInternalProc succeeds length align (some bytes) = some (e, t) ∧
      h.Serves length align (toBufferView e) t := by
  by_cases hl : kAllocatorBlockSize < length
  · refine ⟨_, _, by simp only [emplaceInternalProc, if_pos hl, createBuffer_eq hok]; rfl, ?_⟩
    exact ⟨write_wellFormed (oneOff_wellFormed w _) _ _ _, (oneOff_grows h _).trans (write_grows _ _ _ _),
      .inr ⟨_, oneOff_placed w hl _⟩⟩
  · have hp : (if 0 < align ∧ h.offset % align ≠ 0 then align - h.offset % align else 0) =
        padding h.offset align := by
      unfold padding
      split <;> split <;> omega
    have hpadded : sizeAdd h.offset (padding h.offset align) = h.offset + padding h.offset align :=
      sizeAdd_eq (by omega)
    have hsum : sizeAdd (h.offset + padding h.offset align) length =
        h.offset + padding h.offset align + length := sizeAdd_eq (by omega)
    by_cases hfull : kAllocatorBlockSize < h.offset + padding h.offset align + length
    · obtain ⟨t, ht, wt, hg, ht0, hnext⟩ := maybeCreateNewBuffer_spec hok w
      obtain ⟨b, u, hu, wu, tg, ha⟩ := place_spec wt length (by rw [ht0]; omega) bytes
      refine ⟨(⟨t.offset, length⟩, none, some b), u, ?_, .after hg ⟨wu, tg, .inl ⟨b, _, ha, fun _ => ?_⟩⟩⟩
      · simpa only [emplaceInternalProc, if_neg hl, hp, hpadded, hsum, if_pos hfull, ht, if_true] using hu
      · exact ht0 ▸ Nat.dvd_zero _
    · obtain ⟨b, u, hu, wu, tg, ha⟩ := place_spec (h := { h with offset := h.offset + padding h.offset align })
        (offset_wellFormed w (by omega)) length (by simp only; omega) bytes
      refine ⟨(⟨h.offset + padding h.offset align, length⟩, none, some b), u, ?_,
        .after (offset_grows h (Nat.le_add_right _ _)) ⟨wu, tg, .inl ⟨b, _, ha, dvd_padded⟩⟩⟩
      simpa only [emplaceInternalProc, if_neg hl, hp, hpadded, hsum, if_neg hfull, if_true] using hu

end Allocator
end Ogre.Hal.HostBuffer
