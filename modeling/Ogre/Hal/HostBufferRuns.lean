import Ogre.Hal.HostBufferArena

/-! Runs of the host buffer: the bytes of a view stay its own until the ring of
frames comes round to them again. -/
namespace Ogre.Hal.HostBuffer
open Ogre.Core Ogre.Library

namespace Call

def length : Call → Nat
  | emplaceAligned _ length _ => length
  | emplace _ length => length
  | emplaceProc length _ _ => length
  | reset => 0

def align : Call → Nat
  | emplaceAligned _ _ align => align
  | emplace _ _ => 0
  | emplaceProc _ align _ => align
  | reset => 0

def isReset : Call → Bool
  | reset => true
  | _ => false

end Call

/-- The sum of offset, padding and length is a `size_t`. -/
def Fits (h : HostBuffer) (c : Call) : Prop :=
  h.offset + padding h.offset c.align + c.length < 18446744073709551616

instance (h : HostBuffer) (c : Call) : Decidable (Fits h c) := inferInstanceAs (Decidable (_ < _))

/-- The number of calls to `Reset`. -/
def resets (calls : List Call) : Nat := calls.countP Call.isReset

theorem reset_wellFormed {h : HostBuffer} (w : h.WellFormed) : h.reset.WellFormed where
  current := by
    by_cases hf : h.frameIndex + 1 = h.frameIndex
    · simpa [reset, hf] using w.nonempty h.frameIndex
    · simpa [reset, hf] using w.nonempty (h.frameIndex + 1)
  offset := Nat.zero_le _
  nonempty f := by
    by_cases hf : f = h.frameIndex
    · subst hf
      have := w.nonempty h.frameIndex
      simp only [reset, Function.update_self, List.length_take]
      omega
    · simpa [reset, hf] using w.nonempty f
  block f b hb := by
    by_cases hf : f = h.frameIndex
    · subst hf
      exact w.block _ b (List.mem_of_mem_take (by simpa [reset] using hb))
    · exact w.block f b (by simpa [reset, hf] using hb)
  distinct f g i j b c hb hc he := by
    have old (f : Fin kHostBufferArenaSize) (i : Nat) (b : DeviceBuffer)
        (hb : (h.reset.deviceBuffers f)[i]? = some b) : (h.deviceBuffers f)[i]? = some b := by
      by_cases hf : f = h.frameIndex
      · subst hf
        simp only [reset, Function.update_self, List.getElem?_take] at hb
        split at hb
        · exact hb
        · cases hb
      · simpa [reset, hf] using hb
    exact w.distinct f g i j b c (old f i b hb) (old g j c hc) he

theorem reset_oneOff {h : HostBuffer} {b : DeviceBuffer} (hb : h.OneOff b) : h.reset.OneOff b := by
  refine ⟨hb.1, fun f c hc => hb.2 f c ?_⟩
  by_cases hf : f = h.frameIndex
  · subst hf
    exact List.mem_of_mem_take (by simpa [reset] using hc)
  · simpa [reset, hf] using hc

theorem isReset_of_asks {c : Call} (hc : c.asks) : c.isReset = false := by
  cases c with
  | reset => cases hc
  | _ => rfl

/-- A call that asks for nothing returns the empty view, and changes something only if it is `Reset`. -/
theorem call_of_not_asks (succeeds : Nat → Bool) (h : HostBuffer) {c : Call} (hc : c.asks = false) :
    ∃ t, h.call succeeds c = some ({}, t) ∧ (c = .reset ∧ t = h.reset ∨ c.isReset = false ∧ t = h) := by
  cases c with
  | reset => exact ⟨_, rfl, .inl ⟨rfl, rfl⟩⟩
  | emplaceProc length align cb =>
    cases cb with
    | none => exact ⟨_, rfl, .inr ⟨rfl, rfl⟩⟩
    | some bytes => cases hc
  | _ => cases hc

section Allocator
variable {succeeds : Nat → Bool} (hok : ∀ n, succeeds n = true)
include hok

/-- One request is served, whatever overload it is made through. -/
theorem call_serves {h : HostBuffer} (w : h.WellFormed) {c : Call} (hc : c.asks) (hf : Fits h c) :
    ∃ v t, h.call succeeds c = some (v, t) ∧ h.Serves c.length c.align v t := by
  cases c with
  | emplaceAligned buffer length align =>
    obtain ⟨e, t, he, hs⟩ := emplaceInternalAligned_spec hok w buffer length align hf
    exact ⟨toBufferView e, t, by simp [call, he], hs⟩
  | emplace buffer length =>
    obtain ⟨e, t, he, wt, hg, hp⟩ := emplaceInternal_spec hok w buffer length
    refine ⟨toBufferView e, t, by simp [call, he], wt, hg, ?_⟩
    rcases hp with ⟨b, start, ha, -⟩ | ho
    · exact .inl ⟨b, start, ha, fun h0 => (h0 rfl).elim⟩
    · exact .inr ho
  | emplaceProc length align cb =>
    cases cb with
    | none => cases hc
    | some bytes =>
      obtain ⟨e, t, he, hs⟩ := emplaceInternalProc_spec hok w length align bytes hf
      exact ⟨toBufferView e, t, by simp [call, he], hs⟩
  | reset => cases hc

theorem step_cases {h t : HostBuffer} (w : h.WellFormed) {c : Call} (hf : Fits h c)
    (hs : (machine succeeds).step h c = some t) :
    (c = .reset ∧ t = h.reset) ∨ (c.isReset = false ∧ t = h) ∨
      (c.isReset = false ∧ ∃ v, h.call succeeds c = some (v, t) ∧ h.Serves c.length c.align v t) := by
  cases hc : c.asks with
  | false =>
    obtain ⟨u, hu, hcase⟩ := call_of_not_asks succeeds h hc
    obtain rfl : u = t := by simpa [machine, hu] using hs
    exact hcase.imp_right .inl
  | true =>
    obtain ⟨v, u, hu, hv⟩ := call_serves hok w hc hf
    obtain rfl : u = t := by simpa [machine, hu] using hs
    exact .inr (.inr ⟨isReset_of_asks hc, v, hu, hv⟩)

theorem step_wellFormed {h t : HostBuffer} {c : Call} (w : h.WellFormed) (hf : Fits h c)
    (hs : (machine succeeds).step h c = some t) : t.WellFormed := by
  rcases step_cases hok w hf hs with ⟨rfl, rfl⟩ | ⟨-, rfl⟩ | ⟨-, v, -, hv⟩
  · exact reset_wellFormed w
  · exact w
  · exact hv.wellFormed

theorem run_wellFormed {calls : List Call} {h : HostBuffer}
    (hf : (machine succeeds).Along (fun h c _ => Fits h c) create calls)
    (hr : (machine succeeds).run calls = some h) : h.WellFormed :=
  Machine.invariant_along (fun _ _ _ w hf hs => step_wellFormed hok w hf hs) create_wellFormed hf hr

end Allocator

/-- The block at place `i` of frame slot `f` holds bytes below `ends` that were
handed out `k` resets ago. -/
structure Holds (f : Fin kHostBufferArenaSize) (i ends : Nat) (b : DeviceBuffer) (k : Nat)
    (h : HostBuffer) : Prop where
  wellFormed : h.WellFormed
  block : (h.deviceBuffers f)[i]? = some b
  frame : h.frameIndex.val = (f.val + k) % kHostBufferArenaSize
  below : k = 0 → i < h.currentBuffer ∨ i = h.currentBuffer ∧ ends ≤ h.offset

theorem Holds.grows {f : Fin kHostBufferArenaSize} {i ends k : Nat} {b : DeviceBuffer}
    {h t : HostBuffer} (hh : Holds f i ends b k h) (w : t.WellFormed) (hg : h.Grows t) :
    Holds f i ends b k t where
  wellFormed := w
  block := by
    obtain ⟨l, hl⟩ := hg.blocks f
    rw [← hl, List.getElem?_append_left (List.getElem?_eq_some_iff.mp hh.block).1]
    exact hh.block
  frame := hg.frame ▸ hh.frame
  below hk := by
    have := hh.below hk
    have := hg.forward
    omega

/-- Only the reset that ends the frame of the block trims its slot, and it keeps
the blocks up to the current one. -/
theorem Holds.reset {f : Fin kHostBufferArenaSize} {i ends k : Nat} {b : DeviceBuffer}
    {h : HostBuffer} (hh : Holds f i ends b k h) (hk : k < kHostBufferArenaSize) :
    Holds f i ends b (k + 1) h.reset where
  wellFormed := reset_wellFormed hh.wellFormed
  block := by
    by_cases hf : f = h.frameIndex
    · have h0 : k = 0 := by
        have hframe := hh.frame
        rw [← hf] at hframe
        simp only [kHostBufferArenaSize] at hframe hk
        omega
      have hi : i < h.currentBuffer + 1 := by
        have := hh.below h0
        omega
      subst hf
      simpa [HostBuffer.reset, List.getElem?_take, hi] using hh.block
    · simpa [HostBuffer.reset, hf] using hh.block
  frame := by
    have hframe := hh.frame
    simp only [HostBuffer.reset, Fin.val_add, kHostBufferArenaSize] at hframe ⊢
    rw [hframe]
    omega
  below h0 := by omega

/-- Bytes that are held are not in the range of any view that a call returns. -/
theorem Holds.disjoint {f : Fin kHostBufferArenaSize} {i ends k : Nat} {b : DeviceBuffer}
    {h t : HostBuffer} {r : Range} {length align : Nat} {v : BufferView} (hh : Holds f i ends b k h)
    (hk : k < kHostBufferArenaSize) (hr : r.offset + r.length ≤ ends)
    (hs : h.Serves length align v t) (hv : v.getBuffer = some b) : Disjoint r.bytes v.range.bytes := by
  rcases hs.placed with ⟨c, start, ha, -⟩ | ⟨c, ho⟩
  · obtain rfl : c = b := by simpa [ha.view] using hv
    have ht := hh.grows hs.wellFormed hs.grows
    obtain ⟨hf, hi⟩ := hs.wellFormed.distinct f t.frameIndex i t.currentBuffer c c ht.block ha.here rfl
    have h0 : k = 0 := by
      have hframe := hh.frame
      rw [hf, hs.grows.frame] at hframe
      simp only [kHostBufferArenaSize] at hframe hk
      omega
    have hbelow := hh.below h0
    have hafter := ha.after
    have hforward := hs.grows.forward
    rw [ha.view]
    exact Range.disjoint_of_le (by simp only [BufferView.range_ofRaw]; omega)
  · obtain rfl : c = b := by simpa [ho.view] using hv
    have := (hh.wellFormed.block f c (List.mem_of_getElem? hh.block)).2
    have := ho.fresh
    omega

/-- No later call hands out a one-off buffer. -/
theorem OneOff.not_served {h t : HostBuffer} {b : DeviceBuffer} {length align : Nat} {v : BufferView}
    (hb : h.OneOff b) (hs : h.Serves length align v t) : v.getBuffer ≠ some b := by
  intro hv
  rcases hs.placed with ⟨c, start, ha, -⟩ | ⟨c, ho⟩
  · obtain rfl : c = b := by simpa [ha.view] using hv
    exact (hs.grows.oneOff hb).2 _ c (List.mem_of_getElem? ha.here) rfl
  · obtain rfl : c = b := by simpa [ho.view] using hv
    have := hb.1
    have := ho.fresh
    omega

section Allocator
variable {succeeds : Nat → Bool} (hok : ∀ n, succeeds n = true)
include hok

theorem Holds.run {f : Fin kHostBufferArenaSize} {i ends k : Nat} {b : DeviceBuffer}
    {h u : HostBuffer} {calls : List Call} (hh : Holds f i ends b k h)
    (hk : k + resets calls < kHostBufferArenaSize)
    (hf : (machine succeeds).Along (fun h c _ => Fits h c) h calls)
    (hr : (machine succeeds).runFrom h calls = some u) : Holds f i ends b (k + resets calls) u := by
  induction calls generalizing h k with
  | nil =>
    obtain rfl : h = u := by simpa using hr
    exact hh
  | cons c calls ih =>
    obtain ⟨t, ht, hr⟩ := Machine.runFrom_cons_some.mp hr
    rcases step_cases hok hh.wellFormed (hf.head ht) ht with ⟨rfl, rfl⟩ | ⟨hc, hth⟩ | ⟨hc, v, -, hv⟩
    · have hn : resets (.reset :: calls) = resets calls + 1 := List.countP_cons_of_pos rfl
      rw [hn] at hk ⊢
      have := ih (hh.reset (by omega)) (by omega) (hf.tail ht) hr
      rwa [Nat.add_right_comm, Nat.add_assoc] at this
    · have hn : resets (c :: calls) = resets calls := List.countP_cons_of_neg (by simp [hc])
      have hf := hf.tail ht
      rw [hth] at hf hr
      rw [hn] at hk ⊢
      exact ih hh hk hf hr
    · have hn : resets (c :: calls) = resets calls := List.countP_cons_of_neg (by simp [hc])
      rw [hn] at hk ⊢
      exact ih (hh.grows hv.wellFormed hv.grows) hk (hf.tail ht) hr

theorem OneOff.run {h u : HostBuffer} {b : DeviceBuffer} {calls : List Call} (w : h.WellFormed)
    (hb : h.OneOff b) (hf : (machine succeeds).Along (fun h c _ => Fits h c) h calls)
    (hr : (machine succeeds).runFrom h calls = some u) : u.WellFormed ∧ u.OneOff b := by
  refine Machine.invariant_along (I := fun h => h.WellFormed ∧ h.OneOff b) ?_ ⟨w, hb⟩ hf hr
  rintro h c t ⟨w, hb⟩ hf hs
  rcases step_cases hok w hf hs with ⟨rfl, rfl⟩ | ⟨-, rfl⟩ | ⟨-, v, -, hv⟩
  · exact ⟨reset_wellFormed w, reset_oneOff hb⟩
  · exact ⟨w, hb⟩
  · exact ⟨hv.wellFormed, hv.grows.oneOff hb⟩

end Allocator

/-- The view names a block of the arena, or a buffer of the length asked for, and
lies inside of it. -/
structure LiesIn (c : Call) (v : BufferView) (t : HostBuffer) (b : DeviceBuffer) : Prop where
  buffer : (b.size = kAllocatorBlockSize ∧ ∃ f, b ∈ t.deviceBuffers f) ∨
    (b.size = c.length ∧ ∀ f, b ∉ t.deviceBuffers f)
  length : v.range.length = c.length
  inside : v.range.offset + v.range.length ≤ b.size

/-- No later call takes the buffer from the arena or hands out a byte of the view
again: of a block for fewer than `kHostBufferArenaSize` resets, of a one-off buffer ever. -/
def Kept (v : BufferView) (t : HostBuffer) (b : DeviceBuffer) : Prop :=
  ∀ later u, (machine fun _ => true).runFrom t later = some u →
    (machine fun _ => true).Along (fun h c _ => Fits h c) t later →
    ((∃ f, b ∈ t.deviceBuffers f) → resets later < kHostBufferArenaSize) →
    (∀ f, b ∈ t.deviceBuffers f → b ∈ u.deviceBuffers f) ∧
      ∀ c w u', Fits u c → u.call (fun _ => true) c = some (w, u') → w.getBuffer = some b →
        Disjoint v.range.bytes w.range.bytes

private theorem InArena.holds {h t : HostBuffer} {length start : Nat} {v : BufferView}
    {b : DeviceBuffer} (w : t.WellFormed) (ha : h.InArena length v t b start) :
    Holds t.frameIndex t.currentBuffer (start + length) b 0 t where
  wellFormed := w
  block := ha.here
  frame := (Nat.mod_eq_of_lt t.frameIndex.isLt).symm
  below _ := .inr ⟨rfl, ha.ends.le⟩

private theorem view_of_not_asks {succeeds : Nat → Bool} {h t : HostBuffer} {c : Call} {v : BufferView}
    (hc : c.asks = false) (hs : h.call succeeds c = some (v, t)) : v = {} := by
  obtain ⟨u, hu, -⟩ := call_of_not_asks succeeds h hc
  exact (Prod.mk.inj (Option.some.inj (hs.symm.trans hu))).1

private theorem InArena.kept {h t : HostBuffer} {length start : Nat} {v : BufferView}
    {b : DeviceBuffer} (w : t.WellFormed) (ha : h.InArena length v t b start) : Kept v t b := by
  intro later u hr hf hk
  have hb := List.mem_of_getElem? ha.here
  have hlt := hk ⟨_, hb⟩
  have hu := (ha.holds w).run (fun _ => rfl) (by omega) hf hr
  refine ⟨fun f hm => ?_, fun c x u' hfc hs hx => ?_⟩
  · obtain ⟨i, hi⟩ := List.getElem?_of_mem hm
    obtain ⟨rfl, -⟩ := w.distinct f _ i _ b b hi ha.here rfl
    exact List.mem_of_getElem? hu.block
  · cases hc : c.asks with
    | false =>
      rw [view_of_not_asks hc hs] at hx
      cases hx
    | true =>
      obtain ⟨y, u'', hs', hv⟩ := call_serves (fun _ => rfl) hu.wellFormed hc hfc
      obtain ⟨rfl, rfl⟩ : y = x ∧ u'' = u' := by simpa [hs'] using hs
      exact hu.disjoint (by omega) (by rw [ha.view]; exact le_rfl) hv hx

private theorem OneOff.kept {t : HostBuffer} {v : BufferView} {b : DeviceBuffer} (w : t.WellFormed)
    (hb : t.OneOff b) : Kept v t b := by
  intro later u hr hf _
  obtain ⟨wu, hu⟩ := hb.run (fun _ => rfl) w hf hr
  refine ⟨fun f hm => (hb.2 f b hm rfl).elim, fun c x u' hfc hs hx => ?_⟩
  cases hc : c.asks with
  | false =>
    rw [view_of_not_asks hc hs] at hx
    cases hx
  | true =>
    obtain ⟨y, u'', hs', hv⟩ := call_serves (fun _ => rfl) wu hc hfc
    obtain ⟨rfl, rfl⟩ : y = x ∧ u'' = u' := by simpa [hs'] using hs
    exact (hu.not_served hv hx).elim

/-- Whatever calls came before, a call returns, with a view that names a buffer if
it asks for one; such a view lies in its buffer, is aligned as asked and keeps its bytes. -/
theorem emplaced_view_keeps_bytes {before : List Call} {h : HostBuffer} {c : Call}
    (hf : (machine fun _ => true).Along (fun h c _ => Fits h c) create before)
    (hr : (machine fun _ => true).run before = some h) (hc : Fits h c) :
    ∃ v t, h.call (fun _ => true) c = some (v, t) ∧ (c.asks → ∃ b, v.getBuffer = some b) ∧
      ∀ b, v.getBuffer = some b →
        LiesIn c v t b ∧ (c.align ≠ 0 → c.align ∣ v.range.offset) ∧ Kept v t b := by
  have w := run_wellFormed (fun _ => rfl) hf hr
  cases hasks : c.asks with
  | false =>
    obtain ⟨t, ht, -⟩ := call_of_not_asks (fun _ => true) h hasks
    refine ⟨{}, t, ht, fun ha => ?_, fun b hb => ?_⟩
    · cases ha
    · cases hb
  | true =>
    obtain ⟨v, t, ht, hs⟩ := call_serves (fun _ => rfl) w hasks hc
    refine ⟨v, t, ht, fun _ => hs.names, fun b hb => ?_⟩
    rcases hs.placed with ⟨d, start, ha, hal⟩ | ⟨d, ho⟩
    · obtain rfl : d = b := by simpa [ha.view] using hb
      have hd := List.mem_of_getElem? ha.here
      have hsize := (hs.wellFormed.block _ d hd).1
      have hends := ha.ends
      have hoffset := hs.wellFormed.offset
      exact ⟨⟨.inl ⟨hsize, _, hd⟩, by rw [ha.view]; rfl,
        by rw [ha.view, hsize]; exact hends.le.trans hoffset⟩,
        by rw [ha.view]; exact hal, ha.kept hs.wellFormed⟩
    · obtain rfl : d = b := by simpa [ho.view] using hb
      exact ⟨⟨.inr ⟨ho.size, fun f hm => ho.oneOff.2 f d hm rfl⟩, by rw [ho.view]; rfl,
        by rw [ho.view, ho.size]; exact (Nat.zero_add _).le⟩,
        by rw [ho.view]; exact fun _ => Nat.dvd_zero _, ho.oneOff.kept hs.wellFormed⟩

theorem emplaced_view_keeps_bytes_after_three : ∃ h v t,
    (machine fun _ => true).run [.emplace none 3] = some h ∧
      h.call (fun _ => true) (.emplaceProc 5 4 (some fun _ => some 7)) = some (v, t) ∧
      (∃ b, v.getBuffer = some b) ∧ v = .ofRaw ⟨0, kAllocatorBlockSize⟩ ⟨4, 5⟩ ∧ 4 ∣ v.range.offset ∧
      Kept v t ⟨0, kAllocatorBlockSize⟩ := by
  obtain ⟨v, t, ht, hnames, hv⟩ := @emplaced_view_keeps_bytes [.emplace none 3] _
    (.emplaceProc 5 4 (some fun _ => some 7)) (by decide) rfl (by decide)
  have hview : v = .ofRaw ⟨0, kAllocatorBlockSize⟩ ⟨4, 5⟩ := by
    have := ht.symm.trans (b := some (_, _)) rfl
    exact (Prod.mk.inj (Option.some.inj this)).1
  have hb := hv ⟨0, kAllocatorBlockSize⟩ (by rw [hview]; rfl)
  exact ⟨_, v, t, rfl, ht, hnames rfl, hview, hb.2.1 (by decide), hb.2.2⟩

end Ogre.Hal.HostBuffer
