import Ogre.Hal.HostBufferArena

/-! The host buffer when calls of the allocator fail. -/
namespace Ogre.Hal.HostBuffer
open Ogre.Core Ogre.Library

/-- The current block exists, and the next byte is not behind its end. -/
structure Usable (h : HostBuffer) : Prop where
  current : h.currentBuffer < (h.deviceBuffers h.frameIndex).length
  offset : h.offset ≤ kAllocatorBlockSize

/-- The request does not fit into the rest of the current block, or its padding does not. -/
def leavesBlock (h : HostBuffer) : Call → Bool
  | .emplaceAligned _ length align =>
    let next := sizeAdd h.offset (padding h.offset align)
    (padding h.offset align ≠ 0 && kAllocatorBlockSize ≤ next) ||
      (length ≤ kAllocatorBlockSize && kAllocatorBlockSize < sizeAdd next length)
  | .emplace _ length => length ≤ kAllocatorBlockSize && kAllocatorBlockSize < sizeAdd h.offset length
  | .emplaceProc length align (some _) =>
    length ≤ kAllocatorBlockSize &&
      kAllocatorBlockSize < sizeAdd (sizeAdd h.offset (padding h.offset align)) length
  | _ => false

def onLastBlock (h : HostBuffer) : Bool := (h.deviceBuffers h.frameIndex).length ≤ h.currentBuffer + 1

section Allocator
variable (succeeds : Nat → Bool)

/-- All calls of `CreateBuffer` between the two states succeed. -/
def Created (h t : HostBuffer) : Prop := ∀ n, h.allocations ≤ n → n < t.allocations → succeeds n = true

/-- The view names the current block, or a buffer that the call created. -/
def ServedFrom (h t : HostBuffer) (v : BufferView) : Prop :=
  ∃ b range, v = .ofRaw b range ∧ (t.deviceBuffers t.frameIndex)[t.currentBuffer]? = some b ∨
    v = .ofShared b range ∧ h.allocations ≤ b.id

/-- A call leaves a usable arena, and returns a view unless an allocation fails. -/
structure Survives (h : HostBuffer) (c : Call) (t : HostBuffer) : Prop where
  usable : t.Usable
  served : ∀ v, h.call succeeds c = some (v, t) → c.asks → Created succeeds h t → ServedFrom h t v
  empty : ∀ v, h.call succeeds c = some (v, t) → ¬(c.asks ∧ Created succeeds h t) → v = {}

/-- Every call returns and survives. -/
def SurvivesAll (calls : List Call) : Prop :=
  (∃ t, (machine succeeds).run calls = some t) ∧
    (machine succeeds).Along (Survives succeeds) create calls

/-- A block that the call needs is there, or is created. -/
def BlockCreated (h : HostBuffer) (c : Call) (_ : HostBuffer) : Prop :=
  h.leavesBlock c → h.onLastBlock → succeeds h.allocations

end Allocator

variable {succeeds : Nat → Bool} {h t : HostBuffer}

theorem create_usable : create.Usable := ⟨by decide, by decide⟩

/-- A step to the next block either needs a block that is not created, or lands on one. -/
private theorem maybeCreateNewBuffer_cases (succeeds : Nat → Bool) (hu : h.Usable) :
    (h.onLastBlock ∧ succeeds h.allocations = false ∧
      ∃ t, h.maybeCreateNewBuffer succeeds = (false, t) ∧ ¬t.Usable) ∨
    (h.onLastBlock → succeeds h.allocations) ∧ ∃ t, h.maybeCreateNewBuffer succeeds = (true, t) ∧
      t.Usable ∧ t.offset = 0 ∧ (∀ f, (h.deviceBuffers f).length ≤ (t.deviceBuffers f).length) ∧
      h.allocations ≤ t.allocations ∧ Created succeeds h t := by
  have hcurrent := hu.current
  unfold maybeCreateNewBuffer onLastBlock createBuffer
  by_cases hlast : (h.deviceBuffers h.frameIndex).length ≤ h.currentBuffer + 1
  · cases hs : succeeds h.allocations with
    | false =>
      refine .inl ⟨by simpa using hlast, rfl, _, by simp only [if_pos hlast, hs]; rfl, fun ht => ?_⟩
      exact Nat.not_lt_of_le hlast ht.current
    | true =>
      refine .inr ⟨fun _ => rfl, _, by simp only [if_pos hlast, hs]; rfl, ⟨?_, Nat.zero_le _⟩, rfl, fun f => ?_,
        Nat.le_succ _, fun n hle hlt => ?_⟩
      · simpa using hcurrent
      · rcases eq_or_ne f h.frameIndex with rfl | hf
        · simp
        · simp [hf]
      · have hlt : n < h.allocations + 1 := hlt
        obtain rfl : n = h.allocations := by omega
        exact hs
  · refine .inr ⟨fun hl => (hlast (by simpa using hl)).elim,
      { h with currentBuffer := h.currentBuffer + 1, offset := 0 }, by simp only [if_neg hlast],
      ⟨Nat.lt_of_not_le hlast, Nat.zero_le _⟩, rfl, fun _ => le_rfl, le_rfl, fun n hle hlt => ?_⟩
    exact absurd hle (Nat.not_le_of_lt hlt)

/-- What a call may return that asks for a view. -/
private structure Returns (succeeds : Nat → Bool) (h t : HostBuffer) (v : BufferView) : Prop where
  usable : t.Usable
  blocks : ∀ f, (h.deviceBuffers f).length ≤ (t.deviceBuffers f).length
  served : Created succeeds h t → ServedFrom h t v
  empty : ¬Created succeeds h t → v = {}

/-- The call fails for want of a block, or returns. -/
private def Outcome (succeeds : Nat → Bool) (h : HostBuffer) (leaves : Bool) (x : Option (Emplaced × HostBuffer)) :
    Prop :=
  (leaves ∧ h.onLastBlock ∧ succeeds h.allocations = false ∧ ∃ t, x = some (({}, none, none), t) ∧ ¬t.Usable) ∨
    (leaves → h.onLastBlock → succeeds h.allocations) ∧
      ∃ e t, x = some (e, t) ∧ Returns succeeds h t (toBufferView e)

private theorem Returns.after {u : HostBuffer} {v : BufferView}
    (hb : ∀ f, (h.deviceBuffers f).length ≤ (t.deviceBuffers f).length) (hle : h.allocations ≤ t.allocations)
    (hc : Created succeeds h t) (hr : Returns succeeds t u v) : Returns succeeds h u v where
  usable := hr.usable
  blocks f := (hb f).trans (hr.blocks f)
  served hu := by
    obtain ⟨b, range, hb | ⟨hv, hb⟩⟩ := hr.served fun n hn => hu n (hle.trans hn)
    · exact ⟨b, range, .inl hb⟩
    · exact ⟨b, range, .inr ⟨hv, hle.trans hb⟩⟩
  empty hu := by
    refine hr.empty fun htu => hu fun n hn hlt => ?_
    rcases Nat.lt_or_ge n t.allocations with hnt | hnt
    · exact hc n hn hnt
    · exact htu n hnt hlt

private theorem created_self (ha : t.allocations = h.allocations) : Created succeeds h t := fun n hle hlt => by
  omega

/-- A call that has found the place of its request. -/
private theorem returns_place (succeeds : Nat → Bool)
    (hcurrent : h.currentBuffer < (h.deviceBuffers h.frameIndex).length) {length : Nat}
    (hfit : sizeAdd h.offset length ≤ kAllocatorBlockSize) (bytes : Bytes) :
    ∃ e t, (h.getCurrentBuffer.map fun b => (((⟨h.offset, length⟩, none, some b) : Emplaced),
        { h.write b ⟨h.offset, length⟩ bytes with offset := sizeAdd h.offset length })) = some (e, t) ∧
      Returns succeeds h t (toBufferView e) := by
  obtain ⟨b, hb⟩ : ∃ b, h.getCurrentBuffer = some b := ⟨_, List.getElem?_eq_getElem hcurrent⟩
  rw [hb]
  exact ⟨_, _, rfl, ⟨hcurrent, hfit⟩, fun _ => le_rfl, fun _ => ⟨b, _, .inl ⟨rfl, hb⟩⟩,
    fun hn => (hn (created_self rfl)).elim⟩

/-- What is no larger than a block fits into an empty one. -/
private theorem fits_of_offset_eq_zero (h0 : h.offset = 0) {length : Nat} (hl : ¬kAllocatorBlockSize < length) :
    sizeAdd h.offset length ≤ kAllocatorBlockSize := by
  rw [h0, sizeAdd, Nat.zero_add]
  exact (Nat.mod_le _ _).trans (Nat.le_of_not_lt hl)

private theorem returns_failed (hu : h.Usable) (hs : succeeds h.allocations = false) :
    Returns succeeds h { h with allocations := h.allocations + 1 } {} := by
  refine ⟨⟨hu.current, hu.offset⟩, fun _ => le_rfl, fun hc => ?_, fun _ => rfl⟩
  rw [hc h.allocations le_rfl (Nat.lt_succ_self _)] at hs
  cases hs

private theorem returns_oneOff (hu : h.Usable) (hs : succeeds h.allocations = true) (length : Nat)
    (memory : Nat → Nat → UInt8) :
    Returns succeeds h { h with allocations := h.allocations + 1, memory }
      (.ofShared ⟨h.allocations, length⟩ ⟨0, length⟩) := by
  refine ⟨⟨hu.current, hu.offset⟩, fun _ => le_rfl, fun _ => ⟨_, _, .inr ⟨rfl, le_rfl⟩⟩,
    fun hn => (hn fun n hle hlt => ?_).elim⟩
  have hlt : n < h.allocations + 1 := hlt
  obtain rfl : n = h.allocations := by omega
  exact hs

private theorem emplaceInternal_outcome (succeeds : Nat → Bool) (hu : h.Usable) (buffer : Option Bytes) (length : Nat) :
    Outcome succeeds h (h.leavesBlock (.emplace buffer length)) (h.emplaceInternal succeeds buffer length) := by
  unfold emplaceInternal leavesBlock
  by_cases hl : kAllocatorBlockSize < length
  · refine .inr ⟨fun h => by simp [Nat.not_le_of_lt hl] at h, ?_⟩
    simp only [if_pos hl, createBuffer]
    cases hs : succeeds h.allocations with
    | false => exact ⟨_, _, rfl, returns_failed hu hs⟩
    | true =>
      cases buffer with
      | none => exact ⟨_, _, rfl, returns_oneOff hu hs length _⟩
      | some bytes =>
        have hpos : length ≠ 0 := by omega
        have hle : ¬length < sizeAdd 0 length := by simpa [sizeAdd] using Nat.mod_le length _
        simp only [copyHostBuffer, if_true, if_neg hpos, if_neg hle]
        exact ⟨_, _, rfl, returns_oneOff hu hs length _⟩
  · rw [if_neg hl]
    by_cases hfull : kAllocatorBlockSize < sizeAdd h.offset length
    · simp only [if_pos hfull]
      rcases maybeCreateNewBuffer_cases succeeds hu with ⟨hlast, hs, t, ht, hn⟩ | ⟨hc, t, ht, hut, h0, hb, hle, hct⟩
      · exact .inl ⟨by simpa [hfull] using hl, hlast, hs, t, by simp only [ht]; rfl, hn⟩
      · refine .inr ⟨fun _ => hc, ?_⟩
        obtain ⟨e, u, heu, hr⟩ :=
          returns_place succeeds hut.current (fits_of_offset_eq_zero h0 hl) (buffer.getD fun _ => none)
        exact ⟨e, u, by simpa only [ht, if_true] using heu, hr.after hb hle hct⟩
    · refine .inr ⟨fun h => by simp [hfull] at h, ?_⟩
      simpa only [if_neg hfull, if_true] using
        returns_place succeeds hu.current (Nat.le_of_not_lt hfull) (buffer.getD fun _ => none)

/-- A place that is found in the block of `h` serves a request like that of `h`. -/
private theorem Outcome.withOffset {o : Nat} {leaves : Bool} {x : Option (Emplaced × HostBuffer)}
    (hx : Outcome succeeds { h with offset := o } leaves x) : Outcome succeeds h leaves x := by
  rcases hx with hx | ⟨hc, e, u, heu, hr⟩
  · exact .inl hx
  · exact .inr ⟨hc, e, u, heu, Returns.after (t := { h with offset := o }) (fun _ => le_rfl) le_rfl (created_self rfl) hr⟩

private theorem emplaceInternalAligned_outcome (hu : h.Usable) (buffer : Option Bytes) (length align : Nat) :
    Outcome succeeds h (h.leavesBlock (.emplaceAligned buffer length align))
      (h.emplaceInternalAligned succeeds buffer length align) := by
  unfold emplaceInternalAligned
  have ho := hu.offset
  by_cases hal : align = 0 ∨ h.offset % align = 0
  · have hp : padding h.offset align = 0 := if_pos hal
    have hself : sizeAdd h.offset 0 = h.offset :=
      sizeAdd_eq (by simp only [kAllocatorBlockSize] at ho; omega)
    rw [if_pos hal]
    simpa [leavesBlock, hp, hself] using emplaceInternal_outcome succeeds hu buffer length
  · have hp : padding h.offset align = align - h.offset % align := if_neg hal
    have hpos : padding h.offset align ≠ 0 := by
      have := Nat.mod_lt h.offset (Nat.pos_of_ne_zero fun h0 => hal (.inl h0))
      omega
    rw [if_neg hal, ← hp]
    by_cases hroom : sizeAdd h.offset (padding h.offset align) < kAllocatorBlockSize
    · have hinner := emplaceInternal_outcome succeeds
        (h := { h with offset := sizeAdd h.offset (padding h.offset align) }) ⟨hu.current, hroom.le⟩ buffer length
      simpa [leavesBlock, hroom, Nat.not_le_of_lt hroom] using hinner.withOffset
    · have hleaves : h.leavesBlock (.emplaceAligned buffer length align) = true := by
        simp [leavesBlock, hpos, Nat.le_of_not_lt hroom]
      simp only [if_neg hroom]
      rcases maybeCreateNewBuffer_cases succeeds hu with ⟨hlast, hs, t, ht, hn⟩ | ⟨hc, t, ht, hut, h0, hb, hle, hct⟩
      · exact .inl ⟨hleaves, hlast, hs, t, by simp only [ht]; rfl, hn⟩
      · -- what is left of the request fits into an empty block
        refine .inr ⟨fun _ => hc, ?_⟩
        have hstays : ¬t.leavesBlock (.emplace buffer length) = true := by
          have := Nat.mod_le length 18446744073709551616
          simp only [leavesBlock, h0, sizeAdd, Nat.zero_add, Bool.and_eq_true, decide_eq_true_eq, not_and]
          omega
        rcases emplaceInternal_outcome succeeds hut buffer length with ⟨hleave, -⟩ | ⟨-, e, u, heu, hr⟩
        · exact (hstays hleave).elim
        · exact ⟨e, u, by simpa only [ht, if_true] using heu, hr.after hb hle hct⟩

private theorem emplaceInternalProc_outcome (hu : h.Usable) (length align : Nat) (bytes : Bytes) :
    Outcome succeeds h (h.leavesBlock (.emplaceProc length align (some bytes)))
      (h.emplaceInternalProc succeeds length align (some bytes)) := by
  unfold emplaceInternalProc leavesBlock
  by_cases hl : kAllocatorBlockSize < length
  · refine .inr ⟨fun h => by simp [Nat.not_le_of_lt hl] at h, ?_⟩
    simp only [if_pos hl, createBuffer]
    cases hs : succeeds h.allocations with
    | false => exact ⟨_, _, rfl, returns_failed hu hs⟩
    | true => exact ⟨_, _, rfl, returns_oneOff hu hs length _⟩
  · have hp : (if 0 < align ∧ h.offset % align ≠ 0 then align - h.offset % align else 0) = padding h.offset align := by
      unfold padding
      split <;> split <;> omega
    simp only [if_neg hl, hp]
    by_cases hfull : kAllocatorBlockSize < sizeAdd (sizeAdd h.offset (padding h.offset align)) length
    · simp only [if_pos hfull]
      rcases maybeCreateNewBuffer_cases succeeds hu with ⟨hlast, hs, t, ht, hn⟩ | ⟨hc, t, ht, hut, h0, hb, hle, hct⟩
      · exact .inl ⟨by simpa [hfull] using hl, hlast, hs, t, by simp only [ht]; rfl, hn⟩
      · refine .inr ⟨fun _ => hc, ?_⟩
        obtain ⟨e, u, heu, hr⟩ := returns_place succeeds hut.current (fits_of_offset_eq_zero h0 hl) bytes
        exact ⟨e, u, by simpa only [ht, if_true] using heu, hr.after hb hle hct⟩
    · refine .inr ⟨fun h => by simp [hfull] at h, ?_⟩
      -- the padded place may lie outside of the block, but its block is still the current one
      obtain ⟨e, u, heu, hr⟩ := returns_place succeeds
        (h := { h with offset := sizeAdd h.offset (padding h.offset align) }) hu.current (Nat.le_of_not_lt hfull) bytes
      refine ⟨e, u, by simpa only [if_neg hfull, if_true] using heu, ?_⟩
      exact Returns.after (t := { h with offset := sizeAdd h.offset (padding h.offset align) }) (fun _ => le_rfl) le_rfl
        (created_self rfl) hr

/-- The arena can be used, also that of the frames to come. -/
private structure Ready (h : HostBuffer) : Prop where
  usable : h.Usable
  nonempty : ∀ f, 0 < (h.deviceBuffers f).length

private theorem Ready.reset (hh : h.Ready) : h.reset.Ready := by
  have hnonempty (f : Fin kHostBufferArenaSize) : 0 < (h.reset.deviceBuffers f).length := by
    rcases eq_or_ne f h.frameIndex with rfl | hf
    · have := hh.nonempty h.frameIndex
      simp only [HostBuffer.reset, Function.update_self, List.length_take]
      omega
    · simpa [HostBuffer.reset, hf] using hh.nonempty f
  exact ⟨⟨hnonempty _, Nat.zero_le _⟩, hnonempty⟩

private theorem Outcome.cases (hh : h.Ready) {c : Call} (hasks : c.asks) {x : Option (Emplaced × HostBuffer)}
    (hcall : h.call succeeds c = x.map (Prod.map toBufferView id)) (hx : Outcome succeeds h (h.leavesBlock c) x) :
    ∃ v t, h.call succeeds c = some (v, t) ∧ (t.Usable ↔ BlockCreated succeeds h c t) ∧
      (t.Usable → Survives succeeds h c t ∧ t.Ready) := by
  rcases hx with ⟨hleaves, hlast, hs, t, rfl, hn⟩ | ⟨hc, e, t, rfl, hr⟩
  · refine ⟨{}, t, hcall, iff_of_false hn fun hb => ?_, fun hu => (hn hu).elim⟩
    rw [hb hleaves hlast] at hs
    cases hs
  · refine ⟨toBufferView e, t, hcall, iff_of_true hr.usable hc, fun _ => ⟨⟨hr.usable, ?_, ?_⟩, hr.usable, ?_⟩⟩
    · intro v hv _ hcreated
      obtain ⟨rfl, -⟩ := Prod.mk.inj (Option.some.inj (hcall.symm.trans hv))
      exact hr.served hcreated
    · intro v hv hnot
      obtain ⟨rfl, -⟩ := Prod.mk.inj (Option.some.inj (hcall.symm.trans hv))
      exact hr.empty fun hcreated => hnot ⟨hasks, hcreated⟩
    · exact fun f => (hh.nonempty f).trans_le (hr.blocks f)

/-- Every call returns, and leaves a usable arena if and only if it does not lack a block. -/
private theorem call_cases (succeeds : Nat → Bool) (hh : h.Ready) (c : Call) : ∃ v t, h.call succeeds c = some (v, t) ∧
    (t.Usable ↔ BlockCreated succeeds h c t) ∧ (t.Usable → Survives succeeds h c t ∧ t.Ready) := by
  have unasked (t : HostBuffer) (ht : t.Ready) (hasks : c.asks = false) (hcall : h.call succeeds c = some ({}, t))
      (hleaves : h.leavesBlock c = false) : ∃ v t, h.call succeeds c = some (v, t) ∧
        (t.Usable ↔ BlockCreated succeeds h c t) ∧ (t.Usable → Survives succeeds h c t ∧ t.Ready) := by
    refine ⟨{}, t, hcall, iff_of_true ht.usable fun hl => ?_,
      fun _ => ⟨⟨ht.usable, fun v _ ha => ?_, fun v hv _ => ?_⟩, ht⟩⟩
    · rw [hleaves] at hl
      cases hl
    · rw [hasks] at ha
      cases ha
    · exact (Prod.mk.inj (Option.some.inj (hcall.symm.trans hv))).1.symm
  cases c with
  | emplaceAligned buffer length align =>
    exact (emplaceInternalAligned_outcome hh.usable buffer length align).cases hh rfl rfl
  | emplace buffer length => exact (emplaceInternal_outcome succeeds hh.usable buffer length).cases hh rfl rfl
  | emplaceProc length align cb =>
    cases cb with
    | none => exact unasked h hh rfl rfl rfl
    | some bytes => exact (emplaceInternalProc_outcome hh.usable length align bytes).cases hh rfl rfl
  | reset => exact unasked h.reset hh.reset rfl rfl rfl

private theorem step_survives {c : Call} (hh : h.Ready) (hs : (machine succeeds).step h c = some t) :
    (t.Usable ↔ BlockCreated succeeds h c t) ∧ (t.Usable → Survives succeeds h c t ∧ t.Ready) := by
  obtain ⟨v, u, hu, hrest⟩ := call_cases succeeds hh c
  obtain rfl : u = t := by simpa [machine, hu] using hs
  exact hrest

theorem survivesAll_iff {calls : List Call} :
    SurvivesAll succeeds calls ↔ (machine succeeds).Along (BlockCreated succeeds) create calls := by
  have hready : create.Ready := ⟨create_usable, fun f => by simp [create]⟩
  have hkeep (h : HostBuffer) (c : Call) (t : HostBuffer) (hh : h.Ready) (hc : BlockCreated succeeds h c t)
      (hs : (machine succeeds).step h c = some t) : t.Ready :=
    ((step_survives hh hs).2 ((step_survives hh hs).1.mpr hc)).2
  have halong : (machine succeeds).Along (Survives succeeds) create calls ↔
      (machine succeeds).Along (BlockCreated succeeds) create calls := by
    refine Machine.along_iff (fun h c t hh hs => ?_) hkeep hready
    obtain ⟨hiff, hsurvives⟩ := step_survives hh hs
    rw [← hiff]
    exact ⟨fun h => h.usable, fun hu => (hsurvives hu).1⟩
  refine ⟨fun h => halong.mp h.2, fun hc => ⟨?_, halong.mpr hc⟩⟩
  refine Machine.exists_runFrom (fun h c hh => ?_) hkeep hready hc
  obtain ⟨v, t, ht, -⟩ := call_cases succeeds hh c
  exact ⟨t, by simp [machine, ht]⟩

/-- A block that is not created, and a small request that would have fit into the last one. -/
theorem survivesAll_smallAfterFailure :
    ¬SurvivesAll (fun n => n < 4) [.emplace none 1000000, .emplace none 100000, .emplace none 8] := by
  rintro ⟨⟨t, ht⟩, -⟩
  have hr : (machine fun n => n < 4).run [.emplace none 1000000, .emplace none 100000, .emplace none 8] = none := rfl
  rw [hr] at ht
  cases ht

end Ogre.Hal.HostBuffer
