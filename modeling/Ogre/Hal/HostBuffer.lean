import Mathlib.Logic.Function.Basic
import Ogre.Core.BufferView
import Ogre.Library.Machine

/-! The host buffer: per-frame lists of blocks of device memory, filled from the
current block upwards and handed round a ring of frames. -/
namespace Ogre.Hal
open Ogre.Core Ogre.Library

def kAllocatorBlockSize : Nat := 1024000
abbrev kHostBufferArenaSize : Nat := 4

/-- The bytes a writer puts at each index of its range; it may leave some out. -/
abbrev Bytes := Nat → Option UInt8

/-- `allocations` counts the calls of `Allocator::CreateBuffer`, which number the
buffers, and `memory` is the mapped memory of each of them. -/
structure HostBuffer where
  deviceBuffers : Fin kHostBufferArenaSize → List DeviceBuffer
  currentBuffer : Nat := 0
  offset : Nat := 0
  frameIndex : Fin kHostBufferArenaSize := ⟨0, by decide⟩
  allocations : Nat
  memory : Nat → Nat → UInt8 := fun _ _ => 0

namespace HostBuffer

/-- What `EmplaceInternal` returns: the range, the owned and the raw buffer. -/
abbrev Emplaced := Range × Option DeviceBuffer × Option DeviceBuffer

def toBufferView : Emplaced → BufferView
  | (range, some deviceBuffer, _) => .ofShared deviceBuffer range
  | (range, none, some rawDeviceBuffer) => .ofRaw rawDeviceBuffer range
  | (_, none, none) => {}

/-- The constructor, whose `CHECK` requires its four allocations to succeed. -/
def create : HostBuffer where
  deviceBuffers i := [⟨i.val, kAllocatorBlockSize⟩]
  allocations := kHostBufferArenaSize

def write (h : HostBuffer) (b : DeviceBuffer) (range : Range) (bytes : Bytes) : HostBuffer :=
  { h with memory := fun id i =>
      if id = b.id ∧ range.offset ≤ i ∧ i < range.offset + range.length then
        (bytes (i - range.offset)).getD (h.memory id i)
      else h.memory id i }

/-- `DeviceBufferVK::CopyHostBuffer` from a source that is not null into a
buffer that is host visible and mapped. -/
def copyHostBuffer (h : HostBuffer) (b : DeviceBuffer) (bytes : Bytes) (range : Range) :
    Bool × HostBuffer :=
  if range.length = 0 then (true, h)
  else if b.size < sizeAdd 0 range.length then (false, h)
  else (true, h.write b ⟨0, range.length⟩ bytes)

def getCurrentBuffer (h : HostBuffer) : Option DeviceBuffer :=
  (h.deviceBuffers h.frameIndex)[h.currentBuffer]?

section Allocator
-- Which of the calls of `Allocator::CreateBuffer` succeed.
variable (succeeds : Nat → Bool)

def createBuffer (h : HostBuffer) (size : Nat) : Option DeviceBuffer × HostBuffer :=
  (if succeeds h.allocations then some ⟨h.allocations, size⟩ else none,
    { h with allocations := h.allocations + 1 })

def maybeCreateNewBuffer (h : HostBuffer) : Bool × HostBuffer :=
  let h := { h with currentBuffer := h.currentBuffer + 1 }
  if (h.deviceBuffers h.frameIndex).length ≤ h.currentBuffer then
    match h.createBuffer succeeds kAllocatorBlockSize with
    | (none, h) => (false, h)
    | (some buffer, h) =>
      (true, { h with
        deviceBuffers := Function.update h.deviceBuffers h.frameIndex
          (h.deviceBuffers h.frameIndex ++ [buffer])
        offset := 0 })
  else (true, { h with offset := 0 })

/-- The overload with a callback. An index past the last block is undefined. -/
def emplaceInternalProc (h : HostBuffer) (length align : Nat) (cb : Option Bytes) :
    Option (Emplaced × HostBuffer) :=
  match cb with
  | none => some (({}, none, none), h)
  | some bytes =>
    if kAllocatorBlockSize < length then
      match h.createBuffer succeeds length with
      | (none, h) => some (({}, none, none), h)
      | (some b, h) => some ((⟨0, length⟩, some b, none), h.write b ⟨0, length⟩ bytes)
    else
      let padding := if 0 < align ∧ h.offset % align ≠ 0 then align - h.offset % align else 0
      let (fits, h) :=
        if kAllocatorBlockSize < sizeAdd (sizeAdd h.offset padding) length then
          h.maybeCreateNewBuffer succeeds
        else (true, { h with offset := sizeAdd h.offset padding })
      if fits then
        h.getCurrentBuffer.map fun b =>
          ((⟨h.offset, length⟩, none, some b),
            { h.write b ⟨h.offset, length⟩ bytes with offset := sizeAdd h.offset length })
      else some (({}, none, none), h)

/-- The overload that copies `length` bytes, unless the pointer is null. -/
def emplaceInternal (h : HostBuffer) (buffer : Option Bytes) (length : Nat) :
    Option (Emplaced × HostBuffer) :=
  if kAllocatorBlockSize < length then
    match h.createBuffer succeeds length with
    | (none, h) => some (({}, none, none), h)
    | (some b, h) =>
      match buffer with
      | none => some ((⟨0, length⟩, some b, none), h)
      | some bytes =>
        match h.copyHostBuffer b bytes ⟨0, length⟩ with
        | (false, h) => some (({}, none, none), h)
        | (true, h) => some ((⟨0, length⟩, some b, none), h)
  else
    let (fits, h) :=
      if kAllocatorBlockSize < sizeAdd h.offset length then h.maybeCreateNewBuffer succeeds
      else (true, h)
    if fits then
      h.getCurrentBuffer.map fun b =>
        ((⟨h.offset, length⟩, none, some b),
          { h.write b ⟨h.offset, length⟩ (buffer.getD fun _ => none) with
            offset := sizeAdd h.offset length })
    else some (({}, none, none), h)

def emplaceInternalAligned (h : HostBuffer) (buffer : Option Bytes) (length align : Nat) :
    Option (Emplaced × HostBuffer) :=
  if align = 0 ∨ h.offset % align = 0 then h.emplaceInternal succeeds buffer length
  else
    let padding := align - h.offset % align
    let (fits, h) :=
      if sizeAdd h.offset padding < kAllocatorBlockSize then
        (true, { h with offset := sizeAdd h.offset padding })
      else h.maybeCreateNewBuffer succeeds
    if fits then h.emplaceInternal succeeds buffer length else some (({}, none, none), h)

/-- Unused blocks of the frame are dropped before the next frame begins. -/
def reset (h : HostBuffer) : HostBuffer :=
  { h with
    deviceBuffers := Function.update h.deviceBuffers h.frameIndex
      ((h.deviceBuffers h.frameIndex).take (h.currentBuffer + 1))
    offset := 0
    currentBuffer := 0
    frameIndex := h.frameIndex + 1 }

/-- The calls a client makes: the three overloads of `Emplace`, and `Reset`. -/
inductive Call
  | emplaceAligned (buffer : Option Bytes) (length align : Nat)
  | emplace (buffer : Option Bytes) (length : Nat)
  | emplaceProc (length align : Nat) (cb : Option Bytes)
  | reset

/-- The call asks for a view: it is a call of `Emplace` whose callback, if it takes one, is set. -/
def Call.asks : Call → Bool
  | .emplaceProc _ _ none | .reset => false
  | _ => true

/-- The view a call returns, none for `Reset`, and the state it leaves. -/
def call (h : HostBuffer) : Call → Option (BufferView × HostBuffer)
  | .emplaceAligned buffer length align =>
    (h.emplaceInternalAligned succeeds buffer length align).map (Prod.map toBufferView id)
  | .emplace buffer length =>
    (h.emplaceInternal succeeds buffer length).map (Prod.map toBufferView id)
  | .emplaceProc length align cb =>
    (h.emplaceInternalProc succeeds length align cb).map (Prod.map toBufferView id)
  | .reset => some ({}, h.reset)

def machine : Machine HostBuffer Call where
  init := create
  step h c := (h.call succeeds c).map Prod.snd

end Allocator
end HostBuffer
end Ogre.Hal
