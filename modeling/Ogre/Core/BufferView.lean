import Mathlib

/-! Ranges of bytes, device buffers and the views that name them. -/
namespace Ogre.Core

/-- Addition of `size_t` values, which wraps. -/
def sizeAdd (a b : Nat) : Nat := (a + b) % 18446744073709551616

theorem sizeAdd_eq {a b : Nat} (h : a + b < 18446744073709551616) : sizeAdd a b = a + b :=
  Nat.mod_eq_of_lt h

structure Range where
  offset : Nat := 0
  length : Nat := 0
  deriving DecidableEq, Repr

/-- The bytes that a range covers. -/
def Range.bytes (r : Range) : Set Nat := Set.Ico r.offset (r.offset + r.length)

theorem Range.disjoint_of_le {r s : Range} (h : r.offset + r.length ≤ s.offset) :
    Disjoint r.bytes s.bytes := by
  rw [Range.bytes, Range.bytes, Set.Ico_disjoint_Ico]
  exact le_trans (min_le_left _ _) (h.trans (le_max_right _ _))

/-- A `DeviceBufferVK`: which allocation it is, and `desc_.size`. -/
structure DeviceBuffer where
  id : Nat
  size : Nat
  deriving DecidableEq, Repr

/-- A view owns its buffer, or holds a raw pointer to it, or names none. -/
structure BufferView where
  buffer : Option DeviceBuffer := none
  rawBuffer : Option DeviceBuffer := none
  range : Range := {}
  deriving DecidableEq, Repr

namespace BufferView

def ofRaw (buffer : DeviceBuffer) (range : Range) : BufferView := ⟨none, some buffer, range⟩

def ofShared (buffer : DeviceBuffer) (range : Range) : BufferView := ⟨some buffer, none, range⟩

def getBuffer (v : BufferView) : Option DeviceBuffer := v.rawBuffer <|> v.buffer

/-- The owning pointer moves out; the view keeps naming the buffer. -/
def takeBuffer (v : BufferView) : Option DeviceBuffer × BufferView :=
  match v.buffer with
  | some b => (some b, { v with buffer := none, rawBuffer := some b })
  | none => (none, v)

/-- `explicit operator bool`. -/
def isSet (v : BufferView) : Bool := v.buffer.isSome || v.rawBuffer.isSome

@[simp] theorem getBuffer_ofRaw (b : DeviceBuffer) (r : Range) : (ofRaw b r).getBuffer = some b := rfl
@[simp] theorem getBuffer_ofShared (b : DeviceBuffer) (r : Range) :
    (ofShared b r).getBuffer = some b := rfl
@[simp] theorem range_ofRaw (b : DeviceBuffer) (r : Range) : (ofRaw b r).range = r := rfl
@[simp] theorem range_ofShared (b : DeviceBuffer) (r : Range) : (ofShared b r).range = r := rfl
@[simp] theorem getBuffer_empty : ({} : BufferView).getBuffer = none := rfl

end BufferView
end Ogre.Core
