import Mathlib

/-! Buffers of bytes that are made longer on demand. -/
namespace Ogre.Core

/-- A `double` has 53 bits; between two of them the even one is taken. -/
def roundToDouble (n : Nat) : Nat :=
  let unit := 2 ^ (n.log2 - 52)
  let rest := n % unit
  let whole := n / unit
  if 2 * rest < unit ∨ 2 * rest = unit ∧ whole % 2 = 0 then whole * unit else (whole + 1) * unit

theorem roundToDouble_eq {n : Nat} (h : n < 2 ^ 53) : roundToDouble n = n := by
  have hlog : n.log2 - 52 = 0 := by
    rcases Nat.eq_zero_or_pos n with rfl | hpos
    · rfl
    · have hlt : n.log2 < 53 := (Nat.log2_lt (Nat.pos_iff_ne_zero.mp hpos)).mpr h
      omega
  simp [roundToDouble, hlog, Nat.mod_one]

/-- The constructor of `Bytes` takes the ceiling of its argument, which is a `double`. -/
def bytes (size : UInt64) : UInt64 := UInt64.ofNat (roundToDouble size.toNat)

/-- `realloc`, which may fail, and else returns as many bytes as it was asked for. -/
structure Realloc where
  realloc : List UInt8 → UInt64 → Option (List UInt8)
  length_realloc : ∀ buffer size new, realloc buffer size = some new → new.length = size.toNat

structure Allocation where
  buffer : List UInt8 := []
  length : UInt64 := 0
  reserved : UInt64 := 0
  length_buffer : buffer.length = reserved.toNat := by rfl

namespace Allocation

def new : Allocation := {}

def nextPowerOfTwoSize (x : UInt32) : UInt32 :=
  if x = 0 then 1
  else
    let x := x - 1
    let x := x ||| (x >>> 1)
    let x := x ||| (x >>> 2)
    let x := x ||| (x >>> 4)
    let x := x ||| (x >>> 8)
    let x := x ||| (x >>> 16)
    x + 1

def reserve (m : Realloc) (a : Allocation) (reserved : UInt64) : Bool × Allocation :=
  if reserved ≤ a.reserved then (true, a)
  else match h : m.realloc a.buffer reserved with
    | none => (false, a)
    | some buffer => (true, ⟨buffer, a.length, reserved, m.length_realloc _ _ _ h⟩)

/-- At least one page. The size is cut to 32 bits on its way. -/
def reserveNPOT (m : Realloc) (a : Allocation) (reserved : UInt64) : Bool × Allocation :=
  a.reserve m (bytes (nextPowerOfTwoSize (max (bytes 4096) reserved).toUInt32).toUInt64)

def truncate (m : Realloc) (a : Allocation) (length : UInt64) (npot : Bool) : Bool × Allocation :=
  match if npot then a.reserveNPOT m length else a.reserve m length with
  | (false, a) => (false, a)
  | (true, a) => (true, { a with length })

theorem buffer_lt (a : Allocation) : a.buffer.length < 2 ^ 64 := by
  rw [a.length_buffer]
  exact a.reserved.toNat_lt

theorem reserve_room {m : Realloc} {a b : Allocation} {reserved : UInt64} (h : a.reserve m reserved = (true, b)) :
    reserved ≤ b.reserved := by
  unfold reserve at h
  split at h
  next hle =>
    obtain ⟨-, rfl⟩ := Prod.mk.inj h
    exact hle
  · split at h
    · cases (Prod.mk.inj h).1
    · obtain ⟨-, rfl⟩ := Prod.mk.inj h
      exact UInt64.le_refl reserved

/-- Without rounding, a buffer that was made longer has room for what was asked for. -/
theorem truncate_room {m : Realloc} {a b : Allocation} {length : UInt64} (h : a.truncate m length false = (true, b)) :
    length.toNat ≤ b.buffer.length := by
  unfold truncate at h
  split at h
  · cases (Prod.mk.inj h).1
  next c hc =>
    obtain ⟨-, rfl⟩ := Prod.mk.inj h
    rw [c.length_buffer]
    exact UInt64.le_iff_toNat_le.mp (reserve_room hc)

end Allocation
end Ogre.Core
