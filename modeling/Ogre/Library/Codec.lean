import Mathlib.Data.Nat.Digits.Defs

/-! Values of a fixed width as bytes: what is written at the start of some memory is what is
read from there, and records are laid out one field after the other. -/
namespace Ogre.Library

/-- The bytes of `n` from the lowest one on, as many as there is room for. -/
def toBytes : Nat → Nat → List UInt8
  | 0, _ => []
  | w + 1, n => UInt8.ofNat n :: toBytes w (n / 256)

def ofBytes (bytes : List UInt8) : Nat := Nat.ofDigits 256 (bytes.map UInt8.toNat)

@[simp] theorem length_toBytes (w n : Nat) : (toBytes w n).length = w := by
  induction w generalizing n with
  | zero => rfl
  | succ w ih => rw [toBytes, List.length_cons, ih]

theorem ofBytes_toBytes (w n : Nat) : ofBytes (toBytes w n) = n % 256 ^ w := by
  induction w generalizing n with
  | zero =>
    rw [pow_zero, Nat.mod_one]
    rfl
  | succ w ih =>
    have hlow : (UInt8.ofNat n).toNat = n % 256 := UInt8.toNat_ofNat'
    have hhigh : Nat.ofDigits 256 ((toBytes w (n / 256)).map UInt8.toNat) = n / 256 % 256 ^ w := ih (n / 256)
    rw [ofBytes, toBytes, List.map_cons, Nat.ofDigits_cons, hlow, hhigh, pow_succ', Nat.mod_mul]

/-- What is written is read again, whatever memory follows it. -/
structure Codec (α : Type*) where
  width : Nat
  encode : α → List UInt8
  decode : List UInt8 → α
  length_encode : ∀ a, (encode a).length = width
  decode_append : ∀ a rest, decode (encode a ++ rest) = a

namespace Codec
variable {α β : Type*}

def littleEndian (w : Nat) : Codec (BitVec (8 * w)) where
  width := w
  encode b := toBytes w b.toNat
  decode bytes := BitVec.ofNat (8 * w) (ofBytes (bytes.take w))
  length_encode b := length_toBytes w b.toNat
  decode_append b rest := by
    have hlt : b.toNat < 256 ^ w := by
      rw [show 256 = 2 ^ 8 from rfl, ← pow_mul]
      exact b.isLt
    rw [List.take_left' (length_toBytes w b.toNat), ofBytes_toBytes, Nat.mod_eq_of_lt hlt, BitVec.ofNat_toNat,
      BitVec.setWidth_eq]

def array (n : Nat) : Codec (Vector UInt8 n) where
  width := n
  encode v := v.toList
  decode bytes := Vector.ofFn fun i => bytes[i.val]?.getD 0
  length_encode v := v.length_toList
  decode_append v rest := by
    apply Vector.ext
    intro i hi
    have hlt : i < v.toList.length := by
      rw [v.length_toList]
      exact hi
    rw [Vector.getElem_ofFn, List.getElem?_append_left hlt, List.getElem?_eq_getElem hlt, Option.getD_some,
      Vector.getElem_toList]

/-- The second value comes right after the first. -/
def pair (c : Codec α) (d : Codec β) : Codec (α × β) where
  width := c.width + d.width
  encode a := c.encode a.1 ++ d.encode a.2
  decode bytes := (c.decode bytes, d.decode (bytes.drop c.width))
  length_encode a := by rw [List.length_append, c.length_encode, d.length_encode]
  decode_append a rest := by
    rw [List.append_assoc, c.decode_append, List.drop_left' (c.length_encode a.1), d.decode_append]

/-- A type that another one represents without loss. -/
def imap (c : Codec α) (f : α → β) (g : β → α) (h : ∀ b, f (g b) = b) : Codec β where
  width := c.width
  encode b := c.encode (g b)
  decode bytes := f (c.decode bytes)
  length_encode b := c.length_encode (g b)
  decode_append b rest := by rw [c.decode_append, h]

def uint32 : Codec UInt32 := (littleEndian 4).imap UInt32.ofBitVec UInt32.toBitVec fun _ => rfl

def uint64 : Codec UInt64 := (littleEndian 8).imap UInt64.ofBitVec UInt64.toBitVec fun _ => rfl

example : uint32.encode 0xC0DEF00D = [0x0D, 0xF0, 0xDE, 0xC0] := by decide

end Codec
end Ogre.Library
