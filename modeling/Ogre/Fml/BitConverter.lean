import Ogre.Library.BigEndian

/-! The converter between symbols of two widths, and the bits that its buffer holds. -/
namespace Ogre.Fml
open Ogre.Library

structure BitConverter (fromLength toLength bufferLength : Nat) where
  buffer : Nat := 0
  lowerFreeBits : Nat := bufferLength

namespace BitConverter
variable {fromLength toLength bufferLength : Nat}

def bitsAvailable (c : BitConverter fromLength toLength bufferLength) : Nat := bufferLength - c.lowerFreeBits

def canAppend (c : BitConverter fromLength toLength bufferLength) : Bool := decide (fromLength ≤ c.lowerFreeBits)

def canExtract (c : BitConverter fromLength toLength bufferLength) : Bool := decide (toLength ≤ c.bitsAvailable)

def peek (c : BitConverter fromLength toLength bufferLength) : Nat := c.buffer >>> (bufferLength - toLength)

/-- Without a result where one of the debug checks fails. -/
def append (c : BitConverter fromLength toLength bufferLength) (bits : Nat) :
    Option (BitConverter fromLength toLength bufferLength) :=
  if bits < 1 <<< fromLength ∧ c.canAppend then
    let lowerFreeBits := c.lowerFreeBits - fromLength
    some ⟨c.buffer ||| bits <<< lowerFreeBits, lowerFreeBits⟩
  else none

def extract (c : BitConverter fromLength toLength bufferLength) :
    Option (Nat × BitConverter fromLength toLength bufferLength) :=
  if c.canExtract then
    some (c.peek, ⟨c.buffer <<< toLength &&& (1 <<< bufferLength - 1), c.lowerFreeBits + toLength⟩)
  else none

/-- The bits at the upper end of the buffer. Below them it is zero. -/
structure Holds (c : BitConverter fromLength toLength bufferLength) (bits : List Bool) : Prop where
  length_add : bits.length + c.lowerFreeBits = bufferLength
  buffer : c.buffer = valueOf bits * 2 ^ c.lowerFreeBits

variable {c d : BitConverter fromLength toLength bufferLength} {bits : List Bool} {n : Nat}

theorem holds_new : Holds ({} : BitConverter fromLength toLength bufferLength) [] :=
  ⟨Nat.zero_add _, (Nat.zero_mul _).symm⟩

theorem Holds.bitsAvailable (h : c.Holds bits) : c.bitsAvailable = bits.length := by
  have hlength := h.length_add
  unfold BitConverter.bitsAvailable
  omega

theorem Holds.canExtract (h : c.Holds bits) : c.canExtract ↔ toLength ≤ bits.length := by
  rw [BitConverter.canExtract, h.bitsAvailable, decide_eq_true_iff]

theorem Holds.canAppend (h : c.Holds bits) : c.canAppend ↔ bits.length + fromLength ≤ bufferLength := by
  have hlength := h.length_add
  rw [BitConverter.canAppend, decide_eq_true_iff]
  omega

/-- What is appended comes behind what the buffer holds. -/
theorem Holds.append (h : c.Holds bits) (hn : n < 2 ^ fromLength) (hfree : bits.length + fromLength ≤ bufferLength) :
    ∃ d, c.append n = some d ∧ d.Holds (bits ++ bitsOf fromLength n) := by
  have hlength := h.length_add
  have hcan : n < 1 <<< fromLength ∧ c.canAppend := by
    rw [Nat.one_shiftLeft]
    exact ⟨hn, h.canAppend.mpr hfree⟩
  refine ⟨_, if_pos hcan, ?_, ?_⟩
  · rw [List.length_append, length_bitsOf]
    dsimp only
    omega
  · dsimp only
    obtain ⟨free, hfree⟩ : ∃ free, c.lowerFreeBits = fromLength + free := ⟨c.lowerFreeBits - fromLength, by omega⟩
    have hlt : n * 2 ^ free < 2 ^ (fromLength + free) := by
      rw [pow_add]
      exact Nat.mul_lt_mul_of_pos_right hn (Nat.two_pow_pos free)
    rw [h.buffer, hfree, Nat.add_sub_cancel_left, Nat.shiftLeft_eq, Nat.mul_comm (valueOf bits),
      ← Nat.two_pow_add_eq_or_of_lt hlt, valueOf_append, valueOf_bitsOf hn, length_bitsOf, pow_add]
    ring

theorem Holds.peek (h : c.Holds bits) (hto : toLength ≤ bits.length) : c.peek = valueOf (bits.take toLength) := by
  obtain ⟨first, rest, hbits, hfirst⟩ : ∃ first rest, bits = first ++ rest ∧ first.length = toLength :=
    ⟨bits.take toLength, bits.drop toLength, (List.take_append_drop _ _).symm, List.length_take_of_le hto⟩
  have hlength := h.length_add
  rw [hbits, List.length_append, hfirst] at hlength
  have hshift : bufferLength - toLength = rest.length + c.lowerFreeBits := by omega
  have hrest := valueOf_lt rest
  rw [BitConverter.peek, h.buffer, hshift, hbits, List.take_left' hfirst, valueOf_append, Nat.shiftRight_eq_div_pow, pow_add,
    Nat.mul_div_mul_right _ _ (Nat.two_pow_pos _), Nat.mul_comm (valueOf first), Nat.mul_add_div (Nat.two_pow_pos _),
    Nat.div_eq_of_lt hrest, Nat.add_zero]

/-- Where the buffer does not hold as many bits, zeros follow them. -/
theorem Holds.peek_padded (h : c.Holds bits) (hto : bits.length ≤ toLength) (hbuffer : toLength ≤ bufferLength) :
    c.peek = valueOf (bits ++ .replicate (toLength - bits.length) false) := by
  have hlength := h.length_add
  have hfree : c.lowerFreeBits = (toLength - bits.length) + (bufferLength - toLength) := by omega
  rw [BitConverter.peek, h.buffer, hfree, valueOf_append, valueOf_zeros, List.length_replicate, Nat.shiftRight_eq_div_pow,
    pow_add, ← Nat.mul_assoc, Nat.mul_div_cancel _ (Nat.two_pow_pos _), Nat.add_zero]

/-- What is extracted comes from the front of what the buffer holds. -/
theorem Holds.extract (h : c.Holds bits) (hto : toLength ≤ bits.length) :
    ∃ d, c.extract = some (valueOf (bits.take toLength), d) ∧ d.Holds (bits.drop toLength) := by
  obtain ⟨first, rest, hbits, hfirst⟩ : ∃ first rest, bits = first ++ rest ∧ first.length = toLength :=
    ⟨bits.take toLength, bits.drop toLength, (List.take_append_drop _ _).symm, List.length_take_of_le hto⟩
  have hlength := h.length_add
  have hpeek := h.peek hto
  rw [hbits, List.length_append, hfirst] at hlength
  rw [← hpeek]
  refine ⟨_, if_pos (h.canExtract.mpr hto), ?_, ?_⟩
  · rw [hbits, List.drop_left' hfirst]
    dsimp only
    omega
  · have hpow : 2 ^ bufferLength = 2 ^ rest.length * 2 ^ (c.lowerFreeBits + toLength) := by
      rw [← pow_add]
      congr 1
      omega
    have hlt : valueOf rest * 2 ^ (c.lowerFreeBits + toLength) < 2 ^ bufferLength := by
      rw [hpow]
      exact Nat.mul_lt_mul_of_pos_right (valueOf_lt rest) (Nat.two_pow_pos _)
    have hsplit : valueOf bits * 2 ^ c.lowerFreeBits * 2 ^ toLength =
        2 ^ bufferLength * valueOf first + valueOf rest * 2 ^ (c.lowerFreeBits + toLength) := by
      rw [hbits, valueOf_append, hpow, pow_add]
      ring
    dsimp only
    rw [Nat.one_shiftLeft, Nat.and_two_pow_sub_one_eq_mod, Nat.shiftLeft_eq, h.buffer, hsplit, Nat.mul_add_mod,
      Nat.mod_eq_of_lt hlt, hbits, List.drop_left' hfirst]

end BitConverter
end Ogre.Fml
