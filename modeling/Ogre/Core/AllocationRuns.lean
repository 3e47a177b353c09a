import Ogre.Core.Allocation
import Ogre.Library.Machine

/-! Allocations over any number of `Truncate` calls: what the calls leave of the buffer, and the sizes
that a power of two of 32 bits does not reach. -/
namespace Ogre.Core.Allocation
open Ogre.Library

/-- A call of `Truncate`, and what the host's memory does about it. -/
structure TruncateCall where
  realloc : Realloc
  length : UInt64
  npot : Bool

def machine : Machine Allocation TruncateCall :=
  ⟨new, fun a call => some (a.truncate call.realloc call.length call.npot).2⟩

/-- A call that succeeds leaves room for what was asked for, and one that fails leaves all as it was. -/
def Honours (a : Allocation) (call : TruncateCall) (b : Allocation) : Prop :=
  match (a.truncate call.realloc call.length call.npot).1 with
  | true => b.length = call.length ∧ b.length ≤ b.reserved ∧ b.buffer.length = b.reserved.toNat
  | false => b = a

/-- The size that is reserved for a length that is rounded. -/
def rounded (length : UInt64) : UInt64 := bytes (nextPowerOfTwoSize (max (bytes 4096) length).toUInt32).toUInt64

/-- The length is not rounded, small enough for that, or there is room already; or the memory for
the rounded length is asked for in vain. -/
def Fits (a : Allocation) (call : TruncateCall) (_ : Allocation) : Prop :=
  call.npot = false ∨ call.length ≤ 2147483648 ∨ call.length ≤ a.reserved ∨
    a.reserved < rounded call.length ∧ call.realloc.realloc a.buffer (rounded call.length) = none

section PowersOfTwo
variable {x y r w i : Nat}

/-- Each shift doubles the number of bits below a bit that are set with it. -/
private theorem testBit_or_shiftRight (h : ∀ i, r.testBit i ↔ ∃ j < w, y.testBit (i + j)) (i : Nat) :
    (r ||| r >>> w).testBit i ↔ ∃ j < 2 * w, y.testBit (i + j) := by
  rw [Nat.testBit_or, Nat.testBit_shiftRight, Bool.or_eq_true, h, h]
  constructor
  · rintro (⟨j, hj, hbit⟩ | ⟨j, hj, hbit⟩)
    · exact ⟨j, by omega, hbit⟩
    · exact ⟨w + j, by omega, by rwa [← Nat.add_assoc, Nat.add_comm i w]⟩
  · rintro ⟨j, hj, hbit⟩
    rcases Nat.lt_or_ge j w with hlt | hge
    · exact .inl ⟨j, hlt, hbit⟩
    · exact .inr ⟨j - w, by omega, by rwa [show w + i + (j - w) = i + j by omega]⟩

/-- The five steps of `NextPowerOfTwoSize`. -/
private def smear (y : Nat) : Nat :=
  let y := y ||| y >>> 1
  let y := y ||| y >>> 2
  let y := y ||| y >>> 4
  let y := y ||| y >>> 8
  y ||| y >>> 16

private theorem testBit_smear (i : Nat) : (smear y).testBit i ↔ ∃ j < 32, y.testBit (i + j) := by
  have hself : ∀ i, y.testBit i ↔ ∃ j < 1, y.testBit (i + j) := by simp
  exact testBit_or_shiftRight (testBit_or_shiftRight (testBit_or_shiftRight (testBit_or_shiftRight
    (testBit_or_shiftRight hself)))) i

private theorem smear_lt {n : Nat} (h : y < 2 ^ n) : smear y < 2 ^ n := by
  have hstep {y : Nat} (k : Nat) (h : y < 2 ^ n) : y ||| y >>> k < 2 ^ n :=
    Nat.or_lt_two_pow h ((Nat.shiftRight_le y k).trans_lt h)
  exact hstep 16 (hstep 8 (hstep 4 (hstep 2 (hstep 1 h))))

private theorem le_smear : y ≤ smear y := by
  have hstep (y k : Nat) : y ≤ y ||| y >>> k := Nat.left_le_or
  exact (hstep y 1).trans ((hstep _ 2).trans ((hstep _ 4).trans ((hstep _ 8).trans (hstep _ 16))))

/-- With the highest bit all are set. -/
private theorem smear_eq (h : y < 2 ^ 32) (hhigh : 2 ^ 31 ≤ y) : smear y = 2 ^ 32 - 1 := by
  have htop : y.testBit 31 = true := by
    rw [Nat.testBit_eq_decide_div_mod_eq, Nat.div_eq_of_lt_le (k := 1) (by omega) (by omega)]
    rfl
  refine Nat.eq_of_testBit_eq fun i => ?_
  rw [Nat.testBit_two_pow_sub_one]
  by_cases hi : i < 32
  · rw [decide_eq_true hi, testBit_smear]
    exact ⟨31 - i, by omega, by rwa [show i + (31 - i) = 31 by omega]⟩
  · rw [decide_eq_false hi]
    exact Nat.testBit_lt_two_pow ((smear_lt h).trans_le (Nat.pow_le_pow_right (by omega) (by omega)))

private theorem toNat_nextPowerOfTwoSize {x : UInt32} (h : 1 ≤ x.toNat) :
    (nextPowerOfTwoSize x).toNat = (smear (x.toNat - 1) + 1) % 2 ^ 32 := by
  have hx : ¬ x = 0 := by
    rintro rfl
    simp at h
  have hsub : (x - 1).toNat = x.toNat - 1 := UInt32.toNat_sub_of_le x 1 (UInt32.le_iff_toNat_le.mpr h)
  simp [nextPowerOfTwoSize, hx, smear, UInt32.toNat_add, UInt32.toNat_or, UInt32.toNat_shiftRight, hsub]

end PowersOfTwo

theorem toNat_bytes {size : UInt64} (h : size.toNat < 2 ^ 53) : (bytes size).toNat = size.toNat := by
  rw [bytes, roundToDouble_eq h, UInt64.ofNat_toNat]

theorem toNat_rounded (length : UInt64) :
    (rounded length).toNat = (nextPowerOfTwoSize (max (bytes 4096) length).toUInt32).toNat := by
  rw [rounded, toNat_bytes, UInt32.toNat_toUInt64]
  rw [UInt32.toNat_toUInt64]
  exact (UInt32.toNat_lt _).trans (by decide)

theorem toNat_max_page (length : UInt64) : (max (bytes 4096) length).toNat = max 4096 length.toNat := by
  have hpage : (bytes 4096).toNat = 4096 := toNat_bytes (by decide)
  rw [← hpage]
  change (if bytes 4096 ≤ length then length else bytes 4096).toNat = _
  split
  next h => exact (max_eq_right (UInt64.le_iff_toNat_le.mp h)).symm
  next h => exact (max_eq_left (UInt64.le_iff_toNat_le.mp (UInt64.le_of_lt (UInt64.not_le.mp h)))).symm

theorem le_rounded {length : UInt64} (h : length ≤ 2147483648) : length ≤ rounded length := by
  have hle : length.toNat ≤ 2 ^ 31 := UInt64.le_iff_toNat_le.mp h
  have hcut : (max (bytes 4096) length).toUInt32.toNat = max 4096 length.toNat := by
    rw [UInt64.toNat_toUInt32, toNat_max_page]
    exact Nat.mod_eq_of_lt (by omega)
  have hsmear : smear (max 4096 length.toNat - 1) < 2 ^ 31 := smear_lt (by omega)
  have hself : max 4096 length.toNat - 1 ≤ smear (max 4096 length.toNat - 1) := le_smear
  rw [UInt64.le_iff_toNat_le, toNat_rounded, toNat_nextPowerOfTwoSize (by omega), hcut]
  omega

/-- From there on the power of two is not one of 32 bits. -/
theorem rounded_lt {length : UInt64} (h : 2147483648 < length) : rounded length < length := by
  have hlt : 2 ^ 31 < length.toNat := UInt64.lt_iff_toNat_lt.mp h
  rw [UInt64.lt_iff_toNat_lt, toNat_rounded]
  rcases Nat.lt_or_ge length.toNat (2 ^ 32) with hsmall | hlarge
  · have hcut : (max (bytes 4096) length).toUInt32.toNat = length.toNat := by
      rw [UInt64.toNat_toUInt32, toNat_max_page, Nat.mod_eq_of_lt (by omega)]
      omega
    rw [toNat_nextPowerOfTwoSize (by omega), hcut, smear_eq (by omega) (by omega)]
    omega
  · exact (UInt32.toNat_lt _).trans_le hlarge

/-- The sizes that are rounded well. -/
theorem le_rounded_iff {length : UInt64} : length ≤ rounded length ↔ length ≤ 2147483648 := by
  refine ⟨fun h => ?_, le_rounded⟩
  by_contra hlarge
  exact absurd (rounded_lt (UInt64.not_le.mp hlarge)) (UInt64.not_lt.mpr h)

theorem reserve_of_le {m : Realloc} {a : Allocation} {size : UInt64} (h : size ≤ a.reserved) :
    a.reserve m size = (true, a) := by
  simp [reserve, h]

/-- What `Reserve` comes to where there is not enough room. -/
theorem reserve_of_lt {m : Realloc} {a : Allocation} {size : UInt64} (h : a.reserved < size) :
    a.reserve m size = (false, a) ∧ m.realloc a.buffer size = none ∨
      ∃ b, a.reserve m size = (true, b) ∧ b.reserved = size ∧ m.realloc a.buffer size ≠ none := by
  unfold reserve
  rw [if_neg (UInt64.not_le.mpr h)]
  split
  next hnone => exact .inl ⟨rfl, hnone⟩
  next hsome => exact .inr ⟨_, rfl, rfl, by simp [hsome]⟩

/-- The size that a call reserves. -/
def TruncateCall.size (call : TruncateCall) : UInt64 := if call.npot then rounded call.length else call.length

section Step
variable {a b : Allocation} {call : TruncateCall}

private theorem truncate_eq (a : Allocation) (call : TruncateCall) : a.truncate call.realloc call.length call.npot =
    match a.reserve call.realloc call.size with
    | (false, a) => (false, a)
    | (true, a) => (true, { a with length := call.length }) := by
  unfold truncate TruncateCall.size
  cases call.npot <;> rfl

private theorem honours_of_true (h : a.truncate call.realloc call.length call.npot = (true, b)) :
    Honours a call b ↔ b.length = call.length ∧ b.length ≤ b.reserved := by
  rw [Honours, h]
  simp [b.length_buffer]

private theorem honours_of_false (h : a.truncate call.realloc call.length call.npot = (false, b)) :
    Honours a call b ↔ b = a := by
  rw [Honours, h]

/-- A call honours its result unless it finds, or is given, less room than its length. -/
private theorem honours_iff_room (h : machine.step a call = some b) :
    Honours a call b ↔ call.length ≤ a.reserved ∨ a.reserved < call.size ∧
      (call.length ≤ call.size ∨ call.realloc.realloc a.buffer call.size = none) := by
  obtain rfl : (a.truncate call.realloc call.length call.npot).2 = b := Option.some.inj h
  have htruncate := truncate_eq a call
  by_cases hle : call.size ≤ a.reserved
  · rw [reserve_of_le hle] at htruncate
    rw [htruncate, honours_of_true htruncate]
    simp [UInt64.not_lt.mpr hle]
  · have hlt : a.reserved < call.size := UInt64.not_le.mp hle
    obtain ⟨hreserve, hnone⟩ | ⟨c, hreserve, hc, hsome⟩ := reserve_of_lt (m := call.realloc) hlt
    · rw [hreserve] at htruncate
      rw [htruncate, honours_of_false htruncate]
      exact iff_of_true rfl (.inr ⟨hlt, .inr hnone⟩)
    · rw [hreserve] at htruncate
      rw [htruncate, honours_of_true htruncate]
      simp only [true_and, hc, hlt, hsome, or_false]
      exact ⟨.inr, fun hroom => hroom.elim (fun hle => UInt64.le_trans hle (UInt64.le_of_lt hlt)) id⟩

/-- One call honours its result exactly if its length fits. -/
theorem honours_iff (h : machine.step a call = some b) : Honours a call b ↔ Fits a call b := by
  rw [honours_iff_room h, Fits, TruncateCall.size]
  cases hnpot : call.npot with
  | false =>
    refine iff_of_true ?_ (.inl rfl)
    by_cases hle : call.length ≤ a.reserved
    · exact .inl hle
    · exact .inr ⟨UInt64.not_le.mp hle, .inl (UInt64.le_refl _)⟩
  | true =>
    rw [if_pos rfl, le_rounded_iff]
    constructor
    · rintro (hle | ⟨hlt, hsmall | hnone⟩)
      exacts [.inr (.inr (.inl hle)), .inr (.inl hsmall), .inr (.inr (.inr ⟨hlt, hnone⟩))]
    · rintro (hnpot | hsmall | hle | ⟨hlt, hnone⟩)
      · cases hnpot
      · by_cases hle : rounded call.length ≤ a.reserved
        · exact .inl (UInt64.le_trans (le_rounded hsmall) hle)
        · exact .inr ⟨UInt64.not_le.mp hle, .inl hsmall⟩
      · exact .inl hle
      · exact .inr ⟨hlt, .inr hnone⟩

end Step

/-- All results of a run are honoured exactly if every length of it fits. -/
theorem honours_results (labels : List TruncateCall) :
    machine.Along Honours machine.init labels ↔ machine.Along Fits machine.init labels :=
  Machine.along_iff (I := fun _ => True) (fun _ _ _ _ hstep => honours_iff hstep) (fun _ _ _ _ _ _ => trivial) trivial

/-- A host with all the memory that is asked for. -/
private def ample : Realloc where
  realloc buffer size := some (buffer.take size.toNat ++ List.replicate (size.toNat - buffer.length) 0)
  length_realloc := by
    intro buffer size new h
    obtain rfl := Option.some.inj h
    simp
    omega

/-- One byte more than 2 GiB is rounded to nothing, which a fresh allocation has room for. -/
theorem truncate_shrinks :
    new.truncate ample 2147483649 true = (true, { new with length := 2147483649 }) ∧
      ¬ machine.Along Honours machine.init [⟨ample, 2147483649, true⟩] := by
  have hshrinks : new.truncate ample 2147483649 true = (true, { new with length := 2147483649 }) :=
    truncate_eq new ⟨ample, 2147483649, true⟩
  refine ⟨hshrinks, fun h => ?_⟩
  have hroom := ((honours_of_true hshrinks).mp (h.head rfl)).2
  exact absurd hroom (by decide)

end Ogre.Core.Allocation
