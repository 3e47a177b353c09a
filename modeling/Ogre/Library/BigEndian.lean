import Mathlib.Data.Nat.Digits.Defs
import Mathlib.Tactic.Ring

/-! Numbers as lists of bits, the highest bit first, and texts of symbols of one width. -/
namespace Ogre.Library

def bitsOf : Nat → Nat → List Bool
  | 0, _ => []
  | w + 1, n => n.testBit w :: bitsOf w n

def valueOf : List Bool → Nat
  | [] => 0
  | b :: bits => b.toNat * 2 ^ bits.length + valueOf bits

variable {w n : Nat} {bits rest : List Bool}

@[simp] theorem length_bitsOf : (bitsOf w n).length = w := by
  induction w with
  | zero => rfl
  | succ w ih => rw [bitsOf, List.length_cons, ih]

theorem valueOf_lt (bits : List Bool) : valueOf bits < 2 ^ bits.length := by
  induction bits with
  | nil => exact Nat.one_pos
  | cons b bits ih =>
    have hb : b.toNat ≤ 1 := Bool.toNat_le b
    calc b.toNat * 2 ^ bits.length + valueOf bits
        < b.toNat * 2 ^ bits.length + 2 ^ bits.length := Nat.add_lt_add_left ih _
      _ ≤ 1 * 2 ^ bits.length + 2 ^ bits.length := Nat.add_le_add_right (Nat.mul_le_mul_right _ hb) _
      _ = 2 ^ (b :: bits).length := by rw [List.length_cons, pow_succ]; ring

theorem valueOf_append : valueOf (bits ++ rest) = valueOf bits * 2 ^ rest.length + valueOf rest := by
  induction bits with
  | nil => simp [valueOf]
  | cons b bits ih =>
    rw [List.cons_append, valueOf, ih, valueOf, List.length_append, pow_add]
    ring

theorem valueOf_zeros (k : Nat) : valueOf (.replicate k false) = 0 := by
  induction k with
  | zero => rfl
  | succ k ih => simp [List.replicate_succ, valueOf, ih]

theorem valueOf_eq_zero_iff : valueOf bits = 0 ↔ bits = .replicate bits.length false := by
  induction bits with
  | nil => simp [valueOf]
  | cons b bits ih =>
    cases b with
    | false => simpa [valueOf, List.replicate_succ] using ih
    | true => simp [valueOf, List.replicate_succ]

private theorem valueOf_bitsOf_mod : valueOf (bitsOf w n) = n % 2 ^ w := by
  induction w with
  | zero => simp [bitsOf, valueOf, Nat.mod_one]
  | succ w ih =>
    rw [bitsOf, valueOf, length_bitsOf, ih, Nat.mod_pow_succ, Nat.toNat_testBit]
    ring

theorem valueOf_bitsOf (h : n < 2 ^ w) : valueOf (bitsOf w n) = n := by
  rw [valueOf_bitsOf_mod, Nat.mod_eq_of_lt h]

theorem valueOf_injective (hlength : bits.length = rest.length) (h : valueOf bits = valueOf rest) : bits = rest := by
  induction bits generalizing rest with
  | nil => exact (List.length_eq_zero_iff.mp hlength.symm).symm
  | cons b bits ih =>
    cases rest with
    | nil => cases hlength
    | cons c rest =>
      replace hlength : bits.length = rest.length := Nat.succ.inj hlength
      have hb := valueOf_lt bits
      have hc := valueOf_lt rest
      rw [valueOf, valueOf, hlength] at h
      rw [hlength] at hb
      cases b <;> cases c <;> simp at h
      · rw [ih hlength h]
      · omega
      · omega
      · rw [ih hlength h]

theorem bitsOf_valueOf (bits : List Bool) : bitsOf bits.length (valueOf bits) = bits :=
  valueOf_injective length_bitsOf (valueOf_bitsOf (valueOf_lt bits))

section Texts
variable {xs ys : List Nat}

/-- The bits of a text of symbols of `w` bits each. -/
def textBits (w : Nat) (xs : List Nat) : List Bool := xs.flatMap (bitsOf w)

@[simp] theorem textBits_nil : textBits w [] = [] := rfl

theorem textBits_cons (x : Nat) : textBits w (x :: xs) = bitsOf w x ++ textBits w xs := rfl

theorem textBits_append : textBits w (xs ++ ys) = textBits w xs ++ textBits w ys := List.flatMap_append

theorem length_textBits : (textBits w xs).length = w * xs.length := by
  induction xs with
  | nil => rfl
  | cons x xs ih =>
    rw [textBits_cons, List.length_append, length_bitsOf, ih, List.length_cons]
    ring

/-- A text is told by its bits. -/
theorem textBits_injective (hw : 0 < w) (hxs : ∀ x ∈ xs, x < 2 ^ w) (hys : ∀ y ∈ ys, y < 2 ^ w)
    (h : textBits w xs = textBits w ys) : xs = ys := by
  induction xs generalizing ys with
  | nil =>
    have hlength := congrArg List.length h
    rw [length_textBits, length_textBits, List.length_nil, Nat.mul_zero] at hlength
    exact (List.length_eq_zero_iff.mp ((Nat.mul_eq_zero.mp hlength.symm).resolve_left hw.ne')).symm
  | cons x xs ih =>
    cases ys with
    | nil =>
      have hlength := congrArg List.length h
      simp [length_textBits, hw.ne'] at hlength
    | cons y ys =>
      obtain ⟨hhead, htail⟩ := List.append_inj h (by simp)
      have hxy : x = y := by
        rw [← valueOf_bitsOf (hxs x (by simp)), hhead, valueOf_bitsOf (hys y (by simp))]
      rw [hxy, ih (fun z hz => hxs z (by simp [hz])) (fun z hz => hys z (by simp [hz])) htail]

end Texts
end Ogre.Library
