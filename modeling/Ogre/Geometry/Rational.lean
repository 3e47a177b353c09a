import Mathlib.Algebra.Order.Field.Basic
import Mathlib.Algebra.Order.Ring.Int
import Mathlib.Data.Nat.GCD.Basic
import Mathlib.Data.Rat.Cast.Order
import Mathlib.Tactic.Linarith
import Mathlib.Tactic.Tauto

/-! Rational numbers of fixed width: how they are compared, and how they are hashed. -/
namespace Ogre.Geometry

structure Rational where
  num : Int32
  den : UInt32
  deriving DecidableEq

namespace Rational

/-- The least number has no absolute value of its type, and `std::abs` of it is undefined. -/
def absToUnsigned (x : Int32) : Option UInt32 := if x = Int32.minValue then none else some x.abs.toUInt32

/-- `operator==`. -/
def beq (a that : Rational) : Option Bool :=
  if a.den = that.den then some (decide (a.num = that.num))
  else if decide (0 ≤ a.num) ≠ decide (0 ≤ that.num) then some false
  else do
    let n ← absToUnsigned a.num
    let m ← absToUnsigned that.num
    some (decide (n * that.den = m * a.den))

/-- `operator<`. -/
def blt (a that : Rational) : Option Bool :=
  if a.den = that.den then some (decide (a.num < that.num))
  else if decide (0 ≤ a.num) ≠ decide (0 ≤ that.num) then some (decide (a.num < that.num))
  else do
    let n ← absToUnsigned a.num
    let m ← absToUnsigned that.num
    some (decide (n * that.den < m * a.den))

/-- `std::gcd` of a signed and an unsigned number. -/
def gcd (a : Rational) : Nat := Nat.gcd a.num.toInt.natAbs a.den.toNat

/-- The numerator becomes an unsigned number of 64 bits, with its sign, before it is divided. -/
def getHash (a : Rational) : UInt64 :=
  if a.num = 0 then 0
  else
    let gcd := UInt64.ofNat a.gcd
    ((a.num.toInt64.toUInt64 / gcd) <<< 32) ||| (a.den.toUInt64 / gcd)

/-- The number that is meant. -/
def value (a : Rational) : ℚ := a.num.toInt / a.den.toNat

/-- The numerator of the one times the denominator of the other, without their signs. -/
def cross (a b : Rational) : Nat := a.num.toInt.natAbs * b.den.toNat

variable {a b : Rational} {x y : Int32}

theorem value_eq_iff (ha : a.den ≠ 0) (hb : b.den ≠ 0) :
    a.value = b.value ↔ a.num.toInt * b.den.toNat = b.num.toInt * a.den.toNat := by
  have ha : (a.den.toNat : ℚ) ≠ 0 := by exact_mod_cast fun h => ha (UInt32.toNat_inj.mp h)
  have hb : (b.den.toNat : ℚ) ≠ 0 := by exact_mod_cast fun h => hb (UInt32.toNat_inj.mp h)
  rw [value, value, div_eq_div_iff ha hb]
  exact_mod_cast Iff.rfl

theorem value_lt_iff (ha : a.den ≠ 0) (hb : b.den ≠ 0) :
    a.value < b.value ↔ a.num.toInt * b.den.toNat < b.num.toInt * a.den.toNat := by
  have ha : (0 : ℚ) < a.den.toNat := by exact_mod_cast Nat.pos_of_ne_zero fun h => ha (UInt32.toNat_inj.mp h)
  have hb : (0 : ℚ) < b.den.toNat := by exact_mod_cast Nat.pos_of_ne_zero fun h => hb (UInt32.toNat_inj.mp h)
  rw [value, value, div_lt_div_iff₀ ha hb]
  exact_mod_cast Iff.rfl

theorem toInt_nonneg : 0 ≤ x ↔ 0 ≤ x.toInt := Int32.le_iff_toInt_le

theorem toInt_mul (x : Int32) (d : Nat) : x.toInt * d =
    if 0 ≤ x then ((x.toInt.natAbs * d : Nat) : Int) else -((x.toInt.natAbs * d : Nat) : Int) := by
  split
  next hx => rw [Nat.cast_mul, Int.natAbs_of_nonneg (toInt_nonneg.mp hx)]
  next hx =>
    have hx := toInt_nonneg.not.mp hx
    rw [Nat.cast_mul, Int.ofNat_natAbs_of_nonpos (by omega), neg_mul, neg_neg]

/-- Two's complement. -/
theorem toNat_toUInt64 (x : Int32) : (x.toInt64.toUInt64.toNat : Int) = x.toInt % 18446744073709551616 := by
  have h : x.toInt64.toUInt64.toNat = x.toInt64.toBitVec.toNat := rfl
  have hint : x.toInt64.toBitVec.toInt = x.toInt := Int32.toInt_toInt64 x
  have hcond := BitVec.toInt_eq_toNat_cond x.toInt64.toBitVec
  have hlt := x.toInt64.toBitVec.isLt
  rw [hint] at hcond
  rw [h]
  split at hcond <;> omega

theorem absToUnsigned_eq (hx : x ≠ Int32.minValue) : ∃ n, absToUnsigned x = some n ∧ n.toNat = x.toInt.natAbs := by
  refine ⟨x.abs.toUInt32, if_neg hx, ?_⟩
  have h : x.abs.toUInt32.toNat = x.toBitVec.abs.toNat := rfl
  have hcond : x.toInt = _ := BitVec.toInt_eq_toNat_cond x.toBitVec
  have hlt := x.toBitVec.isLt
  rw [h, BitVec.toNat_abs, BitVec.msb_eq_decide]
  split at hcond <;> split <;> simp only [decide_eq_true_eq] at * <;> omega

/-- The comparisons are those of the numbers, and equal numbers have equal hashes. -/
structure Faithful (a b : Rational) : Prop where
  eq : a.beq b = some (decide (a.value = b.value))
  lt : a.blt b = some (decide (a.value < b.value))
  hash : a.value = b.value → a.getHash = b.getHash

/-- The numerators decide; or the cross products, of which only the lower half is compared, are in
the order of their lower halves, or in the opposite order where the numbers are negative. -/
def Compares (a b : Rational) : Prop :=
  a.den = b.den ∨ (0 ≤ a.num ↔ ¬ 0 ≤ b.num) ∨
    a.num ≠ Int32.minValue ∧ b.num ≠ Int32.minValue ∧
      compare (cross a b % 2 ^ 32) (cross b a % 2 ^ 32) =
        if 0 ≤ a.num then compare (cross a b) (cross b a) else compare (cross b a) (cross a b)

/-- What the division by the greatest common divisor makes of the sign. -/
def signPart (a : Rational) : Nat := 2 ^ 64 / a.gcd % 2 ^ 32

/-- Fractions of one negative number leave the same of the sign. -/
def HashesAlike (a b : Rational) : Prop :=
  a.num < 0 → b.num < 0 → cross a b = cross b a → a.signPart = b.signPart

private theorem compare_eq_iff {p q r s : Nat} : compare p q = compare r s ↔ (p = q ↔ r = s) ∧ (p < q ↔ r < s) := by
  rcases Nat.lt_trichotomy p q with h | rfl | h <;> rcases Nat.lt_trichotomy r s with h' | rfl | h' <;>
    simp [Nat.compare_eq_lt.mpr, Nat.compare_eq_gt.mpr, *] <;> omega

section Comparisons

private theorem den_pos (ha : a.den ≠ 0) : 0 < a.den.toNat := Nat.pos_of_ne_zero fun h => ha (UInt32.toNat_inj.mp h)

private theorem exact_of_den_eq (ha : a.den ≠ 0) (hb : b.den ≠ 0) (h : a.den = b.den) :
    a.beq b = some (decide (a.value = b.value)) ∧ a.blt b = some (decide (a.value < b.value)) := by
  have hpos : (0 : Int) < b.den.toNat := by exact_mod_cast den_pos hb
  rw [beq, blt, if_pos h, if_pos h]
  simp only [value_eq_iff ha hb, value_lt_iff ha hb, h, Int32.lt_iff_toInt_lt, mul_left_inj' hpos.ne',
    mul_lt_mul_iff_left₀ hpos, Int32.toInt_inj, and_self]

private theorem exact_of_signs (ha : a.den ≠ 0) (hb : b.den ≠ 0) (h : a.den ≠ b.den)
    (hsigns : 0 ≤ a.num ↔ ¬ 0 ≤ b.num) :
    a.beq b = some (decide (a.value = b.value)) ∧ a.blt b = some (decide (a.value < b.value)) := by
  have hapos : (0 : Int) < a.den.toNat := by exact_mod_cast den_pos ha
  have hbpos : (0 : Int) < b.den.toNat := by exact_mod_cast den_pos hb
  have hne : decide (0 ≤ a.num) ≠ decide (0 ≤ b.num) := by
    intro heq
    simp only [decide_eq_decide] at heq
    tauto
  rw [beq, blt, if_neg h, if_neg h, if_pos hne, if_pos hne]
  simp only [value_eq_iff ha hb, value_lt_iff ha hb, Int32.lt_iff_toInt_lt, Option.some.injEq, decide_eq_decide]
  rw [toInt_nonneg, toInt_nonneg] at hsigns
  by_cases hsign : 0 ≤ a.num.toInt
  · have hle : 0 ≤ a.num.toInt * b.den.toNat := mul_nonneg hsign hbpos.le
    have hlt : b.num.toInt * a.den.toNat < 0 := mul_neg_of_neg_of_pos (not_le.mp (hsigns.mp hsign)) hapos
    have hnot := hsigns.mp hsign
    simp only [Bool.false_eq, decide_eq_false_iff_not]
    omega
  · have hle : 0 ≤ b.num.toInt * a.den.toNat := mul_nonneg (not_not.mp (mt hsigns.mpr hsign)) hapos.le
    have hlt : a.num.toInt * b.den.toNat < 0 := mul_neg_of_neg_of_pos (not_le.mp hsign) hbpos
    have hnot := not_not.mp (mt hsigns.mpr hsign)
    simp only [Bool.false_eq, decide_eq_false_iff_not]
    omega

/-- Where the signs are the same, the lower halves of the cross products are compared. -/
private theorem beq_of_cross (h : a.den ≠ b.den) (hsigns : 0 ≤ a.num ↔ 0 ≤ b.num) (ha : a.num ≠ Int32.minValue)
    (hb : b.num ≠ Int32.minValue) :
    a.beq b = some (decide (cross a b % 2 ^ 32 = cross b a % 2 ^ 32)) ∧
      a.blt b = some (decide (cross a b % 2 ^ 32 < cross b a % 2 ^ 32)) := by
  obtain ⟨n, hn, hcrossn⟩ := absToUnsigned_eq ha
  obtain ⟨m, hm, hcrossm⟩ := absToUnsigned_eq hb
  have heq : ¬ decide (0 ≤ a.num) ≠ decide (0 ≤ b.num) := by simpa only [decide_eq_decide, not_not] using hsigns
  rw [beq, blt, if_neg h, if_neg h, if_neg heq, if_neg heq, hn, hm]
  simp only [Option.bind_eq_bind, Option.bind_some, ← UInt32.toNat_inj, UInt32.lt_iff_toNat_lt, UInt32.toNat_mul,
    hcrossn, hcrossm, cross]
  exact ⟨rfl, rfl⟩

/-- The comparisons stop at the least number. -/
private theorem beq_of_minValue (h : a.den ≠ b.den) (hsigns : 0 ≤ a.num ↔ 0 ≤ b.num)
    (hmin : a.num = Int32.minValue ∨ b.num = Int32.minValue) : a.beq b = none := by
  have heq : ¬ decide (0 ≤ a.num) ≠ decide (0 ≤ b.num) := by simpa only [decide_eq_decide, not_not] using hsigns
  rw [beq, if_neg h, if_neg heq]
  rcases hmin with hmin | hmin
  · simp [hmin, absToUnsigned]
  · cases absToUnsigned a.num <;> simp [hmin, absToUnsigned]

private theorem exact_of_cross (ha : a.den ≠ 0) (hb : b.den ≠ 0) (h : a.den ≠ b.den) (hsigns : 0 ≤ a.num ↔ 0 ≤ b.num)
    (hamin : a.num ≠ Int32.minValue) (hbmin : b.num ≠ Int32.minValue) :
    (a.beq b = some (decide (a.value = b.value)) ∧ a.blt b = some (decide (a.value < b.value))) ↔
      compare (cross a b % 2 ^ 32) (cross b a % 2 ^ 32) =
        if 0 ≤ a.num then compare (cross a b) (cross b a) else compare (cross b a) (cross a b) := by
  obtain ⟨heq, hlt⟩ := beq_of_cross h hsigns hamin hbmin
  rw [heq, hlt, Option.some.injEq, Option.some.injEq, decide_eq_decide, decide_eq_decide, value_eq_iff ha hb,
    value_lt_iff ha hb]
  rw [toInt_mul a.num, toInt_mul b.num, ← cross, ← cross]
  by_cases hsign : 0 ≤ a.num
  · rw [if_pos hsign, if_pos (hsigns.mp hsign), if_pos hsign, compare_eq_iff]
    omega
  · rw [if_neg hsign, if_neg (mt hsigns.mpr hsign), if_neg hsign, compare_eq_iff]
    omega

private theorem exact_iff (ha : a.den ≠ 0) (hb : b.den ≠ 0) :
    (a.beq b = some (decide (a.value = b.value)) ∧ a.blt b = some (decide (a.value < b.value))) ↔ Compares a b := by
  by_cases h : a.den = b.den
  · exact iff_of_true (exact_of_den_eq ha hb h) (.inl h)
  by_cases hsigns : 0 ≤ a.num ↔ 0 ≤ b.num
  · have hnot : ¬ (0 ≤ a.num ↔ ¬ 0 ≤ b.num) := by tauto
    rw [Compares, or_iff_right h, or_iff_right hnot]
    by_cases hmin : a.num = Int32.minValue ∨ b.num = Int32.minValue
    · refine iff_of_false ?_ (by tauto)
      rw [beq_of_minValue h hsigns hmin]
      simp
    · obtain ⟨hamin, hbmin⟩ := not_or.mp hmin
      rw [exact_of_cross ha hb h hsigns hamin hbmin, and_iff_right hamin, and_iff_right hbmin]
  · have hopposite : 0 ≤ a.num ↔ ¬ 0 ≤ b.num := by tauto
    exact iff_of_true (exact_of_signs ha hb h hopposite) (.inr (.inl hopposite))

end Comparisons

section Hashes

private theorem gcd_pos (ha : a.den ≠ 0) : 0 < a.gcd := Nat.gcd_pos_of_pos_right _ (den_pos ha)

private theorem gcd_lt (ha : a.den ≠ 0) : a.gcd < 2 ^ 32 :=
  (Nat.gcd_le_right _ (den_pos ha)).trans_lt a.den.toNat_lt

/-- Fractions of one number are reduced to the same one. -/
private theorem reduced_eq (ha : a.den ≠ 0) (hb : b.den ≠ 0) (h : cross a b = cross b a) :
    a.num.toInt.natAbs / a.gcd = b.num.toInt.natAbs / b.gcd ∧ a.den.toNat / a.gcd = b.den.toNat / b.gcd := by
  have hacoprime := Nat.coprime_div_gcd_div_gcd (gcd_pos ha)
  have hbcoprime := Nat.coprime_div_gcd_div_gcd (gcd_pos hb)
  obtain ⟨n, hn⟩ : a.gcd ∣ a.num.toInt.natAbs := Nat.gcd_dvd_left _ _
  obtain ⟨d, hd⟩ : a.gcd ∣ a.den.toNat := Nat.gcd_dvd_right _ _
  obtain ⟨m, hm⟩ : b.gcd ∣ b.num.toInt.natAbs := Nat.gcd_dvd_left _ _
  obtain ⟨e, he⟩ : b.gcd ∣ b.den.toNat := Nat.gcd_dvd_right _ _
  rw [← gcd, hn, hd, Nat.mul_div_cancel_left n (gcd_pos ha), Nat.mul_div_cancel_left d (gcd_pos ha)] at hacoprime
  rw [← gcd, hm, he, Nat.mul_div_cancel_left m (gcd_pos hb), Nat.mul_div_cancel_left e (gcd_pos hb)] at hbcoprime
  rw [hn, hd, hm, he, Nat.mul_div_cancel_left n (gcd_pos ha), Nat.mul_div_cancel_left d (gcd_pos ha),
    Nat.mul_div_cancel_left m (gcd_pos hb), Nat.mul_div_cancel_left e (gcd_pos hb)]
  have hproduct : n * e = m * d := by
    rw [cross, cross, hn, he, hm, hd] at h
    refine Nat.eq_of_mul_eq_mul_left (Nat.mul_pos (gcd_pos ha) (gcd_pos hb)) ?_
    linarith
  have hnm : n = m := Nat.dvd_antisymm (hacoprime.dvd_of_dvd_mul_right ⟨e, hproduct.symm⟩)
    (hbcoprime.dvd_of_dvd_mul_right ⟨d, hproduct⟩)
  have hde : d = e := Nat.dvd_antisymm (hacoprime.symm.dvd_of_dvd_mul_left ⟨m, by rw [hproduct, Nat.mul_comm]⟩)
    (hbcoprime.symm.dvd_of_dvd_mul_left ⟨n, by rw [← hproduct, Nat.mul_comm]⟩)
  exact ⟨hnm, hde⟩

/-- The two halves of a hash. -/
private theorem getHash_toNat (ha : a.den ≠ 0) (hzero : a.num ≠ 0) :
    a.getHash.toNat = a.num.toInt64.toUInt64.toNat / a.gcd % 2 ^ 32 * 2 ^ 32 + a.den.toNat / a.gcd := by
  have hgcd : (UInt64.ofNat a.gcd).toNat = a.gcd :=
    UInt64.toNat_ofNat_of_lt' ((gcd_lt ha).trans (by decide))
  have hden : a.den.toNat / a.gcd < 2 ^ 32 := (Nat.div_le_self _ _).trans_lt a.den.toNat_lt
  have hhigh : a.num.toInt64.toUInt64.toNat / a.gcd * 2 ^ 32 % 2 ^ 64 =
      a.num.toInt64.toUInt64.toNat / a.gcd % 2 ^ 32 * 2 ^ 32 := by omega
  rw [getHash, if_neg hzero]
  simp only [UInt64.toNat_or, UInt64.toNat_shiftLeft, UInt64.toNat_div, hgcd, UInt32.toNat_toUInt64, Nat.shiftLeft_eq,
    UInt64.toNat_ofNat, Nat.reducePow, Nat.reduceMod] at hhigh ⊢
  rw [hhigh, show 4294967296 = 2 ^ 32 from rfl, ← Nat.shiftLeft_eq, Nat.shiftLeft_add_eq_or_of_lt hden]

private theorem getHash_eq_iff (ha : a.den ≠ 0) (hb : b.den ≠ 0) (hazero : a.num ≠ 0) (hbzero : b.num ≠ 0)
    (h : cross a b = cross b a) : a.getHash = b.getHash ↔
      a.num.toInt64.toUInt64.toNat / a.gcd % 2 ^ 32 = b.num.toInt64.toUInt64.toNat / b.gcd % 2 ^ 32 := by
  rw [← UInt64.toNat_inj, getHash_toNat ha hazero, getHash_toNat hb hbzero, (reduced_eq ha hb h).2]
  omega

/-- What is left of a negative numerator is less by the numerator of the reduced fraction than what
is left of the sign. -/
private theorem negative_div (ha : a.den ≠ 0) (hneg : a.num < 0) :
    a.num.toInt64.toUInt64.toNat / a.gcd = 2 ^ 64 / a.gcd - a.num.toInt.natAbs / a.gcd := by
  have hneg : a.num.toInt < 0 := Int32.lt_iff_toInt_lt.mp hneg
  have hlow := a.num.le_toInt
  have hnat := toNat_toUInt64 a.num
  have hsub : a.num.toInt64.toUInt64.toNat = 2 ^ 64 - a.num.toInt.natAbs := by omega
  obtain ⟨n, hn⟩ : a.gcd ∣ a.num.toInt.natAbs := Nat.gcd_dvd_left _ _
  rw [hsub, hn, Nat.sub_mul_div, Nat.mul_div_cancel_left n (gcd_pos ha)]

private theorem nonnegative_div (hpos : 0 ≤ a.num) : a.num.toInt64.toUInt64.toNat = a.num.toInt.natAbs := by
  have hpos := toInt_nonneg.mp hpos
  have hlow := a.num.toInt_lt
  have hnat := toNat_toUInt64 a.num
  omega

private theorem cross_eq_zero (hb : b.den ≠ 0) : cross a b = 0 ↔ a.num = 0 := by
  rw [cross, Nat.mul_eq_zero, or_iff_left (den_pos hb).ne', Int.natAbs_eq_zero]
  exact Int32.toInt_inj (y := 0)

private theorem cross_pos (hb : b.den ≠ 0) (hneg : ¬ 0 ≤ a.num) : 0 < cross a b := by
  refine Nat.pos_of_ne_zero fun h => hneg ?_
  rw [(cross_eq_zero hb).mp h]
  decide

/-- The numbers are equal exactly if their signs and cross products are. -/
private theorem value_eq_iff_cross (ha : a.den ≠ 0) (hb : b.den ≠ 0) :
    a.value = b.value ↔ (0 ≤ a.num ↔ 0 ≤ b.num) ∧ cross a b = cross b a := by
  rw [value_eq_iff ha hb, toInt_mul a.num, toInt_mul b.num, ← cross, ← cross]
  by_cases hasign : 0 ≤ a.num <;> by_cases hbsign : 0 ≤ b.num
  · simp [hasign, hbsign]
  · have hpos := cross_pos ha hbsign
    simp only [hasign, hbsign, if_true, if_false, iff_false, not_true_eq_false, false_and]
    omega
  · have hpos := cross_pos hb hasign
    simp only [hasign, hbsign, if_true, if_false, iff_true, false_and, iff_false]
    omega
  · simp [hasign, hbsign]

/-- Numbers that are not negative have equal hashes where they are equal. -/
private theorem hash_of_nonnegative (ha : a.den ≠ 0) (hb : b.den ≠ 0) (hasign : 0 ≤ a.num) (hbsign : 0 ≤ b.num)
    (h : cross a b = cross b a) : a.getHash = b.getHash := by
  by_cases hzero : a.num = 0
  · have hbzero : b.num = 0 := (cross_eq_zero ha).mp (h ▸ (cross_eq_zero hb).mpr hzero)
    rw [getHash, getHash, if_pos hzero, if_pos hbzero]
  · have hbzero : b.num ≠ 0 := fun hbzero => hzero ((cross_eq_zero hb).mp (h ▸ (cross_eq_zero ha).mpr hbzero))
    rw [getHash_eq_iff ha hb hzero hbzero h, nonnegative_div hasign, nonnegative_div hbsign, (reduced_eq ha hb h).1]

/-- The low word of the reduced numerator is what is left of the sign, less the same for both. -/
private theorem hash_of_negative (ha : a.den ≠ 0) (hb : b.den ≠ 0) (hasign : a.num < 0) (hbsign : b.num < 0)
    (h : cross a b = cross b a) : a.getHash = b.getHash ↔ a.signPart = b.signPart := by
  have hne {x : Int32} (hx : x < 0) : x ≠ 0 := by
    rintro rfl
    exact absurd hx (by decide)
  have hle {r : Rational} : r.num.toInt.natAbs / r.gcd ≤ 2 ^ 64 / r.gcd := by
    have hlow := r.num.le_toInt
    have hhigh := r.num.toInt_lt
    exact Nat.div_le_div_right (by omega)
  have hreduced := (reduced_eq ha hb h).1
  have hale := hle (r := a)
  have hble := hle (r := b)
  rw [getHash_eq_iff ha hb (hne hasign) (hne hbsign) h, negative_div ha hasign, negative_div hb hbsign]
  unfold signPart
  omega

private theorem hash_iff (ha : a.den ≠ 0) (hb : b.den ≠ 0) :
    (a.value = b.value → a.getHash = b.getHash) ↔ HashesAlike a b := by
  rw [value_eq_iff_cross ha hb, HashesAlike, ← Int32.not_le, ← Int32.not_le]
  by_cases hasign : 0 ≤ a.num
  · exact iff_of_true (fun h => hash_of_nonnegative ha hb hasign (h.1.mp hasign) h.2) fun hneg => absurd hasign hneg
  · have hnegative (hbsign : ¬ 0 ≤ b.num) :=
      hash_of_negative ha hb (Int32.not_le.mp hasign) (Int32.not_le.mp hbsign)
    constructor
    · intro h _ hbsign hcross
      exact (hnegative hbsign hcross).mp (h ⟨iff_of_false hasign hbsign, hcross⟩)
    · rintro h ⟨hsigns, hcross⟩
      have hbsign := mt hsigns.mpr hasign
      exact (hnegative hbsign hcross).mpr (h hasign hbsign hcross)

end Hashes

/-- Exactly where the wrapped products and the sign do no harm, two fractions behave as the numbers
that they stand for. -/
theorem faithful_iff (a b : Rational) (ha : a.den ≠ 0) (hb : b.den ≠ 0) :
    Faithful a b ↔ Compares a b ∧ HashesAlike a b := by
  rw [← exact_iff ha hb, ← hash_iff ha hb]
  exact ⟨fun h => ⟨⟨h.eq, h.lt⟩, h.hash⟩, fun h => ⟨h.1.1, h.1.2, h.2⟩⟩

theorem faithful_half : Faithful ⟨1, 2⟩ ⟨2, 4⟩ :=
  (faithful_iff ⟨1, 2⟩ ⟨2, 4⟩ (by decide) (by decide)).mpr
    ⟨.inr (.inr ⟨by decide, by decide, by decide⟩), fun hneg => absurd hneg (by decide)⟩

/-- Of two negative numbers the greater one is said to be less, a product of 2 ^ 32 is taken for
nothing, and fractions of one negative number have two hashes. -/
theorem faithful_fails :
    ¬ Faithful ⟨-1, 2⟩ ⟨-1, 3⟩ ∧ ¬ Faithful ⟨65536, 1⟩ ⟨0, 65536⟩ ∧ ¬ Faithful ⟨-1, 2⟩ ⟨-3, 6⟩ := by
  refine ⟨fun h => ?_, fun h => ?_, fun h => ?_⟩
  · have hlt := (value_lt_iff (a := ⟨-1, 2⟩) (b := ⟨-1, 3⟩) (by decide) (by decide)).mpr (by decide)
    have hfalse : blt ⟨-1, 2⟩ ⟨-1, 3⟩ = some false := by decide
    simp [hlt, h.lt] at hfalse
  · have hne := (value_eq_iff (a := ⟨65536, 1⟩) (b := ⟨0, 65536⟩) (by decide) (by decide)).not.mpr (by decide)
    have htrue : beq ⟨65536, 1⟩ ⟨0, 65536⟩ = some true := by decide
    simp [hne, h.eq] at htrue
  · have heq := (value_eq_iff (a := ⟨-1, 2⟩) (b := ⟨-3, 6⟩) (by decide) (by decide)).mpr (by decide)
    exact absurd (h.hash heq) (by decide)

end Rational
end Ogre.Geometry
