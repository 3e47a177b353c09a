import Mathlib.Algebra.Order.Ring.Int
import Mathlib.Tactic.Common
import Ogre.Geometry.Rect

/-! Saturated arithmetic of signed coordinates, and the rectangles that are made with it. -/
namespace Ogre.Geometry

/-- A value of a signed type that has so many bits besides the sign. -/
@[ext] structure Signed (bits : Nat) where
  value : Int
  min_le : -2 ^ bits ≤ value
  le_max : value ≤ 2 ^ bits - 1
  deriving DecidableEq, Repr

namespace Signed
variable {bits : Nat}

theorem two_pow_pos (bits : Nat) : (0 : Int) < 2 ^ bits := Int.pow_pos (by decide)

/-- `std::numeric_limits::min`. -/
def min (bits : Nat) : Signed bits := ⟨-2 ^ bits, Int.le_refl _, by have := two_pow_pos bits; omega⟩

/-- `std::numeric_limits::max`. -/
def max (bits : Nat) : Signed bits := ⟨2 ^ bits - 1, by have := two_pow_pos bits; omega, Int.le_refl _⟩

/-- Types that are narrower than `int`, which has 31 bits besides the sign, are promoted to it. -/
def promoted (bits : Nat) : Nat := Nat.max bits 31

/-- What signed arithmetic comes to, which is undefined where it overflows. -/
def checked (bits : Nat) (x : Int) : Option Int :=
  if -2 ^ promoted bits ≤ x ∧ x ≤ 2 ^ promoted bits - 1 then some x else none

/-- What an integer is converted to, of two's complement. -/
def ofInt (bits : Nat) (x : Int) : Signed bits where
  value := (x + 2 ^ bits) % 2 ^ (bits + 1) - 2 ^ bits
  min_le := by
    have hnonneg := Int.emod_nonneg (x + 2 ^ bits) (Int.ne_of_gt (two_pow_pos (bits + 1)))
    omega
  le_max := by
    have hlt := Int.emod_lt_of_pos (x + 2 ^ bits) (two_pow_pos (bits + 1))
    rw [Int.pow_succ] at hlt ⊢
    omega

/-- The value of the type that is closest. -/
def clamp (bits : Nat) (x : Int) : Signed bits where
  value := Max.max (-2 ^ bits) (Min.min x (2 ^ bits - 1))
  min_le := by omega
  le_max := by have := two_pow_pos bits; omega

/-- `saturated::Add`. -/
def add (location distance : Signed bits) : Option (Signed bits) :=
  let sum := (checked bits (location.value + distance.value)).map (ofInt bits)
  if location.value ≥ 0 then do
    let room ← checked bits ((max bits).value - location.value)
    if distance.value > room then some (max bits) else sum
  else do
    let room ← checked bits ((min bits).value - location.value)
    if distance.value < room then some (min bits) else sum

/-- `saturated::Sub`. -/
def sub (upper lower : Signed bits) : Option (Signed bits) :=
  let difference := (checked bits (upper.value - lower.value)).map (ofInt bits)
  if upper.value ≥ 0 then
    if lower.value < 0 then do
      let limit ← checked bits ((max bits).value + lower.value)
      if upper.value > limit then some (max bits) else difference
    else difference
  else if lower.value > 0 then do
    let limit ← checked bits ((min bits).value + lower.value)
    if upper.value < limit then some (min bits) else difference
  else difference

theorem checked_of_mem {x : Int} (hmin : -2 ^ bits ≤ x) (hmax : x ≤ 2 ^ bits - 1) : checked bits x = some x := by
  have hle : (2 : Int) ^ bits ≤ 2 ^ promoted bits := pow_le_pow_right₀ (by decide) (Nat.le_max_left bits 31)
  exact if_pos (by omega)

theorem ofInt_of_mem {x : Int} (hmin : -2 ^ bits ≤ x) (hmax : x ≤ 2 ^ bits - 1) : ofInt bits x = clamp bits x := by
  have hmod : (x + 2 ^ bits) % 2 ^ (bits + 1) = x + 2 ^ bits := by
    refine Int.emod_eq_of_lt (by omega) ?_
    rw [Int.pow_succ]
    omega
  ext
  simp only [ofInt, clamp, hmod]
  omega

/-- A result that the type has is neither lost nor changed. -/
theorem map_checked_of_mem {x : Int} (hmin : -2 ^ bits ≤ x) (hmax : x ≤ 2 ^ bits - 1) :
    (checked bits x).map (ofInt bits) = some (clamp bits x) := by
  rw [checked_of_mem hmin hmax, Option.map_some, ofInt_of_mem hmin hmax]

theorem clamp_of_ge {x : Int} (h : 2 ^ bits - 1 ≤ x) : clamp bits x = max bits := by
  have hpos := two_pow_pos bits
  ext
  simp only [clamp, max]
  omega

theorem clamp_of_le {x : Int} (h : x ≤ -2 ^ bits) : clamp bits x = min bits := by
  have hpos := two_pow_pos bits
  ext
  simp only [clamp, min]
  omega

theorem value_clamp {x : Int} (hmin : -2 ^ bits ≤ x) (hmax : x ≤ 2 ^ bits - 1) : (clamp bits x).value = x := by
  simp only [clamp]
  omega

@[simp] theorem clamp_value (a : Signed bits) : clamp bits a.value = a := by
  have hmin := a.min_le
  have hmax := a.le_max
  ext
  simp only [clamp]
  omega

/-- The test finds what is above the type. -/
private theorem saturated_max {x limit result : Int} (hmin : -2 ^ bits ≤ limit) (hmax : limit ≤ 2 ^ bits - 1)
    (hresult : -2 ^ bits ≤ result) (h : x > limit ↔ result > 2 ^ bits - 1) :
    (do
      let limit ← checked bits limit
      if x > limit then some (max bits) else (checked bits result).map (ofInt bits)) = some (clamp bits result) := by
  rw [checked_of_mem hmin hmax, Option.bind_eq_bind, Option.bind_some]
  by_cases hx : x > limit
  · rw [if_pos hx, clamp_of_ge (Int.le_of_lt (h.mp hx))]
  · rw [if_neg hx]
    exact map_checked_of_mem hresult (Int.not_lt.mp (h.not.mp hx))

/-- The test finds what is below the type. -/
private theorem saturated_min {x limit result : Int} (hmin : -2 ^ bits ≤ limit) (hmax : limit ≤ 2 ^ bits - 1)
    (hresult : result ≤ 2 ^ bits - 1) (h : x < limit ↔ result < -2 ^ bits) :
    (do
      let limit ← checked bits limit
      if x < limit then some (min bits) else (checked bits result).map (ofInt bits)) = some (clamp bits result) := by
  rw [checked_of_mem hmin hmax, Option.bind_eq_bind, Option.bind_some]
  by_cases hx : x < limit
  · rw [if_pos hx, clamp_of_le (Int.le_of_lt (h.mp hx))]
  · rw [if_neg hx]
    exact map_checked_of_mem (Int.not_lt.mp (h.not.mp hx)) hresult

theorem add_eq (a b : Signed bits) : a.add b = some (clamp bits (a.value + b.value)) := by
  obtain ⟨x, hxmin, hxmax⟩ := a
  obtain ⟨y, hymin, hymax⟩ := b
  unfold add
  dsimp only [min, max]
  split
  · exact saturated_max (by omega) (by omega) (by omega) (by omega)
  · exact saturated_min (by omega) (by omega) (by omega) (by omega)

theorem sub_eq (a b : Signed bits) : a.sub b = some (clamp bits (a.value - b.value)) := by
  obtain ⟨x, hxmin, hxmax⟩ := a
  obtain ⟨y, hymin, hymax⟩ := b
  unfold sub
  dsimp only [min, max]
  split
  · split
    · exact saturated_max (by omega) (by omega) (by omega) (by omega)
    · exact map_checked_of_mem (by omega) (by omega)
  · split
    · exact saturated_min (by omega) (by omega) (by omega) (by omega)
    · exact map_checked_of_mem (by omega) (by omega)

end Signed

structure TPoint (T : Type) where
  x : T
  y : T
  deriving DecidableEq, Repr

structure TSize (T : Type) where
  width : T
  height : T
  deriving DecidableEq, Repr

structure TRect (T : Type) where
  left : T
  top : T
  right : T
  bottom : T
  deriving DecidableEq, Repr

namespace TRect
variable {bits : Nat}

def makeXYWH (x y width height : Signed bits) : Option (TRect (Signed bits)) := do
  let right ← x.add width
  let bottom ← y.add height
  some ⟨x, y, right, bottom⟩

def makeOriginSize (origin : TPoint (Signed bits)) (size : TSize (Signed bits)) : Option (TRect (Signed bits)) :=
  makeXYWH origin.x origin.y size.width size.height

def getWidth (r : TRect (Signed bits)) : Option (Signed bits) := r.right.sub r.left

def getHeight (r : TRect (Signed bits)) : Option (Signed bits) := r.bottom.sub r.top

def getOrigin (r : TRect (Signed bits)) : TPoint (Signed bits) := ⟨r.left, r.top⟩

def getSize (r : TRect (Signed bits)) : Option (TSize (Signed bits)) := do
  let width ← r.getWidth
  let height ← r.getHeight
  some ⟨width, height⟩

def shift (r : TRect (Signed bits)) (dx dy : Signed bits) : Option (TRect (Signed bits)) := do
  let left ← r.left.add dx
  let top ← r.top.add dy
  let right ← r.right.add dx
  let bottom ← r.bottom.add dy
  some ⟨left, top, right, bottom⟩

/-- `Shift` of a point. -/
def shiftOffset (r : TRect (Signed bits)) (offset : TPoint (Signed bits)) : Option (TRect (Signed bits)) :=
  r.shift offset.x offset.y

def expand (r : TRect (Signed bits)) (left top right bottom : Signed bits) : Option (TRect (Signed bits)) := do
  let left ← r.left.sub left
  let top ← r.top.sub top
  let right ← r.right.add right
  let bottom ← r.bottom.add bottom
  some ⟨left, top, right, bottom⟩

/-- `Expand` of one amount. -/
def expandAmount (r : TRect (Signed bits)) (amount : Signed bits) : Option (TRect (Signed bits)) :=
  r.expand amount amount amount amount

/-- `Expand` of two amounts, also of those of a point or a size. -/
def expandAmounts (r : TRect (Signed bits)) (horizontal vertical : Signed bits) : Option (TRect (Signed bits)) :=
  r.expand horizontal vertical horizontal vertical

/-- The rectangle with edges in the integers. -/
def exact (r : TRect (Signed bits)) : IRect := ⟨r.left.value, r.top.value, r.right.value, r.bottom.value⟩

end TRect

namespace IRect

/-- What rectangles come to in the integers. -/
def makeXYWH (x y width height : Int) : IRect := ⟨x, y, x + width, y + height⟩

def shift (r : IRect) (dx dy : Int) : IRect := ⟨r.left + dx, r.top + dy, r.right + dx, r.bottom + dy⟩

def expand (r : IRect) (left top right bottom : Int) : IRect :=
  ⟨r.left - left, r.top - top, r.right + right, r.bottom + bottom⟩

/-- Each edge as close as the type has it. -/
def clamp (bits : Nat) (r : IRect) : TRect (Signed bits) :=
  ⟨.clamp bits r.left, .clamp bits r.top, .clamp bits r.right, .clamp bits r.bottom⟩

end IRect

/-- All results are defined, and are those of the integers as far as the type goes. -/
structure Saturates (bits : Nat) : Prop where
  add : ∀ a b : Signed bits, a.add b = some (.clamp bits (a.value + b.value))
  sub : ∀ a b : Signed bits, a.sub b = some (.clamp bits (a.value - b.value))
  makeXYWH : ∀ x y width height : Signed bits, TRect.makeXYWH x y width height =
    some ((IRect.makeXYWH x.value y.value width.value height.value).clamp bits)
  getWidth : ∀ r : TRect (Signed bits), r.getWidth = some (.clamp bits r.exact.width)
  getHeight : ∀ r : TRect (Signed bits), r.getHeight = some (.clamp bits r.exact.height)
  shift : ∀ (r : TRect (Signed bits)) (dx dy : Signed bits),
    r.shift dx dy = some ((r.exact.shift dx.value dy.value).clamp bits)
  shiftOffset : ∀ (r : TRect (Signed bits)) (offset : TPoint (Signed bits)),
    r.shiftOffset offset = some ((r.exact.shift offset.x.value offset.y.value).clamp bits)
  expand : ∀ (r : TRect (Signed bits)) (left top right bottom : Signed bits), r.expand left top right bottom =
    some ((r.exact.expand left.value top.value right.value bottom.value).clamp bits)
  expandAmount : ∀ (r : TRect (Signed bits)) (amount : Signed bits), r.expandAmount amount =
    some ((r.exact.expand amount.value amount.value amount.value amount.value).clamp bits)
  expandAmounts : ∀ (r : TRect (Signed bits)) (horizontal vertical : Signed bits),
    r.expandAmounts horizontal vertical =
      some ((r.exact.expand horizontal.value vertical.value horizontal.value vertical.value).clamp bits)

namespace TRect
variable {bits : Nat}

theorem makeXYWH_eq (x y width height : Signed bits) : makeXYWH x y width height =
    some ((IRect.makeXYWH x.value y.value width.value height.value).clamp bits) := by
  rw [makeXYWH, Signed.add_eq, Signed.add_eq, IRect.makeXYWH, IRect.clamp, Signed.clamp_value, Signed.clamp_value]
  rfl

theorem shift_eq (r : TRect (Signed bits)) (dx dy : Signed bits) :
    r.shift dx dy = some ((r.exact.shift dx.value dy.value).clamp bits) := by
  rw [shift, Signed.add_eq, Signed.add_eq, Signed.add_eq, Signed.add_eq]
  rfl

theorem expand_eq (r : TRect (Signed bits)) (left top right bottom : Signed bits) : r.expand left top right bottom =
    some ((r.exact.expand left.value top.value right.value bottom.value).clamp bits) := by
  rw [expand, Signed.sub_eq, Signed.sub_eq, Signed.add_eq, Signed.add_eq]
  rfl

/-- A rectangle whose size the type has is made of its origin and its size again. -/
theorem makeOriginSize_getSize {r : TRect (Signed bits)}
    (hwidth : -2 ^ bits ≤ r.exact.width ∧ r.exact.width ≤ 2 ^ bits - 1)
    (hheight : -2 ^ bits ≤ r.exact.height ∧ r.exact.height ≤ 2 ^ bits - 1) :
    ∃ size, r.getSize = some size ∧ makeOriginSize r.getOrigin size = some r := by
  refine ⟨⟨.clamp bits r.exact.width, .clamp bits r.exact.height⟩, ?_, ?_⟩
  · rw [getSize, getWidth, getHeight, Signed.sub_eq, Signed.sub_eq]
    rfl
  · have hright : r.left.value + (r.right.value - r.left.value) = r.right.value := by omega
    have hbottom : r.top.value + (r.bottom.value - r.top.value) = r.bottom.value := by omega
    rw [makeOriginSize, makeXYWH, Signed.add_eq, Signed.add_eq, Signed.value_clamp hwidth.1 hwidth.2,
      Signed.value_clamp hheight.1 hheight.2]
    change some (TRect.mk r.left r.top (.clamp bits (r.left.value + (r.right.value - r.left.value)))
      (.clamp bits (r.top.value + (r.bottom.value - r.top.value)))) = some r
    rw [hright, hbottom, Signed.clamp_value, Signed.clamp_value]

end TRect

theorem saturates (bits : Nat) : Saturates bits where
  add := Signed.add_eq
  sub := Signed.sub_eq
  makeXYWH := TRect.makeXYWH_eq
  getWidth _ := Signed.sub_eq _ _
  getHeight _ := Signed.sub_eq _ _
  shift := TRect.shift_eq
  shiftOffset r offset := TRect.shift_eq r offset.x offset.y
  expand := TRect.expand_eq
  expandAmount _ _ := TRect.expand_eq _ _ _ _ _
  expandAmounts _ _ _ := TRect.expand_eq _ _ _ _ _

end Ogre.Geometry
