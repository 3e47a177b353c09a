import Mathlib.Init

/-! Integer points, sizes and rectangles. -/
namespace Ogre.Geometry

structure IPoint where
  x : Int
  y : Int
  deriving DecidableEq, Repr

structure ISize where
  width : Int := 0
  height : Int := 0
  deriving DecidableEq, Repr

structure IRect where
  left : Int
  top : Int
  right : Int
  bottom : Int
  deriving DecidableEq, Repr

namespace IRect

def makeSize (size : ISize) : IRect := ⟨0, 0, size.width, size.height⟩

def isEmpty (r : IRect) : Bool := !(r.left < r.right && r.top < r.bottom)

def width (r : IRect) : Int := r.right - r.left

def height (r : IRect) : Int := r.bottom - r.top

def area (r : IRect) : Int := if r.isEmpty then 0 else r.width * r.height

def intersectsWithRect (r o : IRect) : Bool :=
  !r.isEmpty && !o.isEmpty && r.left < o.right && r.top < o.bottom && r.right > o.left && r.bottom > o.top

def intersection (r o : IRect) : Option IRect :=
  if r.intersectsWithRect o then
    some ⟨max r.left o.left, max r.top o.top, min r.right o.right, min r.bottom o.bottom⟩
  else none

end IRect
end Ogre.Geometry
