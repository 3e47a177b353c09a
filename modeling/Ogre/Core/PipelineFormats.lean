import Ogre.Core.Formats

/-! What pipelines are described by, besides textures and attachments. -/
namespace Ogre.Core

inductive WindingOrder
  | kClockwise
  | kCounterClockwise
  deriving DecidableEq, Repr

inductive BlendFactor
  | kZero
  | kOne
  | kSourceColor
  | kOneMinusSourceColor
  | kSourceAlpha
  | kOneMinusSourceAlpha
  | kDestinationColor
  | kOneMinusDestinationColor
  | kDestinationAlpha
  | kOneMinusDestinationAlpha
  | kSourceAlphaSaturated
  | kBlendColor
  | kOneMinusBlendColor
  | kBlendAlpha
  | kOneMinusBlendAlpha
  deriving DecidableEq, Repr

inductive BlendOperation
  | kAdd
  | kSubtract
  | kReverseSubtract
  deriving DecidableEq, Repr

inductive CullMode
  | kNone
  | kFrontFace
  | kBackFace
  deriving DecidableEq, Repr

inductive PrimitiveType
  | kTriangle
  | kTriangleStrip
  | kLine
  | kLineStrip
  | kPoint
  | kTriangleFan
  deriving DecidableEq, Repr

inductive PolygonMode
  | kFill
  | kLine
  deriving DecidableEq, Repr

inductive CompareFunction
  | kNever
  | kAlways
  | kLess
  | kEqual
  | kLessEqual
  | kGreater
  | kNotEqual
  | kGreaterEqual
  deriving DecidableEq, Repr

inductive StencilOperation
  | kKeep
  | kZero
  | kSetToReferenceValue
  | kIncrementClamp
  | kDecrementClamp
  | kInvert
  | kIncrementWrap
  | kDecrementWrap
  deriving DecidableEq, Repr

/-- Equality is that of all fields. The write mask is a set of bits. -/
structure ColorAttachmentDescriptor where
  format : PixelFormat := .kUnknown
  blendingEnabled : Bool := false
  srcColorBlendFactor : BlendFactor := .kSourceAlpha
  colorBlendOp : BlendOperation := .kAdd
  dstColorBlendFactor : BlendFactor := .kOneMinusSourceAlpha
  srcAlphaBlendFactor : BlendFactor := .kSourceAlpha
  alphaBlendOp : BlendOperation := .kAdd
  dstAlphaBlendFactor : BlendFactor := .kOneMinusSourceAlpha
  writeMask : Nat := 15
  deriving DecidableEq, Repr

structure DepthAttachmentDescriptor where
  depthCompare : CompareFunction := .kAlways
  depthWriteEnabled : Bool := false
  deriving DecidableEq, Repr

structure StencilAttachmentDescriptor where
  stencilCompare : CompareFunction := .kAlways
  stencilFailure : StencilOperation := .kKeep
  depthFailure : StencilOperation := .kKeep
  depthStencilPass : StencilOperation := .kKeep
  readMask : Nat := 4294967295
  writeMask : Nat := 4294967295
  deriving DecidableEq, Repr

inductive ShaderType
  | kUnknown
  | kVoid
  | kBoolean
  | kSignedByte
  | kUnsignedByte
  | kSignedShort
  | kUnsignedShort
  | kSignedInt
  | kUnsignedInt
  | kSignedInt64
  | kUnsignedInt64
  | kAtomicCounter
  | kHalfFloat
  | kFloat
  | kDouble
  | kStruct
  | kImage
  | kSampledImage
  | kSampler
  deriving DecidableEq, Repr

/-- The name is compared as a pointer. -/
structure ShaderStageIOSlot where
  name : Nat
  location : Nat
  set : Nat
  binding : Nat
  type : ShaderType
  bitWidth : Nat
  vecSize : Nat
  columns : Nat
  offset : Nat
  relaxedPrecision : Bool
  deriving DecidableEq, Repr

structure ShaderStageBufferLayout where
  stride : Nat
  binding : Nat
  deriving DecidableEq, Repr

/-- A `Scalar` is a 32-bit float, by its bits. -/
structure Scalar where
  bits : BitVec 32
  deriving DecidableEq, Repr

namespace Scalar

def isNaN (x : Scalar) : Bool := 0x7f800000#32 < x.bits &&& 0x7fffffff#32

def isZero (x : Scalar) : Bool := x.bits &&& 0x7fffffff#32 = 0#32

/-- `==` on floats: a NaN equals nothing, and the zeros equal each other. -/
def isEqual (x y : Scalar) : Bool := !x.isNaN && !y.isNaN && (x = y || x.isZero && y.isZero)

/-- One value for all scalars that are equal to each other, none for a NaN. -/
def value (x : Scalar) : Option Scalar :=
  if x.isNaN then none else if x.isZero then some ⟨0#32⟩ else some x

theorem isEqual_iff {x y : Scalar} : x.isEqual y ↔ ∃ v, x.value = some v ∧ y.value = some v := by
  unfold isEqual value
  cases x.isNaN with
  | true => simp
  | false =>
    cases y.isNaN with
    | true => simp
    | false =>
      cases hx : x.isZero with
      | true =>
        cases hy : y.isZero with
        | true => simp
        | false =>
          have hne : x ≠ y := fun h => by simp [h, hy] at hx
          have hzero : (⟨0#32⟩ : Scalar) ≠ y := fun h => by simp [← h, isZero] at hy
          simp [hne, hzero.symm]
      | false =>
        cases hy : y.isZero with
        | true =>
          have hne : x ≠ y := fun h => by simp [h, hy] at hx
          have hzero : (⟨0#32⟩ : Scalar) ≠ x := fun h => by simp [← h, isZero] at hx
          simp [hne, hzero]
        | false => simp [eq_comm]

end Scalar
end Ogre.Core
