import Ogre.Core.PipelineFormats
import Ogre.Fml.HashCombine
import Ogre.Hal.PipelineLibrary

/-! The descriptors of pipelines with all their fields: how they are compared and
hashed, and what creation reads of them. -/
namespace Ogre.Hal.Descriptors
open Ogre.Core Ogre.Fml

/-- Equal pointers name one object, and every object here equals itself. -/
def deepComparePointer {α : Type*} (isEqual : α → α → Bool) : Option α → Option α → Bool
  | none, none => true
  | some a, some b => isEqual a b
  | _, _ => false

/-- Maps are lists of their entries in the order of the keys. -/
def deepCompareMap {κ α : Type*} [DecidableEq κ] (isEqual : α → α → Bool) (l m : List (κ × Option α)) : Bool :=
  l.length = m.length && (l.zip m).all fun e => e.1.1 = e.2.1 && deepComparePointer isEqual e.1.2 e.2.2

structure ShaderFunction where
  parentLibraryId : Nat
  name : String
  stage : ShaderStage
  module : Nat
  deriving DecidableEq, Repr

namespace ShaderFunction

def isEqual (f g : ShaderFunction) : Bool :=
  f.parentLibraryId = g.parentLibraryId && f.name = g.name && f.stage = g.stage

def getHash (h : StdHash) (f : ShaderFunction) : BitVec 64 :=
  hashCombine [BitVec.ofNat 64 f.parentLibraryId, h.string f.name, h.number f.stage.ctorIdx]

end ShaderFunction

/-- The flag is kept up to date where layouts are registered. -/
structure VertexDescriptor where
  inputs : List ShaderStageIOSlot := []
  layouts : List ShaderStageBufferLayout := []
  descSetLayouts : List DescriptorSetLayout := []
  usesInputAttachments : Bool := false
  flag : usesInputAttachments = descSetLayouts.any (·.descriptorType = .kInputAttachment) := by decide
  deriving DecidableEq, Repr

namespace VertexDescriptor

def empty : VertexDescriptor := {}

def registerDescriptorSetLayouts (v : VertexDescriptor) (layouts : List DescriptorSetLayout) : VertexDescriptor where
  inputs := v.inputs
  layouts := v.layouts
  descSetLayouts := v.descSetLayouts ++ layouts
  usesInputAttachments := v.usesInputAttachments || layouts.any (·.descriptorType = .kInputAttachment)
  flag := by rw [v.flag, List.any_append]

def isEqual (v w : VertexDescriptor) : Bool := v.inputs = w.inputs && v.layouts = w.layouts

def slotHash (h : StdHash) (s : ShaderStageIOSlot) : BitVec 64 :=
  hashCombine [h.number s.name, h.number s.location, h.number s.set, h.number s.binding, h.number s.type.ctorIdx,
    h.number s.bitWidth, h.number s.vecSize, h.number s.columns, h.number s.offset,
    h.number s.relaxedPrecision.toNat]

def layoutHash (h : StdHash) (l : ShaderStageBufferLayout) : BitVec 64 :=
  hashCombine [h.number l.stride, h.number l.binding]

def getHash (h : StdHash) (v : VertexDescriptor) : BitVec 64 :=
  hashCombine (v.inputs.map (slotHash h) ++ v.layouts.map (layoutHash h))

end VertexDescriptor

structure PipelineDescriptor where
  label : String := ""
  sampleCount : SampleCount := .kCount1
  windingOrder : WindingOrder := .kClockwise
  cullMode : CullMode := .kNone
  entrypoints : List (ShaderStage × Option ShaderFunction) := []
  colorAttachmentDescriptors : List (Nat × ColorAttachmentDescriptor) := []
  vertexDescriptor : Option VertexDescriptor := none
  depthPixelFormat : PixelFormat := .kUnknown
  stencilPixelFormat : PixelFormat := .kUnknown
  depthAttachmentDescriptor : Option DepthAttachmentDescriptor := none
  frontStencilAttachmentDescriptor : Option StencilAttachmentDescriptor := none
  backStencilAttachmentDescriptor : Option StencilAttachmentDescriptor := none
  primitiveType : PrimitiveType := .kTriangle
  polygonMode : PolygonMode := .kFill
  specializationConstants : List Scalar := []
  deriving DecidableEq, Repr

def colorHash (h : StdHash) (c : ColorAttachmentDescriptor) : BitVec 64 :=
  hashCombine [h.number c.format.ctorIdx, h.number c.blendingEnabled.toNat, h.number c.srcColorBlendFactor.ctorIdx,
    h.number c.colorBlendOp.ctorIdx, h.number c.dstColorBlendFactor.ctorIdx, h.number c.srcAlphaBlendFactor.ctorIdx,
    h.number c.alphaBlendOp.ctorIdx, h.number c.dstAlphaBlendFactor.ctorIdx, h.number c.writeMask]

def depthHash (h : StdHash) (d : DepthAttachmentDescriptor) : BitVec 64 :=
  hashCombine [h.number d.depthCompare.ctorIdx, h.number d.depthWriteEnabled.toNat]

def stencilHash (h : StdHash) (s : StencilAttachmentDescriptor) : BitVec 64 :=
  hashCombine [h.number s.stencilCompare.ctorIdx, h.number s.stencilFailure.ctorIdx, h.number s.depthFailure.ctorIdx,
    h.number s.depthStencilPass.ctorIdx, h.number s.readMask, h.number s.writeMask]

/-- The hash of an optional is that of its value. -/
def optionalHash {α : Type*} (h : StdHash) (hash : α → BitVec 64) (o : Option α) : BitVec 64 :=
  (o.map hash).getD h.nullopt

/-- Sample counts have the number of samples. -/
def sampleCountValue : SampleCount → Nat
  | .kCount1 => 1
  | .kCount4 => 4

namespace PipelineDescriptor

/-- The specialization constants are not part of the hash. -/
def getHash (h : StdHash) (d : PipelineDescriptor) : BitVec 64 :=
  hashCombine (
    [h.string d.label, h.number (sampleCountValue d.sampleCount)] ++
    d.entrypoints.flatMap (fun e => h.number e.1.ctorIdx :: (e.2.map (·.getHash h)).toList) ++
    d.colorAttachmentDescriptors.flatMap (fun e => [h.number e.1, colorHash h e.2]) ++
    (d.vertexDescriptor.map (·.getHash h)).toList ++
    [h.number d.depthPixelFormat.ctorIdx, h.number d.stencilPixelFormat.ctorIdx,
      optionalHash h (depthHash h) d.depthAttachmentDescriptor,
      optionalHash h (stencilHash h) d.frontStencilAttachmentDescriptor,
      optionalHash h (stencilHash h) d.backStencilAttachmentDescriptor,
      h.number d.windingOrder.ctorIdx, h.number d.cullMode.ctorIdx, h.number d.primitiveType.ctorIdx,
      h.number d.polygonMode.ctorIdx])

/-- Vectors of scalars are equal if they are equal element by element. -/
def scalarsEqual (l m : List Scalar) : Bool := l.length = m.length && (l.zip m).all fun e => e.1.isEqual e.2

def isEqual (d e : PipelineDescriptor) : Bool :=
  d.label = e.label && d.sampleCount = e.sampleCount &&
  deepCompareMap ShaderFunction.isEqual d.entrypoints e.entrypoints &&
  d.colorAttachmentDescriptors = e.colorAttachmentDescriptors &&
  deepComparePointer VertexDescriptor.isEqual d.vertexDescriptor e.vertexDescriptor &&
  d.stencilPixelFormat = e.stencilPixelFormat && d.depthPixelFormat = e.depthPixelFormat &&
  d.depthAttachmentDescriptor = e.depthAttachmentDescriptor &&
  d.frontStencilAttachmentDescriptor = e.frontStencilAttachmentDescriptor &&
  d.backStencilAttachmentDescriptor = e.backStencilAttachmentDescriptor &&
  d.windingOrder = e.windingOrder && d.cullMode = e.cullMode && d.primitiveType = e.primitiveType &&
  d.polygonMode = e.polygonMode && scalarsEqual d.specializationConstants e.specializationConstants

def hasStencilAttachmentDescriptors (d : PipelineDescriptor) : Bool :=
  d.frontStencilAttachmentDescriptor.isSome || d.backStencilAttachmentDescriptor.isSome

end PipelineDescriptor

structure ComputePipelineDescriptor where
  label : String := ""
  entrypoint : Option ShaderFunction := none
  descriptorSetLayouts : List DescriptorSetLayout := []
  deriving DecidableEq, Repr

namespace ComputePipelineDescriptor

def getHash (h : StdHash) (d : ComputePipelineDescriptor) : BitVec 64 :=
  hashCombine (h.string d.label :: (d.entrypoint.map (·.getHash h)).toList)

def isEqual (d e : ComputePipelineDescriptor) : Bool :=
  d.label = e.label && deepComparePointer ShaderFunction.isEqual d.entrypoint e.entrypoint

end ComputePipelineDescriptor

/-- A vertex input as creation reads it. -/
structure VertexInput where
  binding : Nat
  location : Nat
  type : ShaderType
  bitWidth : Nat
  vecSize : Nat
  columns : Nat
  offset : Nat
  deriving DecidableEq, Repr

/-- What creation reads of a descriptor, labels aside. The formats of depth and stencil
are read for the attachment that the compatible render pass gets. -/
inductive CreationInputs
  | render
      (setLayouts : List DescriptorSetLayout) (usesInputAttachments : Bool)
      (sampleCount : SampleCount) (colors : List (Nat × ColorAttachmentDescriptor))
      (depthFormat stencilFormat : Option PixelFormat)
      (constants : List Scalar) (stages : List (ShaderStage × Nat))
      (windingOrder : WindingOrder) (cullMode : CullMode) (polygonMode : PolygonMode) (primitiveType : PrimitiveType)
      (vertexInputs : List VertexInput) (vertexLayouts : List ShaderStageBufferLayout)
      (depth : Option DepthAttachmentDescriptor) (front back : Option StencilAttachmentDescriptor)
  | compute (module : Nat) (setLayouts : List DescriptorSetLayout)
  deriving DecidableEq, Repr

def VertexInput.ofSlot (s : ShaderStageIOSlot) : VertexInput :=
  ⟨s.binding, s.location, s.type, s.bitWidth, s.vecSize, s.columns, s.offset⟩

/-- The stages with their modules, if every stage has a function. -/
def stageModules : List (ShaderStage × Option ShaderFunction) → Option (List (ShaderStage × Nat))
  | [] => some []
  | (stage, function) :: rest => function.bind fun f => (stageModules rest).map ((stage, f.module) :: ·)

/-- `PipelineVK::Create`. The vertex descriptor and the functions are dereferenced. -/
def PipelineDescriptor.creationInputs (d : PipelineDescriptor) : Option CreationInputs :=
  d.vertexDescriptor.bind fun v =>
    (stageModules d.entrypoints).map fun stages =>
      .render v.descSetLayouts v.usesInputAttachments d.sampleCount d.colorAttachmentDescriptors
        (d.depthAttachmentDescriptor.map fun _ => d.depthPixelFormat)
        (if d.depthAttachmentDescriptor.isNone && d.hasStencilAttachmentDescriptors then some d.stencilPixelFormat
          else none)
        d.specializationConstants stages d.windingOrder d.cullMode d.polygonMode d.primitiveType
        (v.inputs.map VertexInput.ofSlot) v.layouts d.depthAttachmentDescriptor
        d.frontStencilAttachmentDescriptor d.backStencilAttachmentDescriptor

/-- `CreateComputePipeline`, which refuses a descriptor without an entry point. -/
def ComputePipelineDescriptor.creationInputs (d : ComputePipelineDescriptor) : Option CreationInputs :=
  d.entrypoint.map fun f => .compute f.module d.descriptorSetLayouts

end Ogre.Hal.Descriptors
