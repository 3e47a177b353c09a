import Ogre.Hal.ComputePass
import Ogre.Library.Machine

/-! The commands of one pass: any sequence of calls that set up draws or dispatches and end
them, with the debug groups that labels open. -/
namespace Ogre.Hal
open Ogre.Core Ogre.Fml Ogre.Library

/-- A pass, what it records, the flag `has_label_` and the debug groups of its command buffer.
`answer` is what the last call returned, and `crashed` tells that it dereferenced nothing. -/
structure PassRun (Pass : Type) where
  pass : Pass
  recorder : Recorder
  hasLabel : Bool := false
  pushed : Nat := 0
  popped : Nat := 0
  answer : Bool := false
  crashed : Bool := false

namespace PassRun
variable {Pass : Type}

/-- Labels have an effect in debug builds only. -/
def setCommandLabel (s : PassRun Pass) (debug : Bool) : PassRun Pass :=
  if debug then { s with pushed := s.pushed + 1, hasLabel := true } else s

def popDebugGroup (s : PassRun Pass) (debug : Bool) : PassRun Pass :=
  if debug && s.hasLabel then { s with popped := s.popped + 1 } else s

section Labels
variable (s : PassRun Pass) (debug : Bool)

@[simp] theorem setCommandLabel_pass : (s.setCommandLabel debug).pass = s.pass := by cases debug <;> rfl

@[simp] theorem setCommandLabel_crashed : (s.setCommandLabel debug).crashed = s.crashed := by cases debug <;> rfl

@[simp] theorem popDebugGroup_pass : (s.popDebugGroup debug).pass = s.pass := by
  unfold popDebugGroup
  split <;> rfl

@[simp] theorem popDebugGroup_recorder : (s.popDebugGroup debug).recorder = s.recorder := by
  unfold popDebugGroup
  split <;> rfl

@[simp] theorem popDebugGroup_crashed : (s.popDebugGroup debug).crashed = s.crashed := by
  unfold popDebugGroup
  split <;> rfl

end Labels

/-- What a call makes of the pass and what it records. -/
def call (s : PassRun Pass) (r : Pass × Recorder) : PassRun Pass := { s with pass := r.1, recorder := r.2 }

/-- A call that returns a `bool`, unless it crashes. -/
def callBool (s : PassRun Pass) : Option (Bool × Pass × Recorder) → PassRun Pass
  | none => { s with crashed := true, answer := false }
  | some r => { s.call r.2 with answer := r.1 }

end PassRun

namespace RenderPass
variable {p : RenderPass} {s : Recorder} {variant : Option Nat} {descriptorSet : Bool}

inductive Call
  | setCommandLabel
  | setPipeline (pipeline : Option RenderPipeline)
  | setStencilReference (value : Nat)
  | setBaseVertex (value : Nat)
  | setElementCount (count : Nat)
  | setInstanceCount (count : Nat)
  | setVertexBuffers (views : List BufferView)
  | setIndexBuffer (view : BufferView) (indexType : IndexType)
  | bindBuffer (binding : Nat) (type : DescriptorType) (view : BufferView)
  | bindTexture (binding : Nat) (texture : Option Nat) (sampler : Bool)
  | draw (variant : Option Nat) (descriptorSet : Bool)
  deriving DecidableEq, Repr

/-- `Draw` with its label, which an early return does not come to. -/
def drawCall (s : PassRun RenderPass) (debug : Bool) (variant : Option Nat) (descriptorSet : Bool) :
    PassRun RenderPass :=
  let r := s.pass.draw s.recorder variant descriptorSet
  if r.1.code ≠ .kOk then { s.call r.2 with answer := false }
  else { (s.call r.2).popDebugGroup debug with hasLabel := false, answer := true }

/-- `BindDynamicResource` calls `BindResource` with what it is given. -/
def step (debug : Bool) (s : PassRun RenderPass) (c : Call) : Option (PassRun RenderPass) :=
  if s.crashed then none
  else some <| match c with
    | .setCommandLabel => s.setCommandLabel debug
    | .setPipeline pipeline => s.call (s.pass.setPipeline pipeline, s.recorder)
    | .setStencilReference value => s.call (s.pass.setStencilReference s.recorder value)
    | .setBaseVertex value => s.call ({ s.pass with baseVertex := value }, s.recorder)
    | .setElementCount count => s.call ({ s.pass with elementCount := count }, s.recorder)
    | .setInstanceCount count => s.call ({ s.pass with instanceCount := count }, s.recorder)
    | .setVertexBuffers views =>
      let r := s.pass.setVertexBuffers s.recorder views
      s.callBool (some (r.1, s.pass, r.2))
    | .setIndexBuffer view indexType => s.callBool (some (s.pass.setIndexBuffer s.recorder view indexType))
    | .bindBuffer binding type view => s.callBool (s.pass.bindBuffer s.recorder binding type view)
    | .bindTexture binding texture sampler => s.callBool (some (s.pass.bindTexture s.recorder binding texture sampler))
    | .draw variant descriptorSet => drawCall s debug variant descriptorSet

/-- A new pass for a target, whose first color attachment is `colorImage`. -/
def callMachine (debug : Bool) (commandBuffer : Nat) (renderTarget : RenderTarget) (colorImage : Nat)
    (recorder : Recorder) : Machine (PassRun RenderPass) Call where
  init := { pass := { commandBuffer, renderTarget, colorImage }, recorder }
  step := step debug

/-- Nothing stops a `Draw`. -/
def draws (p : RenderPass) (variant : Option Nat) (descriptorSet : Bool) : Bool :=
  p.pipeline.isSome && (!p.immutableSampler || variant.isSome) && descriptorSet

/-- The pass after a `Draw` that got through: its per-command state is that of a new pass. -/
def drawn (p : RenderPass) : RenderPass := {
  commandBuffer := p.commandBuffer
  renderTarget := p.renderTarget
  colorImage := p.colorImage
  currentStencil := p.currentStencil
}

theorem draw_of_draws (h : p.draws variant descriptorSet) : ∃ pipeline,
    p.draw s variant descriptorSet = ({}, p.drawn, ({ p with pipeline := some pipeline } : RenderPass).recordDraw s pipeline) := by
  simp only [draws, Bool.and_eq_true, Option.isSome_iff_exists] at h
  obtain ⟨⟨⟨pipeline, hp⟩, hv⟩, rfl⟩ := h
  have hkey : ∃ key, (if p.immutableSampler then variant else some pipeline.key) = some key := by
    cases hi : p.immutableSampler with
    | false => exact ⟨_, rfl⟩
    | true => exact Option.isSome_iff_exists.mp (by simpa [hi] using hv)
  obtain ⟨key, hkey⟩ := hkey
  exact ⟨{ pipeline with key }, by simp only [draw, hp, hkey]; rfl⟩

/-- An early return keeps everything, except that the pipeline may be a variant of the old one. -/
theorem draw_of_not_draws (h : p.draws variant descriptorSet = false) :
    (p.draw s variant descriptorSet).1.code ≠ .kOk ∧ ∃ pipeline, pipeline.isSome = p.pipeline.isSome ∧
      (p.draw s variant descriptorSet).2 = ({ p with pipeline }, s) := by
  have hcancelled : StatusCode.kCancelled ≠ .kOk := by decide
  have haborted : StatusCode.kAborted ≠ .kOk := by decide
  unfold draw
  split
  next hp => exact ⟨hcancelled, p.pipeline, rfl, rfl⟩
  next pipeline hp =>
    split
    next => exact ⟨haborted, p.pipeline, rfl, rfl⟩
    next key hkey =>
      have hd : descriptorSet = false := by
        simp only [draws, hp, Option.isSome_some, Bool.true_and] at h
        cases hi : p.immutableSampler with
        | false => simpa [hi] using h
        | true => simp_all
      rw [hd]
      exact ⟨haborted, some { pipeline with key }, by rw [hp]; rfl, rfl⟩

end RenderPass

namespace ComputePass
variable {p : ComputePass} {s : Recorder} {gridSize : Geometry.ISize}

inductive Call
  | setCommandLabel
  | setPipeline (pipeline : Nat) (descriptorSet : Bool)
  | bindBuffer (binding : Nat) (type : DescriptorType) (view : BufferView)
  | bindTexture (binding : Nat) (type : DescriptorType) (texture : Option Nat) (sampler : Bool)
  | addMemoryBarrier
  | compute (gridSize : Geometry.ISize)
  deriving DecidableEq, Repr

/-- `Compute` with its label. Both returns reset the flag, and one of them pops. -/
def computeCall (s : PassRun ComputePass) (debug : Bool) (gridSize : Geometry.ISize) : PassRun ComputePass :=
  let r := s.pass.compute s.recorder gridSize
  if r.1.code ≠ .kOk then { s.call r.2 with hasLabel := false, answer := false }
  else { (s.call r.2).popDebugGroup debug with hasLabel := false, answer := true }

def step (debug : Bool) (s : PassRun ComputePass) (c : Call) : Option (PassRun ComputePass) :=
  if s.crashed then none
  else some <| match c with
    | .setCommandLabel => s.setCommandLabel debug
    | .setPipeline pipeline descriptorSet => s.call (s.pass.setPipeline s.recorder pipeline descriptorSet)
    | .bindBuffer binding type view => s.callBool (s.pass.bindBuffer s.recorder binding type view)
    | .bindTexture binding type texture sampler =>
      s.callBool (s.pass.bindTexture s.recorder binding type texture sampler)
    | .addMemoryBarrier => s.call (s.pass, s.recorder.record s.pass.commandBuffer .memoryBarrier)
    | .compute gridSize => computeCall s debug gridSize

def callMachine (debug : Bool) (commandBuffer : Nat) (maxWorkgroupSize : Int × Int) (recorder : Recorder) :
    Machine (PassRun ComputePass) Call where
  init := { pass := { commandBuffer, maxWorkgroupSize }, recorder }
  step := step debug

/-- Nothing stops a `Compute`. -/
def dispatches (p : ComputePass) (gridSize : Geometry.ISize) : Bool :=
  0 < gridSize.width && 0 < gridSize.height && p.pipelineValid

theorem compute_pass : (p.compute s gridSize).2.1 = { p with workspace := {}, pipelineValid := false } := by
  unfold compute
  split <;> rfl

theorem compute_code : (p.compute s gridSize).1.code = .kOk ↔ p.dispatches gridSize := by
  have hcancelled : StatusCode.kCancelled ≠ .kOk := by decide
  unfold compute
  split
  next h =>
    refine iff_of_false hcancelled fun hd => ?_
    simp only [dispatches, Bool.and_eq_true, decide_eq_true_eq] at hd
    obtain ⟨⟨hw, hh⟩, hv⟩ := hd
    rcases h with h | h | h
    · omega
    · omega
    · rw [hv] at h
      cases h
  next h =>
    refine iff_of_true rfl ?_
    simp only [not_or, not_le, Bool.not_eq_false] at h
    simp [dispatches, h]

end ComputePass
end Ogre.Hal
